import Mathlib.Data.List.Nodup
import IdiomLint.Proofs.Correction.Location
import IdiomLint.Proofs.File.Tree
import IdiomLint.Proofs.Run.Limit

/-!
# Reports on files as they are left

The findings of a result are the first of those that the rules find in the text of the result (`Describes`). This holds
of what an analysis gives, whatever the limits leave of it, and a correction keeps it: where it replaces a text it
replaces the findings as well, and writes that text and no other file. Main statement: `correctFiles_describes`. The
report takes the text for a finding from the place of its file. Where two paths lead to one place, it can take the text
of another result (`report_mixes_texts`).
-/

namespace IdiomLint.Analyzer

variable {a : Analyzer} {d : Disk}

/-! ## Results that an analysis gives -/

/-- The findings of a result are the first of those that the rules find in its text. -/
def Describes (a : Analyzer) (r : FileResult) : Prop :=
  match (a.runRules r.path r.text).result with
  | .ok found => r.findings <+: found.findings
  | .error _ => r.findings = []

theorem describes_iff_of_ok {r found : FileResult} (h : (a.runRules r.path r.text).result = .ok found) :
    a.Describes r ↔ r.findings <+: found.findings := by
  simp only [Describes, h]

theorem describes_iff_of_error {r : FileResult} {e : AnalysisError}
    (h : (a.runRules r.path r.text).result = .error e) : a.Describes r ↔ r.findings = [] := by
  simp only [Describes, h]

theorem describes_of_nil {r : FileResult} (h : r.findings = []) : a.Describes r := by
  cases hrun : (a.runRules r.path r.text).result with
  | ok found =>
      rw [describes_iff_of_ok hrun, h]
      exact List.nil_prefix
  | error e => exact (describes_iff_of_error hrun).mpr h

theorem describes_of_runRules {path text : String} {r : FileResult} (h : (a.runRules path text).result = .ok r) :
    a.Describes r := by
  obtain ⟨findings, rfl⟩ := exists_of_result_runRules h
  exact (describes_iff_of_ok h).mpr List.prefix_rfl

/-- The first findings of a result describe its text as well. -/
theorem Describes.take {r : FileResult} (h : a.Describes r) (room : Nat) :
    a.Describes { r with findings := r.findings.take room } := by
  cases hrun : (a.runRules r.path r.text).result with
  | ok found =>
      rw [describes_iff_of_ok hrun] at h
      refine (@describes_iff_of_ok a { r with findings := r.findings.take room } found hrun).mpr ?_
      exact (List.take_prefix room r.findings).trans h
  | error e =>
      rw [describes_iff_of_error hrun] at h
      refine (@describes_iff_of_error a { r with findings := r.findings.take room } e hrun).mpr ?_
      rw [h, List.take_nil]

theorem describes_of_analyzeFile {path : String} {r : FileResult} (h : (a.analyzeFile d path).result = .ok r) :
    a.Describes r := by
  rw [analyzeFile] at h
  split at h
  · exact absurd h (by simp [Outcome.fail])
  · split at h
    · rw [analyzeText] at h
      split at h
      · cases h
        exact describes_of_nil rfl
      · exact describes_of_runRules h
    · cases h
      exact describes_of_nil rfl

variable {paths : List String} {results : List FileResult}

/-- The limit for all findings leaves results that describe their texts. -/
theorem describes_of_analyzeFiles (h : (a.analyzeFiles d paths).result = .ok results) :
    ∀ r ∈ results, a.Describes r := by
  obtain ⟨all, hall, hcap⟩ := Outcome.result_bind_eq_ok.mp h
  intro c hc
  obtain ⟨r, hr, room, rfl⟩ := exists_mem_of_forall₂ (forall₂_of_capFindings (mapError_eq_ok.mp hcap)) c hc
  obtain ⟨path, _, hresult⟩ := Outcome.exists_of_result_mapM hall r hr
  exact (describes_of_analyzeFile hresult).take room

/-- There is a result for each path, in order. -/
theorem map_path_of_analyzeFiles (h : (a.analyzeFiles d paths).result = .ok results) :
    results.map FileResult.path = paths := by
  obtain ⟨all, hall, hcap⟩ := Outcome.result_bind_eq_ok.mp h
  have hpaths : paths.map id = all.map FileResult.path :=
    map_eq_of_forall₂ ((Outcome.forall₂_of_result_mapM hall).imp fun _ _ hr => (result_analyzeFile hr).1.symm)
  have hkept : all.map FileResult.path = results.map FileResult.path :=
    map_eq_of_forall₂ ((forall₂_of_capFindings (mapError_eq_ok.mp hcap)).imp fun _ _ ⟨_, hc⟩ => by rw [hc])
  rw [← hkept, ← hpaths, List.map_id]

/-! ## Results that a correction gives -/

/-- What a correction that writes makes of a result. Where there is a difference, the text and the findings are those
that the correction of the text gives, and the text is another one; where there is none, the result stays. -/
def Replaces (a : Analyzer) (r : FileResult) (s : FileResult × Option String) : Prop :=
  match s.2 with
  | none => s.1 = r
  | some _ => ∃ last remaining, (a.correctText r.path r.text).result = .ok (last, remaining) ∧ last ≠ r.text ∧
      s.1 = { r with text := last, findings := remaining }

/-- The files that have a difference, with the texts of their results. -/
def written (corrected : List (FileResult × Option String)) : List (String × List UInt8) :=
  corrected.filterMap fun (r, difference) => difference.map fun _ => (r.path, Utf8.encode r.text)

theorem written_append (corrected others : List (FileResult × Option String)) :
    written (corrected ++ others) = written corrected ++ written others :=
  List.filterMap_append

theorem FileCorrection.eq_of_preview {r s : FileResult} {difference : Option String}
    (h : a.FileCorrection d false r s difference) : s = r := by
  cases h with
  | unfixable _ | unchanged _ _ | previewed _ _ _ _ => rfl
  | written hwrite _ _ _ => exact absurd hwrite Bool.false_ne_true

theorem FileCorrection.replaces {r s : FileResult} {difference : Option String}
    (h : a.FileCorrection d true r s difference) : a.Replaces r (s, difference) := by
  cases h with
  | unfixable _ | unchanged _ _ => rfl
  | previewed hwrite _ _ _ => exact absurd hwrite.symm Bool.false_ne_true
  | written _ _ hlast hne => exact ⟨_, _, hlast, hne, rfl⟩

/-- A correction keeps the path of a file. -/
theorem FileCorrection.path_eq {write : Bool} {r s : FileResult} {difference : Option String}
    (h : a.FileCorrection d write r s difference) : s.path = r.path := by
  cases h with
  | unfixable _ | unchanged _ _ | previewed _ _ _ _ | written _ _ _ _ => rfl

/-- A correction leaves a result that describes its text: what remains was found in the corrected text. -/
theorem FileCorrection.describes {write : Bool} {r s : FileResult} {difference : Option String}
    (h : a.FileCorrection d write r s difference) (hr : a.Describes r) : a.Describes s := by
  cases h with
  | unfixable _ | unchanged _ _ | previewed _ _ _ _ => exact hr
  | written _ _ hlast _ => exact describes_of_runRules (result_of_correctText hlast)

theorem readOnly_correctFile (a : Analyzer) (d : Disk) (r : FileResult) : (a.correctFile d false r).ReadOnly := by
  unfold correctFile
  split
  · exact Outcome.readOnly_pure _
  · refine (readOnly_correctText a _ _).bind fun (last, remaining) => ?_
    simp only
    split <;> exact Outcome.readOnly_pure _

/-- A file is written when it has a difference, with the text of its result. -/
theorem writes_correctFile_eq {r s : FileResult} {difference : Option String}
    (h : (a.correctFile d true r).result = .ok (s, difference)) :
    (a.correctFile d true r).writes = written [(s, difference)] := by
  cases fileCorrection_of_correctFile h with
  | unfixable hnone =>
      refine List.eq_nil_iff_forall_not_mem.mpr fun w hw => ?_
      rw [(mem_writes_correctFile hw).1] at hnone
      exact Bool.noConfusion hnone
  | unchanged _ hlast =>
      refine List.eq_nil_iff_forall_not_mem.mpr fun w hw => ?_
      obtain ⟨_, last, remaining, hresult, hne, _⟩ := mem_writes_correctFile hw
      cases hlast.symm.trans hresult
      exact hne rfl
  | previewed hwrite _ _ _ => exact absurd hwrite.symm Bool.false_ne_true
  | written _ hfixable hlast hne => exact writes_correctFile hfixable hlast hne

variable {corrected : List (FileResult × Option String)}

/-- What is written are the files that have a difference, with the texts of their results. -/
theorem writes_correctFiles_eq (h : (a.correctFiles d true results).result = .ok corrected) :
    (a.correctFiles d true results).writes = written corrected := by
  rw [correctFiles] at h ⊢
  rw [Outcome.writes_mapM h]
  have hfiles := Outcome.forall₂_of_result_mapM h
  clear h
  induction hfiles with
  | nil => rfl
  | @cons r s results corrected hs _ ih =>
      rw [List.flatMap_cons, writes_correctFile_eq hs, ih, ← written_append]
      rfl

/-- The files that are listed as corrected are those that are written. -/
theorem map_fst_corrections (corrected : List (FileResult × Option String)) :
    (Inspection.ofCorrected corrected).corrections.map Prod.fst = (written corrected).map Prod.fst := by
  rw [Inspection.ofCorrected, written, List.map_filterMap, List.map_filterMap]
  refine List.filterMap_congr fun (r, difference) _ => ?_
  cases difference <;> rfl

theorem map_path_of_correctFiles {write : Bool} (h : (a.correctFiles d write results).result = .ok corrected) :
    (corrected.map Prod.fst).map FileResult.path = results.map FileResult.path := by
  rw [List.map_map]
  exact (map_eq_of_forall₂ ((fileCorrections_of_correctFiles h).imp fun _ _ hs => hs.path_eq.symm)).symm

theorem describes_of_correctFiles {write : Bool} (hresults : ∀ r ∈ results, a.Describes r)
    (h : (a.correctFiles d write results).result = .ok corrected) : ∀ r ∈ corrected.map Prod.fst, a.Describes r := by
  intro r hr
  obtain ⟨s, hs, rfl⟩ := List.mem_map.mp hr
  obtain ⟨r, hr, hcorrection⟩ := exists_mem_of_forall₂ (fileCorrections_of_correctFiles h) s hs
  exact hcorrection.describes (hresults r hr)

/-! ## Files that are written -/

/-- What is written are files that were there before. -/
theorem exists_file_of_written (hd : d.Proper)
    (hresults : (a.analyzeFiles d paths).result = .ok results)
    (h : (a.correctFiles d true results).result = .ok corrected) :
    ∀ w ∈ written corrected, ∃ content, d.root.get? (d.place w.1) = some (.file content) := by
  intro w hw
  rw [← writes_correctFiles_eq h] at hw
  obtain ⟨r, hr, hw⟩ := Outcome.mem_writes_mapM hw
  obtain ⟨hfixable, _, _, _, _, rfl⟩ := mem_writes_correctFile hw
  have hread := (result_analyzeFiles hresults r hr).2 (ne_nil_of_fixable hfixable)
  obtain ⟨original, hread, _⟩ := Disk.exists_of_readText hread
  exact ⟨_, Disk.get?_place_of_read hd hread⟩

/-- The files that are written are among all files, in order. -/
theorem written_sublist (corrected : List (FileResult × Option String)) :
    ((written corrected).map Prod.fst).Sublist ((corrected.map Prod.fst).map FileResult.path) := by
  induction corrected with
  | nil => exact .slnil
  | cons s corrected ih =>
      obtain ⟨r, difference⟩ := s
      cases difference with
      | none => exact ih.cons r.path
      | some text => exact ih.cons_cons r.path

/-- The paths of corrected results are those that were analyzed. -/
theorem map_path_of_corrected {write : Bool} (hresults : (a.analyzeFiles d paths).result = .ok results)
    (h : (a.correctFiles d write results).result = .ok corrected) :
    (corrected.map Prod.fst).map FileResult.path = paths :=
  (map_path_of_correctFiles h).trans (map_path_of_analyzeFiles hresults)

/-- A file in no place that is written to stays as it was. -/
theorem get?_writeAll_other (hd : d.Proper)
    (hresults : (a.analyzeFiles d paths).result = .ok results)
    (h : (a.correctFiles d true results).result = .ok corrected) {names : List String} {content : List UInt8}
    (hfile : d.root.get? names = some (.file content)) (hother : ∀ w ∈ written corrected, d.place w.1 ≠ names) :
    (d.writeAll (written corrected)).root.get? names = some (.file content) := by
  rcases Disk.get?_writeAll (exists_file_of_written hd hresults h) hfile with ⟨_, hlast⟩ | ⟨w, hw, hplace, _⟩
  · exact hlast
  · exact absurd hplace (hother w hw)

/-- A file that is written holds the text of its result in the end, if no other one lies in its place. -/
theorem get?_writeAll_written (hd : d.Proper)
    (hresults : (a.analyzeFiles d paths).result = .ok results)
    (h : (a.correctFiles d true results).result = .ok corrected) (hplaces : (paths.map d.place).Nodup) :
    ∀ w ∈ written corrected, (d.writeAll (written corrected)).root.get? (d.place w.1) = some (.file w.2) := by
  intro w hw
  have hfiles := exists_file_of_written hd hresults h
  obtain ⟨content, hcontent⟩ := hfiles w hw
  have hnodup : ((written corrected).map fun w => d.place w.1).Nodup := by
    rw [← map_path_of_corrected hresults h] at hplaces
    have hsub := hplaces.sublist ((written_sublist corrected).map d.place)
    simpa only [List.map_map, Function.comp_def] using hsub
  rcases Disk.get?_writeAll hfiles hcontent with ⟨hnone, _⟩ | ⟨w', hw', hplace, hlast⟩
  · exact absurd rfl (hnone w hw)
  · rw [List.inj_on_of_nodup_map hnodup hw' hw hplace] at hlast
    exact hlast

/-! ## Texts in the report -/

theorem place_eq (d : Disk) (path : String) : d.place path = Path.names (Path.resolved d.here path) :=
  (d.place_eq_names path).trans (Path.names_ofNames Path.proper_of_mem_names).symm

/-- Where no two files lie in one place, the report knows each file by the text of its result. -/
theorem lookup_texts (hplaces : (((corrected.map Prod.fst).map FileResult.path).map d.place).Nodup)
    (rules : List Rule) :
    ∀ r ∈ corrected.map Prod.fst, ((Inspection.ofCorrected corrected).report d rules).texts.lookup
      (Path.resolved d.here r.path) = some r.text := by
  intro r hr
  have hresolved : ((corrected.map Prod.fst).map fun r => Path.resolved d.here r.path).Nodup := by
    refine List.Nodup.of_map Path.names ?_
    simpa only [place_eq, List.map_map, Function.comp_def] using hplaces
  refine @lookup_of_mem _ _ ?_ (Path.resolved d.here r.path, r.text) ?_
  · rw [Inspection.report, List.map_map, List.map_reverse]
    exact List.nodup_reverse.mpr hresolved
  · exact List.mem_map.mpr ⟨r, List.mem_reverse.mpr hr, rfl⟩

/-- **Results describe the files as they are left.** A correction that only shows its differences writes nothing and
keeps all results. One that writes them writes the files that it lists, each with the text that the correction of its
text gives, which is another one, and this text and what remains in it become the result; all other results and files
stay. Either way the findings of each result are the first of those that the rules find in its text, and where no two
paths lead to one place, a file that was written holds the text of its result, and the report has this text for it. -/
theorem correctFiles_describes (h : (a.analyzeFiles d paths).result = .ok results) :
    ((a.correctFiles d false results).writes = [] ∧
      ∀ corrected, (a.correctFiles d false results).result = .ok corrected → corrected.map Prod.fst = results) ∧
    (∀ corrected, (a.correctFiles d true results).result = .ok corrected →
      (a.correctFiles d true results).writes = written corrected ∧
      (Inspection.ofCorrected corrected).corrections.map Prod.fst = (written corrected).map Prod.fst ∧
      List.Forall₂ a.Replaces results corrected ∧
      (d.Proper → ∀ names content, d.root.get? names = some (.file content) →
        (∀ w ∈ written corrected, d.place w.1 ≠ names) →
          (d.writeAll (written corrected)).root.get? names = some (.file content))) ∧
    ∀ write corrected, (a.correctFiles d write results).result = .ok corrected →
      (∀ r ∈ corrected.map Prod.fst, a.Describes r) ∧
      ((paths.map d.place).Nodup →
        (write = true → d.Proper → ∀ w ∈ written corrected,
          (d.writeAll (written corrected)).root.get? (d.place w.1) = some (.file w.2)) ∧
        ∀ rules, ∀ r ∈ corrected.map Prod.fst, ((Inspection.ofCorrected corrected).report d rules).texts.lookup
          (Path.resolved d.here r.path) = some r.text) := by
  refine ⟨⟨?_, ?_⟩, ?_, ?_⟩
  · exact Outcome.ReadOnly.mapM (readOnly_correctFile a d) results
  · intro corrected hcorrected
    have hsame := (fileCorrections_of_correctFiles hcorrected).imp fun _ _ hs => hs.eq_of_preview.symm
    exact (map_eq_of_forall₂ hsame).symm.trans (List.map_id results)
  · intro corrected hcorrected
    refine ⟨writes_correctFiles_eq hcorrected, map_fst_corrections corrected, ?_, ?_⟩
    · exact (fileCorrections_of_correctFiles hcorrected).imp fun _ _ hs => hs.replaces
    · exact fun hd names content => get?_writeAll_other hd h hcorrected
  · intro write corrected hcorrected
    refine ⟨describes_of_correctFiles (describes_of_analyzeFiles h) hcorrected, fun hplaces => ⟨?_, ?_⟩⟩
    · rintro rfl hd
      exact get?_writeAll_written hd h hcorrected hplaces
    · rw [← map_path_of_corrected h hcorrected] at hplaces
      exact lookup_texts hplaces

/-! ## A file that is corrected, under one path and under two -/

theorem analyzeFile_letterAnalyzer {path : String} (hpossible : Path.isPossible path = true)
    (hread : letterDisk.readText path = .ok "a") :
    ((letterAnalyzer 1).analyzeFile letterDisk path).result = .ok ⟨path, "a", letterResult.findings⟩ :=
  result_analyzeFile_of_runRules hpossible hread (runRules_letterAnalyzer rfl rfl)

theorem correctFile_letterAnalyzer (path : String) : ∃ difference,
    ((letterAnalyzer 1).correctFile letterDisk true ⟨path, "a", letterResult.findings⟩).result =
      .ok (⟨path, "b", [letterFinding []]⟩, some difference) :=
  have hne : "b" ≠ "a" := by decide
  ⟨_, result_correctFile_of_written rfl (correctText_letterAnalyzer (runRules_letterAnalyzer rfl rfl) rfl) hne⟩

/-- A file that is written and left with a finding. -/
theorem correctFiles_describes_letter : ∃ corrected,
    letterDisk.Proper ∧
    ((letterAnalyzer 1).analyzeFiles letterDisk ["/a.rb"]).result = .ok [letterResult] ∧
    ((letterAnalyzer 1).correctFiles letterDisk true [letterResult]).result = .ok corrected ∧
    (["/a.rb"].map letterDisk.place).Nodup ∧
    ((letterAnalyzer 1).correctFiles letterDisk true [letterResult]).writes = [("/a.rb", Utf8.encode "b")] ∧
    (letterDisk.writeAll [("/a.rb", Utf8.encode "b")]).root.get? (letterDisk.place "/a.rb") =
      some (.file (Utf8.encode "b")) ∧
    ∀ r ∈ corrected.map Prod.fst, (letterAnalyzer 1).Describes r ∧
      ((Inspection.ofCorrected corrected).report letterDisk [letterRule 1]).texts.lookup
        (Path.resolved letterDisk.here r.path) = some r.text := by
  have hd : letterDisk.Proper := List.forall_mem_nil _
  have hnodup : (["/a.rb"].map letterDisk.place).Nodup := List.nodup_singleton _
  obtain ⟨difference, hfile⟩ := correctFile_letterAnalyzer "/a.rb"
  have hcorrected : ((letterAnalyzer 1).correctFiles letterDisk true [letterResult]).result =
      .ok [(⟨"/a.rb", "b", [letterFinding []]⟩, some difference)] :=
    Outcome.result_mapM_of_forall₂ (.cons hfile .nil)
  obtain ⟨_, hwritten, hleft⟩ := correctFiles_describes (analyzeFiles_letterAnalyzer 1)
  obtain ⟨hdescribes, hdistinct⟩ := hleft true _ hcorrected
  obtain ⟨hdisk, htexts⟩ := hdistinct hnodup
  refine ⟨_, hd, analyzeFiles_letterAnalyzer 1, hcorrected, hnodup, (hwritten _ hcorrected).1, ?_, ?_⟩
  · exact hdisk rfl hd ("/a.rb", Utf8.encode "b") List.mem_cons_self
  · exact fun r hr => ⟨hdescribes r hr, htexts _ r hr⟩

/-- Two paths of one file. The limit leaves the finding under the first path only, so the file is corrected under that
path, and the report takes the text as it was under the second one for what is found in the corrected text. -/
theorem report_mixes_texts : ∃ results corrected, ["//a.rb", "/a.rb"].Nodup ∧
    ((letterAnalyzer 1).analyzeFiles letterDisk ["//a.rb", "/a.rb"]).result = .ok results ∧
    ((letterAnalyzer 1).correctFiles letterDisk true results).result = .ok corrected ∧
    ∃ r ∈ corrected.map Prod.fst, r.findings ≠ [] ∧ r.text = "b" ∧
      ((Inspection.ofCorrected corrected).report letterDisk [letterRule 1]).texts.lookup
        (Path.resolved letterDisk.here r.path) = some "a" := by
  obtain ⟨difference, hfile⟩ := correctFile_letterAnalyzer "//a.rb"
  have hanalyzed : ((letterAnalyzer 1).analyzeFiles letterDisk ["//a.rb", "/a.rb"]).result =
      .ok [⟨"//a.rb", "a", letterResult.findings⟩, ⟨"/a.rb", "a", []⟩] := by
    have hfirst := @analyzeFile_letterAnalyzer "//a.rb" (by decide +kernel) (by decide +kernel)
    have hsecond := @analyzeFile_letterAnalyzer "/a.rb" (by decide +kernel) (by decide +kernel)
    exact Outcome.result_bind_eq_ok.mpr
      ⟨_, Outcome.result_mapM_of_forall₂ (.cons hfirst (.cons hsecond .nil)), rfl⟩
  have hcorrected : ((letterAnalyzer 1).correctFiles letterDisk true
      [⟨"//a.rb", "a", letterResult.findings⟩, ⟨"/a.rb", "a", []⟩]).result =
      .ok [(⟨"//a.rb", "b", [letterFinding []]⟩, some difference), (⟨"/a.rb", "a", []⟩, none)] := by
    refine Outcome.result_mapM_of_forall₂ (.cons hfile (.cons ?_ .nil))
    rw [correctFile_of_nil rfl]
    rfl
  refine ⟨_, _, by decide, hanalyzed, hcorrected, _, List.mem_cons_self, by simp, rfl, ?_⟩
  show List.lookup (Path.resolved letterDisk.here "//a.rb")
    [(Path.resolved letterDisk.here "/a.rb", "a"), (Path.resolved letterDisk.here "//a.rb", "b")] = _
  decide +kernel

end IdiomLint.Analyzer
