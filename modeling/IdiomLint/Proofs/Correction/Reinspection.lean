import IdiomLint.Proofs.Correction.Inspection
import IdiomLint.Proofs.Correction.Location
import IdiomLint.Proofs.Correction.NoReturn
import IdiomLint.Proofs.File.Outline

/-!
# Inspecting corrected files again

If nothing remains after files were corrected, an inspection of the files as they are then finds nothing.
The limit for all findings can be in the way: a file of which no finding is kept is not corrected, and once
the files before it are mended there is room for what was found in it. Main statement: nothing is found again
if nothing was corrected, or if some finding is kept of each file that has any (`result_inspect_again`).
-/

namespace IdiomLint.Analyzer

variable {a : Analyzer} {d d' : Disk} {files : List String} {path : String} {kept : List FileResult}
  {corrected : List (FileResult × Option String)}

/-! ## The stages of a correcting inspection -/

/-- What a correcting inspection gives and writes, by its stages: the files are analyzed, the limit is
applied, and what is left is corrected. -/
theorem of_result_inspect_correct {i : Inspection} (h : (a.inspect d .correct files).result = .ok i) :
    ∃ all kept corrected, (files.mapM (a.analyzeFile d)).result = .ok all ∧
      capFindings a.config.inAll 0 all = .ok kept ∧
      (a.correctFiles d true kept).result = .ok corrected ∧ i = .ofCorrected corrected ∧
      (a.inspect d .correct files).writes = (a.correctFiles d true kept).writes := by
  obtain ⟨kept, hkept, h⟩ := Outcome.result_bind_eq_ok.mp h
  obtain ⟨corrected, hcorrected, h⟩ := Outcome.result_bind_eq_ok.mp h
  obtain ⟨all, hall, hcap⟩ := Outcome.result_bind_eq_ok.mp hkept
  cases h
  refine ⟨all, kept, corrected, hall, mapError_eq_ok.mp hcap, hcorrected, rfl, ?_⟩
  rw [inspect, (readOnly_analyzeFiles a d files).writes_bind hkept]
  exact Outcome.writes_bind_of_readOnly fun _ => Outcome.readOnly_pure _

/-- The correcting inspection whose stages these are. -/
theorem result_inspect_correct {all : List FileResult} (hall : (files.mapM (a.analyzeFile d)).result = .ok all)
    (hcap : capFindings a.config.inAll 0 all = .ok kept)
    (hcorrected : (a.correctFiles d true kept).result = .ok corrected) :
    (a.inspect d .correct files).result = .ok (.ofCorrected corrected) := by
  refine Outcome.result_bind_eq_ok.mpr ⟨kept, ?_, Outcome.result_bind_eq_ok.mpr ⟨corrected, hcorrected, rfl⟩⟩
  exact Outcome.result_bind_eq_ok.mpr ⟨all, hall, mapError_eq_ok.mpr hcap⟩

/-- The inspection of files that are only reported on, by its stages. -/
theorem result_inspect_report {all kept : List FileResult} (hall : (files.mapM (a.analyzeFile d)).result = .ok all)
    (hcap : capFindings a.config.inAll 0 all = .ok kept) :
    (a.inspect d .report files).result = .ok ⟨kept, []⟩ := by
  refine Outcome.result_bind_eq_ok.mpr ⟨kept, ?_, rfl⟩
  exact Outcome.result_bind_eq_ok.mpr ⟨all, hall, mapError_eq_ok.mpr hcap⟩

theorem length_capFindings {limit : Datum} {rs : List FileResult} : ∀ {count : Nat} {kept : List FileResult},
    capFindings limit count rs = .ok kept → kept.length = rs.length := by
  induction rs with
  | nil =>
      intro count kept h
      cases h
      rfl
  | cons r rs ih =>
      intro count kept h
      obtain ⟨room, _, h⟩ := bind_eq_ok.mp h
      obtain ⟨rest, hrest, h⟩ := bind_eq_ok.mp h
      cases h
      rw [List.length_cons, List.length_cons, ih hrest]

/-- The limit has nothing to take away where nothing was found, if it can be used at all. -/
theorem capFindings_of_nil {limit : Datum} {room : Nat} (hroom : limit.roomAfter 0 = .ok room)
    {rs : List FileResult} (h : ∀ r ∈ rs, r.findings = []) : capFindings limit 0 rs = .ok rs := by
  induction rs with
  | nil => rfl
  | cons r rs ih =>
      obtain ⟨hr, hrs⟩ := List.forall_mem_cons.mp h
      obtain ⟨p, text, findings⟩ := r
      cases hr
      rw [capFindings, hroom]
      refine bind_eq_ok.mpr ⟨room, rfl, ?_⟩
      rw [List.take_nil]
      exact bind_eq_ok.mpr ⟨rs, ih hrs, rfl⟩

theorem exists_room_of_capFindings {limit : Datum} {r : FileResult} {rs kept : List FileResult}
    (h : capFindings limit 0 (r :: rs) = .ok kept) : ∃ room, limit.roomAfter 0 = .ok room := by
  obtain ⟨room, hroom, _⟩ := bind_eq_ok.mp h
  exact ⟨room, hroom⟩

/-! ## What is written -/

/-- A write of a corrected text in which nothing remains to be found. -/
def Mends (a : Analyzer) (d : Disk) (w : String × List UInt8) : Prop :=
  ∃ text last, d.readText w.1 = .ok text ∧ (a.correctText w.1 text).result = .ok (last, []) ∧
    w.2 = Utf8.encode last

/-- The text that a correction writes is the one that it leaves its findings in. -/
theorem FileCorrection.of_mem_writes {r s : FileResult} {difference : Option String}
    {w : String × List UInt8} (hs : a.FileCorrection d true r s difference)
    (hw : w ∈ (a.correctFile d true r).writes) :
    ∃ last, (a.correctText r.path r.text).result = .ok (last, s.findings) ∧
      w = (r.path, Utf8.encode last) := by
  obtain ⟨hfixable, last, remaining, hlast, hother, rfl⟩ := mem_writes_correctFile hw
  cases hs with
  | unfixable hnone => exact absurd (hnone.symm.trans hfixable) Bool.false_ne_true
  | unchanged _ hsame =>
      cases hlast.symm.trans hsame
      exact absurd rfl hother
  | previewed hwrite _ _ _ => exact absurd hwrite (by decide)
  | written _ _ hlast' _ =>
      cases hlast.symm.trans hlast'
      exact ⟨last, hlast, rfl⟩

/-- If nothing remains of a file, nothing was kept of it or it was written. -/
theorem FileCorrection.eq_nil_or_written {r s : FileResult} {difference : Option String}
    (hs : a.FileCorrection d true r s difference) (h : s.findings = []) :
    r.findings = [] ∨ ∃ content, (r.path, content) ∈ (a.correctFile d true r).writes := by
  cases hs with
  | unfixable _ => exact Or.inl h
  | unchanged _ _ => exact Or.inl h
  | previewed hwrite _ _ _ => exact absurd hwrite (by decide)
  | @written last _ _ _ hfixable hlast hother =>
      refine Or.inr ⟨Utf8.encode last, ?_⟩
      rw [writes_correctFile hfixable hlast hother]
      exact List.mem_singleton_self _

/-- What a correction without remaining findings writes leaves nothing to be found. -/
theorem mends_of_mem_writes (hkept : (a.analyzeFiles d files).result = .ok kept)
    (hcorrected : (a.correctFiles d true kept).result = .ok corrected)
    (hclean : ∀ s ∈ corrected, s.1.findings = []) {w : String × List UInt8}
    (hw : w ∈ (a.correctFiles d true kept).writes) : a.Mends d w := by
  obtain ⟨r, hr, hw⟩ := Outcome.mem_writes_mapM hw
  obtain ⟨s, hs, hcorrection⟩ :=
    exists_mem_of_forall₂ (fileCorrections_of_correctFiles hcorrected).flip r hr
  obtain ⟨hfixable, _⟩ := mem_writes_correctFile hw
  obtain ⟨last, hlast, rfl⟩ := hcorrection.of_mem_writes hw
  rw [hclean s hs] at hlast
  have hread := (result_analyzeFiles hkept r hr).2 (ne_nil_of_fixable hfixable)
  exact ⟨r.text, last, hread, hlast, rfl⟩

/-- If nothing remains, every file of which a finding was kept is written. -/
theorem exists_write_of_ne_nil (hcorrected : (a.correctFiles d true kept).result = .ok corrected)
    (hclean : ∀ s ∈ corrected, s.1.findings = []) {k : FileResult} (hk : k ∈ kept)
    (hne : k.findings ≠ []) : ∃ content, (k.path, content) ∈ (a.correctFiles d true kept).writes := by
  obtain ⟨s, hs, hcorrection⟩ :=
    exists_mem_of_forall₂ (fileCorrections_of_correctFiles hcorrected).flip k hk
  rcases hcorrection.eq_nil_or_written (hclean s hs) with hnil | ⟨content, hw⟩
  · exact absurd hnil hne
  · exact ⟨content, Outcome.mem_writes_mapM_of_mem hcorrected k hk _ hw⟩

/-! ## The files afterwards -/

/-- The analysis of a file depends on what is read from it alone. -/
theorem analyzeFile_of_read_eq (h : d'.read path = d.read path) :
    a.analyzeFile d' path = a.analyzeFile d path := by
  have hread : d'.readText path = d.readText path := by rw [Disk.readText, Disk.readText, h]
  rw [analyzeFile, analyzeFile, hread]

theorem readText_of_noReturn {text : String} (htext : NoReturn text)
    (h : d.read path = .ok (Utf8.encode text)) : d.readText path = .ok text := by
  rw [Disk.readText, h]
  refine bind_eq_ok.mpr ⟨Utf8.encode text, rfl, bind_eq_ok.mpr ⟨text, ?_, ?_⟩⟩
  · rw [Utf8.decode?_encode]
    rfl
  · show Except.ok (String.ofList (Lines.joinUniversal text.toList)) = _
    rw [Lines.joinUniversal_of_not_mem htext, String.ofList_toList]

/-- In a mended text nothing is found, under whatever path it is read. -/
theorem result_analyzeFile_of_mends (ha : a.Plain) {w : String × List UInt8} (hw : a.Mends d w)
    (hpossible : Path.isPossible path = true) (hread : d'.read path = .ok w.2) :
    ∃ r, (a.analyzeFile d' path).result = .ok r ∧ r.findings = [] := by
  obtain ⟨text, last, htext, hlast, hcontent⟩ := hw
  rw [hcontent] at hread
  obtain ⟨original, _, rfl⟩ := Disk.exists_of_readText htext
  have hnoReturn := noReturn_of_correctText ha (noReturn_joinUniversal _) hlast
  have hrun := @result_runRules_under _ w.1 path last _ ha.rules (result_of_correctText hlast)
  exact ⟨_, result_analyzeFile_of_runRules hpossible (readText_of_noReturn hnoReturn hread) hrun, rfl⟩

theorem isPossible_of_analyzeFile {r : FileResult} (h : (a.analyzeFile d path).result = .ok r) :
    Path.isPossible path = true := by
  rw [analyzeFile] at h
  split at h
  · exact absurd h (by simp [Outcome.fail])
  · next hpossible => simpa using hpossible

/-- Of each file in which something was found, the limit for all findings leaves something. -/
def KeepsSome (a : Analyzer) (all : List FileResult) : Prop :=
  ∀ kept, capFindings a.config.inAll 0 all = .ok kept →
    ∀ r ∈ all, r.findings ≠ [] → ∃ k ∈ kept, k.path = r.path ∧ k.findings ≠ []

/-- A file that was read has its place among the writes when it is written. -/
theorem follow_of_ne_nil (hfiles : ∀ file ∈ files, ∃ p, file = d.absolute p)
    (hkept : (a.analyzeFiles d files).result = .ok kept) {k : FileResult} (hk : k ∈ kept)
    (hne : k.findings ≠ []) : d.follow k.path = .ok (d.place k.path) := by
  obtain ⟨hmem, hread⟩ := result_analyzeFiles hkept k hk
  obtain ⟨original, horiginal, _⟩ := Disk.exists_of_readText (hread hne)
  obtain ⟨names, hnames, _⟩ := Disk.exists_of_read horiginal
  obtain ⟨p, hp⟩ := hfiles k.path hmem
  rw [hp] at hnames ⊢
  rw [hnames, Disk.follow_absolute hnames]

/-- In each file that was analyzed nothing is found again, if some finding was kept of each file that has
any. -/
theorem result_analyzeFile_again (ha : a.Plain) (hd : d.root.Distinct)
    (hfiles : ∀ file ∈ files, ∃ p, file = d.absolute p) {all : List FileResult}
    (hall : (files.mapM (a.analyzeFile d)).result = .ok all)
    (hcap : capFindings a.config.inAll 0 all = .ok kept) (hsome : a.KeepsSome all)
    (hcorrected : (a.correctFiles d true kept).result = .ok corrected)
    (hclean : ∀ s ∈ corrected, s.1.findings = []) {ws : List (String × List UInt8)}
    (hws : ws = (a.correctFiles d true kept).writes) (hover : d.Overwrites ws) :
    ∀ file ∈ files, ∃ r, (a.analyzeFile (d.writeAll ws) file).result = .ok r ∧ r.findings = [] := by
  intro file hfile
  have hkept : (a.analyzeFiles d files).result = .ok kept :=
    Outcome.result_bind_eq_ok.mpr ⟨all, hall, mapError_eq_ok.mpr hcap⟩
  obtain ⟨r, hr, hresult⟩ := exists_mem_of_forall₂ (Outcome.forall₂_of_result_mapM hall).flip file hfile
  rcases Disk.read_writeAll hd hover file with ⟨hother, hsame⟩ | ⟨w, hw, _, hread⟩
  · -- The file was not written, so it is found in it what was found before, and that is nothing.
    rw [analyzeFile_of_read_eq hsame]
    refine ⟨r, hresult, ?_⟩
    by_contra hne
    obtain ⟨k, hk, hpath, hkne⟩ := hsome kept hcap r hr hne
    obtain ⟨content, hw⟩ := exists_write_of_ne_nil hcorrected hclean hk hkne
    rw [← hws] at hw
    have hfollow := follow_of_ne_nil hfiles hkept hk hkne
    rw [(result_analyzeFile hresult).1] at hpath
    rw [← hpath] at hother
    exact hother _ hw hfollow
  · rw [hws] at hw
    exact result_analyzeFile_of_mends ha (mends_of_mem_writes hkept hcorrected hclean hw)
      (isPossible_of_analyzeFile hresult) hread

/-- Nothing is found again after a correction without remaining findings: if nothing was corrected, or if
some finding was kept of each file that has any. -/
theorem result_inspect_again (ha : a.Plain) (hd : d.root.Distinct)
    (hfiles : ∀ file ∈ files, ∃ p, file = d.absolute p) {i : Inspection}
    (h : (a.inspect d .correct files).result = .ok i) (hclean : i.findings = [])
    (hover : d.Overwrites (a.inspect d .correct files).writes)
    (hsome : (a.inspect d .correct files).writes = [] ∨
      ∀ all, (files.mapM (a.analyzeFile d)).result = .ok all → a.KeepsSome all) :
    ∃ results, (a.inspect (d.writeAll (a.inspect d .correct files).writes) .report files).result =
        .ok ⟨results, []⟩ ∧
      results.length = i.results.length ∧ ∀ r ∈ results, r.findings = [] := by
  obtain ⟨all, kept, corrected, hall, hcap, hcorrected, rfl, hwrites⟩ := of_result_inspect_correct h
  have hclean : ∀ s ∈ corrected, s.1.findings = [] := by
    intro s hs
    exact List.flatMap_eq_nil_iff.mp hclean s.1 (List.mem_map_of_mem hs)
  have hlength : kept.length = corrected.length :=
    (fileCorrections_of_correctFiles hcorrected).length_eq
  rw [hwrites] at hover hsome ⊢
  have hresults : (Inspection.ofCorrected corrected).results.length = corrected.length :=
    List.length_map _
  rcases hsome with hnone | hsome
  · -- The disk is as it was, and of no file a finding was kept.
    refine ⟨kept, ?_, hlength.trans hresults.symm, ?_⟩
    · rw [hnone]
      exact result_inspect_report hall hcap
    · intro k hk
      by_contra hne
      obtain ⟨content, hw⟩ := exists_write_of_ne_nil hcorrected hclean hk hne
      rw [hnone] at hw
      exact List.not_mem_nil hw
  · have hagain := result_analyzeFile_again ha hd hfiles hall hcap (hsome all hall) hcorrected hclean rfl hover
    obtain ⟨results, hfound, hnil⟩ := Outcome.exists_result_mapM hagain
    have hsame : results.length = all.length := by
      rw [← (Outcome.forall₂_of_result_mapM hfound).length_eq,
        (Outcome.forall₂_of_result_mapM hall).length_eq]
    refine ⟨results, result_inspect_report hfound ?_, ?_, hnil⟩
    · cases all with
      | nil =>
          rw [List.length_eq_zero_iff.mp hsame]
          rfl
      | cons r rs =>
          obtain ⟨room, hroom⟩ := exists_room_of_capFindings hcap
          exact capFindings_of_nil hroom hnil
    · rw [hresults, ← hlength, length_capFindings hcap, hsame]

end IdiomLint.Analyzer
