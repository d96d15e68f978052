import IdiomLint.Proofs.Correction.Passes
import IdiomLint.Run

/-!
# What a correction writes

Analyzing files writes nothing. Correcting files writes the corrected texts of files that could be read,
each to the path it was read from (`mem_writes_inspect`).
-/

namespace IdiomLint

open Outcome (ReadOnly)

theorem Grammar.readOnly_parse (g : Grammar) (text : String) : (g.parse text).ReadOnly := by
  refine (Outcome.readOnly_ofExcept _).bind fun parsed => ?_
  split
  · exact (Outcome.readOnly_notify _).bind fun _ => Outcome.readOnly_ofExcept _
  · exact Outcome.readOnly_ofExcept _

/-- The tree of a text is what its concrete tree is converted to. -/
theorem Grammar.result_parse (parse : String → Parsed) (text : String) : (Grammar.parse (.ok parse) text).result =
    (Ruby.convert (Utf8.encode text) (parse text).tree).mapError ParseError.oddTree := by
  rw [Grammar.parse, Outcome.result_bind]
  show Outcome.result (if (parse text).hasErrors then _ else _) = _
  split
  · rw [Outcome.result_bind]
    rfl
  · rfl

/-- What is read is the text of a file with its line breaks replaced. -/
theorem Disk.exists_of_readText {d : Disk} {path text : String} (h : d.readText path = .ok text) :
    ∃ original, d.read path = .ok (Utf8.encode original) ∧
      text = String.ofList (Lines.joinUniversal original.toList) := by
  obtain ⟨bytes, hbytes, h⟩ := bind_eq_ok.mp h
  obtain ⟨original, horiginal, h⟩ := bind_eq_ok.mp h
  cases h
  refine ⟨original, ?_, rfl⟩
  rw [Utf8.encode_of_decode? (mapError_eq_ok.mp horiginal)]
  exact mapError_eq_ok.mp hbytes

namespace Analyzer

variable {a : Analyzer} {d : Disk} {path text : String}

theorem readOnly_findingsFrom (a : Analyzer) (context : RuleContext) (rules : List Rule) :
    ∀ found, (a.findingsFrom context found rules).ReadOnly := by
  induction rules with
  | nil => exact fun found => Outcome.readOnly_pure _
  | cons rule rules ih =>
      intro found
      unfold findingsFrom
      split
      · exact (Outcome.readOnly_notify _).bind fun _ => ih found
      · refine (Outcome.readOnly_ofExcept _).bind fun new => ?_
        refine (Outcome.readOnly_ofExcept _).bind fun full => ?_
        split
        · exact Outcome.readOnly_ofExcept _
        · exact ih _

theorem readOnly_runRules (a : Analyzer) (path text : String) : (a.runRules path text).ReadOnly := by
  unfold runRules
  split
  · exact Outcome.readOnly_pure _
  · refine Outcome.ReadOnly.bind (Grammar.readOnly_parse _ _) fun tree => ?_
    exact (readOnly_findingsFrom a _ _ _).bind fun found => Outcome.readOnly_pure _

theorem readOnly_correctFrom (a : Analyzer) (path : String) (passes : Nat) :
    ∀ text findings, (a.correctFrom path passes text findings).ReadOnly := by
  induction passes with
  | zero => exact fun text findings => (Outcome.readOnly_notify _).bind fun _ => Outcome.readOnly_pure _
  | succ passes ih =>
      intro text findings
      unfold correctFrom
      refine (Outcome.readOnly_notifyAll _).bind fun _ => ?_
      split
      · exact Outcome.readOnly_pure _
      · refine (Outcome.readOnly_ofExcept _).bind fun next => ?_
        exact (readOnly_runRules a path next).bind fun result => ih _ _

theorem readOnly_correctText (a : Analyzer) (path text : String) : (a.correctText path text).ReadOnly :=
  (readOnly_runRules a path text).bind fun _ => readOnly_correctFrom a path _ _ _

/-- A file with something to mend is written when its text changes. -/
theorem writes_correctFile {r : FileResult} {last : String} {remaining : List Finding}
    (hfixable : r.findings.any Finding.fixable = true)
    (hlast : (a.correctText r.path r.text).result = .ok (last, remaining)) (hne : last ≠ r.text) :
    (a.correctFile d true r).writes = [(r.path, Utf8.encode last)] := by
  rw [correctFile, hfixable]
  rw [Bool.not_true, if_neg Bool.false_ne_true, (readOnly_correctText a _ _).writes_bind hlast]
  show Outcome.writes (if (last == r.text) = true then _ else _) = _
  rw [if_neg (by rw [beq_iff_eq]; exact hne)]
  rfl

/-- A file is written when it was corrected and its text has changed, with its corrected text. -/
theorem mem_writes_correctFile {write : Bool} {r : FileResult} {w : String × List UInt8}
    (h : w ∈ (a.correctFile d write r).writes) :
    r.findings.any Finding.fixable = true ∧ ∃ last remaining,
      (a.correctText r.path r.text).result = .ok (last, remaining) ∧ last ≠ r.text ∧
        w = (r.path, Utf8.encode last) := by
  rw [correctFile] at h
  split at h
  · exact absurd h List.not_mem_nil
  · next hfixable =>
      rw [Bool.not_eq_true', Bool.not_eq_false] at hfixable
      refine ⟨hfixable, ?_⟩
      obtain ⟨⟨last, remaining⟩, hresult, h⟩ := (readOnly_correctText a _ _).of_mem_writes_bind h
      refine ⟨last, remaining, hresult, ?_⟩
      simp only at h
      split at h
      · exact absurd h List.not_mem_nil
      · next hother =>
          rw [beq_iff_eq] at hother
          refine ⟨hother, ?_⟩
          split at h
          · rw [Outcome.writes_bind_of_readOnly fun _ => (Outcome.readOnly_notify _).bind fun _ =>
              Outcome.readOnly_pure _] at h
            exact List.mem_singleton.mp h
          · exact absurd h List.not_mem_nil

/-- Without findings there is nothing to mend. -/
theorem ne_nil_of_fixable {findings : List Finding} (h : findings.any Finding.fixable = true) :
    findings ≠ [] := by
  rintro rfl
  exact absurd h (by simp)

/-! ## Analyzing -/

theorem result_runRules {r : FileResult} (h : (a.runRules path text).result = .ok r) :
    r.path = path ∧ r.text = text := by
  rw [runRules] at h
  split at h
  · cases h
    exact ⟨rfl, rfl⟩
  · obtain ⟨tree, _, h⟩ := Outcome.result_bind_eq_ok.mp h
    obtain ⟨found, _, h⟩ := Outcome.result_bind_eq_ok.mp h
    cases h
    exact ⟨rfl, rfl⟩

theorem exists_of_result_runRules {r : FileResult} (h : (a.runRules path text).result = .ok r) :
    ∃ findings, r = ⟨path, text, findings⟩ := by
  obtain ⟨p, t, findings⟩ := r
  obtain ⟨rfl, rfl⟩ := result_runRules h
  exact ⟨findings, rfl⟩

theorem result_runRules_of_parse {g : Grammar} {rules : List Rule} {c : Config} {tree : Node}
    {found : List Finding} (htree : (g.parse text).result = .ok tree)
    (hfound : (findingsFrom ⟨some g, rules, c⟩ ⟨path, text, some tree⟩ [] rules).result = .ok found) :
    (runRules ⟨some g, rules, c⟩ path text).result = .ok ⟨path, text, Suppression.keep text found⟩ := by
  unfold runRules
  refine Outcome.result_bind_eq_ok.mpr ⟨tree, Outcome.result_mapError_eq_ok.mpr htree, ?_⟩
  exact Outcome.result_bind_eq_ok.mpr ⟨found, hfound, rfl⟩

/-- What is known of the rules' findings that nothing suppresses is known of the findings in a text, if the tree
of the text can be converted. -/
theorem exists_result_runRules {parse : String → Parsed} {rules : List Rule} {c : Config} {tree : Node}
    {β : Type} {known : List Finding → β} {y : β}
    (hconvert : Ruby.convert (Utf8.encode text) (parse text).tree = .ok tree)
    (hfound : ((findingsFrom ⟨some (.ok parse), rules, c⟩ ⟨path, text, some tree⟩ [] rules).result.toOption.map
      fun found => known (Suppression.keep text found)) = some y) :
    ∃ findings, known findings = y ∧
      (runRules ⟨some (.ok parse), rules, c⟩ path text).result = .ok ⟨path, text, findings⟩ := by
  obtain ⟨found, hfound, hknown⟩ := Option.map_eq_some_iff.mp hfound
  have htree : (Grammar.parse (.ok parse) text).result = .ok tree := by
    rw [Grammar.result_parse]
    exact mapError_eq_ok.mpr hconvert
  exact ⟨_, hknown, result_runRules_of_parse htree (toOption_eq_some.mp hfound)⟩

theorem result_analyzeText {r : FileResult} (h : (a.analyzeText path text).result = .ok r) :
    r.path = path ∧ r.text = text := by
  rw [analyzeText] at h
  split at h
  · cases h
    exact ⟨rfl, rfl⟩
  · exact result_runRules h

/-- Findings come from a text that was read. -/
theorem result_analyzeFile {r : FileResult} (h : (a.analyzeFile d path).result = .ok r) :
    r.path = path ∧ (r.findings ≠ [] → d.readText path = .ok r.text) := by
  rw [analyzeFile] at h
  split at h
  · exact absurd h (by simp [Outcome.fail])
  · split at h
    · next text hread =>
        obtain ⟨hpath, htext⟩ := result_analyzeText h
        rw [htext]
        exact ⟨hpath, fun _ => hread⟩
    · cases h
      exact ⟨rfl, fun hne => absurd rfl hne⟩

theorem readOnly_analyzeFile (a : Analyzer) (d : Disk) (path : String) : (a.analyzeFile d path).ReadOnly := by
  unfold analyzeFile
  split
  · rfl
  · split
    · next text _ =>
        have hrun := readOnly_runRules a path text
        rw [analyzeText]
        split
        · rw [ReadOnly, Outcome.writes, List.filterMap_append]
          rw [ReadOnly, Outcome.writes] at hrun
          rw [hrun]
          rfl
        · exact hrun
    · exact (Outcome.readOnly_notify _).bind fun _ => Outcome.readOnly_pure _

/-- The limit for all findings leaves of each result the first findings. -/
theorem forall₂_of_capFindings {limit : Datum} {rs : List FileResult} : ∀ {kept : Nat} {capped : List FileResult},
    capFindings limit kept rs = .ok capped →
      List.Forall₂ (fun r c => ∃ room, c = { r with findings := r.findings.take room }) rs capped := by
  induction rs with
  | nil =>
      intro kept capped h
      cases h
      exact .nil
  | cons r rs ih =>
      intro kept capped h
      rw [capFindings] at h
      obtain ⟨room, _, h⟩ := bind_eq_ok.mp h
      obtain ⟨rest, hrest, h⟩ := bind_eq_ok.mp h
      cases h
      exact .cons ⟨room, rfl⟩ (ih hrest)

/-- The limit for all findings takes findings away and nothing else. -/
theorem mem_of_capFindings {limit : Datum} {rs capped : List FileResult} {kept : Nat}
    (h : capFindings limit kept rs = .ok capped) : ∀ c ∈ capped, ∃ r ∈ rs, c.path = r.path ∧ c.text = r.text ∧
      (c.findings ≠ [] → r.findings ≠ []) := by
  intro c hc
  obtain ⟨r, hr, room, rfl⟩ := exists_mem_of_forall₂ (forall₂_of_capFindings h) c hc
  refine ⟨r, hr, rfl, rfl, ?_⟩
  intro hne hnil
  simp only [hnil] at hne
  exact hne List.take_nil

theorem readOnly_analyzeFiles (a : Analyzer) (d : Disk) (paths : List String) :
    (a.analyzeFiles d paths).ReadOnly :=
  (Outcome.ReadOnly.mapM (readOnly_analyzeFile a d) paths).bind fun _ => Outcome.readOnly_ofExcept _

theorem result_analyzeFiles {paths : List String} {rs : List FileResult}
    (h : (a.analyzeFiles d paths).result = .ok rs) :
    ∀ r ∈ rs, r.path ∈ paths ∧ (r.findings ≠ [] → d.readText r.path = .ok r.text) := by
  obtain ⟨all, hall, h⟩ := Outcome.result_bind_eq_ok.mp h
  intro c hc
  -- A file that keeps findings had some before the limit, so its text was read.
  obtain ⟨r, hr, hpath, htext, hne⟩ := mem_of_capFindings (mapError_eq_ok.mp h) c hc
  obtain ⟨path, hmem, hresult⟩ := Outcome.exists_of_result_mapM hall r hr
  obtain ⟨hr, hread⟩ := result_analyzeFile hresult
  rw [hpath, htext, hr]
  exact ⟨hmem, fun h => hread (hne h)⟩

/-- What an inspection writes are corrections of texts that were read. -/
theorem mem_writes_inspect {mode : CommandLine.Mode} {files : List String} {w : String × List UInt8}
    (h : w ∈ (a.inspect d mode files).writes) :
    ∃ path ∈ files, ∃ text last remaining, d.readText path = .ok text ∧
      (a.correctText path text).result = .ok (last, remaining) ∧ w = (path, Utf8.encode last) := by
  obtain ⟨results, hresults, h⟩ := (readOnly_analyzeFiles a d files).of_mem_writes_bind h
  have hcorrect : ∃ write, w ∈ (a.correctFiles d write results).writes := by
    cases mode with
    | report => exact absurd h List.not_mem_nil
    | correct =>
        simp only [Outcome.writes_bind_of_readOnly fun _ => Outcome.readOnly_pure _] at h
        exact ⟨true, h⟩
    | preview =>
        simp only [Outcome.writes_bind_of_readOnly fun _ => Outcome.readOnly_pure _] at h
        exact ⟨false, h⟩
  obtain ⟨write, h⟩ := hcorrect
  obtain ⟨r, hr, h⟩ := Outcome.mem_writes_mapM h
  obtain ⟨hfixable, last, remaining, hlast, _, rfl⟩ := mem_writes_correctFile h
  obtain ⟨hpath, hread⟩ := result_analyzeFiles hresults r hr
  exact ⟨r.path, hpath, r.text, last, remaining, hread (ne_nil_of_fixable hfixable), hlast, rfl⟩

/-- The analysis of a file gives what the rules find in its text. -/
theorem result_analyzeFile_of_runRules {r : FileResult} (hpossible : Path.isPossible path = true)
    (hread : d.readText path = .ok text) (hrun : (a.runRules path text).result = .ok r) :
    (a.analyzeFile d path).result = .ok r := by
  rw [analyzeFile, hpossible, Bool.not_true, if_neg Bool.false_ne_true, hread]
  show (a.analyzeText path text).result = .ok r
  rw [analyzeText, hrun]
  exact hrun

/-- The analysis of a single file gives what the rules find in it, if the limit for all findings takes
nothing away. -/
theorem result_analyzeFiles_singleton {r : FileResult} (hpossible : Path.isPossible r.path = true)
    (hread : d.readText r.path = .ok r.text) (hrun : (a.runRules r.path r.text).result = .ok r)
    (hcap : capFindings a.config.inAll 0 [r] = .ok [r]) :
    (a.analyzeFiles d [r.path]).result = .ok [r] := by
  have hfile := result_analyzeFile_of_runRules hpossible hread hrun
  refine Outcome.result_bind_eq_ok.mpr ⟨[r], ?_, mapError_eq_ok.mpr hcap⟩
  rw [List.mapM_cons]
  exact Outcome.result_bind_eq_ok.mpr ⟨r, hfile, rfl⟩

/-- An inspection of a single file writes it when its text changes. -/
theorem writes_inspect {r : FileResult} {last : String} {remaining : List Finding}
    (hpossible : Path.isPossible r.path = true) (hread : d.readText r.path = .ok r.text)
    (hrun : (a.runRules r.path r.text).result = .ok r)
    (hcap : capFindings a.config.inAll 0 [r] = .ok [r]) (hfixable : r.findings.any Finding.fixable = true)
    (hlast : (a.correctText r.path r.text).result = .ok (last, remaining)) (hne : last ≠ r.text) :
    (a.inspect d .correct [r.path]).writes = [(r.path, Utf8.encode last)] := by
  have hfiles := result_analyzeFiles_singleton hpossible hread hrun hcap
  rw [inspect, (readOnly_analyzeFiles a d _).writes_bind hfiles]
  show (a.correctFiles d true [r] >>= _).writes = _
  rw [Outcome.writes_bind_of_readOnly fun _ => Outcome.readOnly_pure _, correctFiles, List.mapM_cons,
    Outcome.writes_bind_of_readOnly fun _ => ?_, writes_correctFile hfixable hlast hne]
  rw [List.mapM_nil, pure_bind]
  exact Outcome.readOnly_pure _

end Analyzer

end IdiomLint
