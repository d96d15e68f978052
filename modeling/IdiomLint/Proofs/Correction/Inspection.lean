import IdiomLint.Proofs.Correction.Writes

/-!
# What an inspection gives

`FileCorrection` lists what can become of the result of a file when the file is corrected, and
`result_inspect` says of what the inspection of several files is made. What holds of inspections is
proved from these two, without a look at how they are carried out.
-/

namespace IdiomLint.Analyzer

variable {a : Analyzer} {d : Disk}

/-- What the correction of a file makes of its result, and the difference that it shows. -/
inductive FileCorrection (a : Analyzer) (d : Disk) (write : Bool) (r : FileResult) :
    FileResult → Option String → Prop
  /-- No finding that was kept can be mended. -/
  | unfixable : r.findings.any Finding.fixable = false → FileCorrection a d write r r none
  /-- Mending the findings leaves the text as it is. -/
  | unchanged {remaining : List Finding} : r.findings.any Finding.fixable = true →
      (a.correctText r.path r.text).result = .ok (r.text, remaining) →
      FileCorrection a d write r r none
  /-- The corrected text is shown. -/
  | previewed {last : String} {remaining : List Finding} {difference : String} : write = false →
      r.findings.any Finding.fixable = true →
      (a.correctText r.path r.text).result = .ok (last, remaining) → last ≠ r.text →
      FileCorrection a d write r r (some difference)
  /-- The corrected text is written, and what remains in it are the findings of the file. -/
  | written {last : String} {remaining : List Finding} {difference : String} : write = true →
      r.findings.any Finding.fixable = true →
      (a.correctText r.path r.text).result = .ok (last, remaining) → last ≠ r.text →
      FileCorrection a d write r { r with text := last, findings := remaining } (some difference)

theorem fileCorrection_of_correctFile {write : Bool} {r s : FileResult} {difference : Option String}
    (h : (a.correctFile d write r).result = .ok (s, difference)) :
    a.FileCorrection d write r s difference := by
  rw [correctFile] at h
  split at h
  · next hnone =>
      cases h
      exact .unfixable (by simpa using hnone)
  · next hfixable =>
      rw [Bool.not_eq_true', Bool.not_eq_false] at hfixable
      obtain ⟨⟨last, remaining⟩, hlast, h⟩ := Outcome.result_bind_eq_ok.mp h
      simp only at h
      split at h
      · next hsame =>
          cases h
          rw [beq_iff_eq.mp hsame] at hlast
          exact .unchanged hfixable hlast
      · next hother =>
          rw [beq_iff_eq] at hother
          cases write with
          | false =>
              cases h
              exact .previewed rfl hfixable hlast hother
          | true =>
              cases h
              exact .written rfl hfixable hlast hother

/-- A file with something to mend has the corrected text and what remains in it as its result when its
text changes. -/
theorem result_correctFile_of_written {r : FileResult} {last : String} {remaining : List Finding}
    (hfixable : r.findings.any Finding.fixable = true)
    (hlast : (a.correctText r.path r.text).result = .ok (last, remaining)) (hne : last ≠ r.text) :
    (a.correctFile d true r).result = .ok ({ r with text := last, findings := remaining },
      some (Diff.unified r.text last (Path.relative (d.absolute r.path) d.here))) := by
  rw [correctFile, hfixable, Bool.not_true, if_neg Bool.false_ne_true]
  refine Outcome.result_bind_eq_ok.mpr ⟨(last, remaining), hlast, ?_⟩
  show Outcome.result (if (last == r.text) = true then _ else _) = _
  rw [if_neg (by rw [beq_iff_eq]; exact hne)]
  rfl

theorem correctFile_of_nil {write : Bool} {r : FileResult} (h : r.findings = []) :
    a.correctFile d write r = pure (r, none) := by
  rw [correctFile, h]
  rfl

/-- Nothing is done about files without findings. -/
theorem correctFiles_of_nil {write : Bool} {rs : List FileResult} (h : ∀ r ∈ rs, r.findings = []) :
    a.correctFiles d write rs = pure (rs.map (·, none)) := by
  rw [correctFiles]
  induction rs with
  | nil => rfl
  | cons r rs ih =>
      obtain ⟨hr, hrs⟩ := List.forall_mem_cons.mp h
      rw [List.mapM_cons, correctFile_of_nil hr, pure_bind, ih hrs, pure_bind]
      rfl

theorem fileCorrections_of_correctFiles {write : Bool} {results : List FileResult}
    {corrected : List (FileResult × Option String)}
    (h : (a.correctFiles d write results).result = .ok corrected) :
    List.Forall₂ (fun r s => a.FileCorrection d write r s.1 s.2) results corrected :=
  (Outcome.forall₂_of_result_mapM h).imp fun _ _ hs => fileCorrection_of_correctFile hs

/-- An inspection reports what the analysis found, or what corrections made of that. -/
theorem result_inspect {mode : CommandLine.Mode} {files : List String} {i : Inspection}
    (h : (a.inspect d mode files).result = .ok i) :
    ∃ results, (a.analyzeFiles d files).result = .ok results ∧
      ((mode = .report ∧ i = ⟨results, []⟩) ∨
        ∃ write corrected, (write = true ↔ mode = .correct) ∧
          List.Forall₂ (fun r s => a.FileCorrection d write r s.1 s.2) results corrected ∧
          i = .ofCorrected corrected) := by
  obtain ⟨results, hresults, h⟩ := Outcome.result_bind_eq_ok.mp h
  refine ⟨results, hresults, ?_⟩
  cases mode with
  | report =>
      cases h
      exact Or.inl ⟨rfl, rfl⟩
  | correct =>
      obtain ⟨corrected, hcorrected, h⟩ := Outcome.result_bind_eq_ok.mp h
      cases h
      exact Or.inr ⟨true, corrected, by simp, fileCorrections_of_correctFiles hcorrected, rfl⟩
  | preview =>
      obtain ⟨corrected, hcorrected, h⟩ := Outcome.result_bind_eq_ok.mp h
      cases h
      exact Or.inr ⟨false, corrected, by simp, fileCorrections_of_correctFiles hcorrected, rfl⟩

/-- The inspection of a single file that is corrected. -/
theorem result_inspect_singleton {r : FileResult} {last : String} {remaining : List Finding}
    (hfiles : (a.analyzeFiles d [r.path]).result = .ok [r]) (hfixable : r.findings.any Finding.fixable = true)
    (hlast : (a.correctText r.path r.text).result = .ok (last, remaining)) (hne : last ≠ r.text) :
    ∃ corrections, (a.inspect d .correct [r.path]).result =
      .ok ⟨[{ r with text := last, findings := remaining }], corrections⟩ := by
  have hcorrected : ∃ difference, (a.correctFiles d true [r]).result =
      .ok [({ r with text := last, findings := remaining }, some difference)] := by
    rw [correctFiles, List.mapM_cons]
    exact ⟨_, Outcome.result_bind_eq_ok.mpr ⟨_, result_correctFile_of_written hfixable hlast hne, rfl⟩⟩
  obtain ⟨difference, hcorrected⟩ := hcorrected
  exact ⟨_, Outcome.result_bind_eq_ok.mpr ⟨_, hfiles, Outcome.result_bind_eq_ok.mpr ⟨_, hcorrected, rfl⟩⟩⟩

/-! ## Without the limit for all findings -/

/-- Of the settings only the severities and the limit for a file have a part in what the rules find in a tree. -/
theorem findingsFrom_congr {a b : Analyzer} (hseverity : a.withSeverity = b.withSeverity)
    (hlimit : a.config.perFile = b.config.perFile) (context : RuleContext) (rules : List Rule) :
    ∀ found, a.findingsFrom context found rules = b.findingsFrom context found rules := by
  induction rules with
  | nil => exact fun _ => rfl
  | cons rule rules ih =>
      intro found
      unfold findingsFrom
      simp only [ih, hseverity, hlimit]

/-- The limit for all findings has no part in what the rules find in a text. -/
theorem runRules_withLimit (a : Analyzer) (limit : Datum) :
    (⟨a.grammar, a.rules, { a.config with inAll := limit }⟩ : Analyzer).runRules = a.runRules := by
  funext path text
  unfold runRules
  simp only [@findingsFrom_congr ⟨a.grammar, a.rules, { a.config with inAll := limit }⟩ a rfl rfl]

theorem correctFrom_congr {a b : Analyzer} (h : a.runRules = b.runRules) (path : String) (passes : Nat) :
    ∀ text findings, a.correctFrom path passes text findings = b.correctFrom path passes text findings := by
  induction passes with
  | zero => exact fun _ _ => rfl
  | succ passes ih =>
      intro text findings
      unfold correctFrom
      simp only [h, ih]

/-- A text is corrected by what the rules find in it, and by nothing else. -/
theorem correctText_congr {a b : Analyzer} (h : a.runRules = b.runRules) : a.correctText = b.correctText := by
  funext path text
  unfold correctText
  simp only [h, correctFrom_congr h]

end IdiomLint.Analyzer
