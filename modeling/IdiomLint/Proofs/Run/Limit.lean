import IdiomLint.Proofs.Analysis.Allotment
import IdiomLint.Proofs.Correction.Inspection

/-!
# The limit for all findings

The limit is applied once, to what the analysis of the files found. A correction puts the findings that
remain in a file in the place of those that were kept of it, and nothing is taken away after that. Main
statement: a report never counts more findings than the limit says, unless corrected files are left with
more findings than were kept of them (`length_findings_inspect_le`).
-/

namespace IdiomLint

namespace Analyzer

variable {a : Analyzer} {d : Disk}

/-- No file that a correction changes is left with more findings than were kept of it. -/
def Shrinks (a : Analyzer) (results : List FileResult) : Prop :=
  ∀ r ∈ results, ∀ last remaining, (a.correctText r.path r.text).result = .ok (last, remaining) →
    last ≠ r.text → remaining.length ≤ r.findings.length

theorem Shrinks.length_le {r s : FileResult} {write : Bool} {difference : Option String}
    {results : List FileResult} (h : write = true → a.Shrinks results) (hr : r ∈ results)
    (hs : a.FileCorrection d write r s difference) : s.findings.length ≤ r.findings.length := by
  cases hs with
  | unfixable _ | unchanged _ _ | previewed _ _ _ _ => exact Nat.le_refl _
  | written hwrite _ hlast hne => exact h hwrite r hr _ _ hlast hne

/-- Corrections of files that leave no more findings in any of them leave no more in all of them. -/
theorem length_findings_correctFiles_le {write : Bool} {results : List FileResult}
    {corrected : List (FileResult × Option String)}
    (h : List.Forall₂ (fun r s => a.FileCorrection d write r s.1 s.2) results corrected)
    (hshrinks : write = true → a.Shrinks results) :
    ((corrected.map (·.1)).flatMap (·.findings)).length ≤ (results.flatMap (·.findings)).length := by
  induction h with
  | nil => exact Nat.le_refl _
  | @cons r s results corrected hs _ ih =>
      have hfirst := Shrinks.length_le hshrinks List.mem_cons_self hs
      have hrest := ih fun hwrite q hq => hshrinks hwrite q (List.mem_cons_of_mem r hq)
      rw [List.map_cons, List.flatMap_cons, List.flatMap_cons, List.length_append, List.length_append]
      omega

/-- A report counts at most as many findings as the limit says: always when the files are not written,
and when they are, as long as no correction leaves more findings in a file than were kept of it. -/
theorem length_findings_inspect_le {mode : CommandLine.Mode} {files : List String} {i : Inspection}
    {m : Int} (hlimit : a.config.inAll.integer? = some m)
    (hshrinks : mode = .correct → ∀ results, (a.analyzeFiles d files).result = .ok results →
      a.Shrinks results)
    (h : (a.inspect d mode files).result = .ok i) : i.findings.length ≤ m.toNat := by
  obtain ⟨results, hresults, h⟩ := result_inspect h
  obtain ⟨all, _, hcap⟩ := Outcome.result_bind_eq_ok.mp hresults
  have hkept : (results.flatMap (·.findings)).length ≤ m.toNat := by
    rw [flatMap_findings_capFindings hlimit (mapError_eq_ok.mp hcap), Int.ofNat_zero, Int.sub_zero]
    exact List.length_take_le _ _
  rcases h with ⟨_, rfl⟩ | ⟨write, corrected, hwrite, hcorrected, rfl⟩
  · exact hkept
  · have hle := length_findings_correctFiles_le hcorrected
      fun h => hshrinks (hwrite.mp h) results hresults
    exact Nat.le_trans hle hkept

end Analyzer

/-! ## A rule that finds more in a corrected text -/

/-- A finding at the beginning of a file, with the edits that mend it. -/
def letterFinding (edits : List Edit) : Finding where
  rule := "letter"
  message := "Prefer another letter."
  file := "/a.rb"
  start := 0
  stop := 0
  severity := .text "warn"
  autofix := some edits

/-- A rule that knows how to mend the text `a`. In every other text it finds something that it cannot
mend, several times over. -/
def letterRule (times : Nat) : Rule where
  id := "letter"
  languages := [rubyLanguage]
  visit context := .ok (if context.text = "a" then [letterFinding [⟨0, 1, "b"⟩]]
    else List.replicate times (letterFinding []))

/-- An analyzer with that rule that keeps one finding in all. -/
def letterAnalyzer (times : Nat) : Analyzer :=
  ⟨some letterGrammar, [letterRule times], { inAll := .int 1 }⟩

def letterDisk : Disk := ⟨.directory [("a.rb", .file (Utf8.encode "a"))], []⟩

/-- What the rule finds in the text `a`. -/
def letterResult : FileResult := ⟨"/a.rb", "a", [letterFinding [⟨0, 1, "b"⟩]]⟩

theorem runRules_letterAnalyzer {times : Nat} {path text : String} {findings : List Finding}
    (hfound : ((letterAnalyzer times).findingsFrom ⟨path, text, some (Ruby.nameNode (Utf8.encode text)
      (Ruby.leaf "identifier" 0 1 none))⟩ [] [letterRule times]).result = .ok findings)
    (hkeep : Suppression.keep text findings = findings) :
    ((letterAnalyzer times).runRules path text).result = .ok ⟨path, text, findings⟩ := by
  have hrun := Analyzer.result_runRules_of_parse (result_parse_letterGrammar text) hfound
  rw [hkeep] at hrun
  exact hrun

/-- The correction mends the only finding and leaves what the rule finds in the corrected text. -/
theorem correctText_letterAnalyzer {times : Nat} {path : String}
    (hfound : ((letterAnalyzer times).runRules path "b").result =
      .ok ⟨path, "b", List.replicate times (letterFinding [])⟩)
    (hnone : (List.replicate times (letterFinding [])).flatMap Finding.edits = []) :
    ((letterAnalyzer times).correctText path "a").result =
      .ok ("b", List.replicate times (letterFinding [])) := by
  have hoffer : (Corrector.offerFindings { text := "a" } letterResult.findings).1 =
      { text := "a", accepted := [⟨0, 1, "b"⟩] } := rfl
  have hcorrects : (letterAnalyzer times).Corrects path correctionPasses "a" letterResult.findings
      [[⟨0, 1, "b"⟩]] "b" (List.replicate times (letterFinding [])) := by
    refine .pass hoffer (by simp) (by decide +kernel) hfound (.stable ?_)
    rw [Corrector.offerFindings, hnone]
    rfl
  exact Outcome.result_bind_eq_ok.mpr
    ⟨⟨path, "a", letterResult.findings⟩, runRules_letterAnalyzer rfl rfl, hcorrects.result_correctFrom⟩

theorem analyzeFiles_letterAnalyzer (times : Nat) :
    ((letterAnalyzer times).analyzeFiles letterDisk ["/a.rb"]).result = .ok [letterResult] :=
  @Analyzer.result_analyzeFiles_singleton _ _ letterResult (by decide +kernel) (by decide +kernel)
    (runRules_letterAnalyzer rfl rfl) rfl

namespace Analyzer

/-- A file that is left with one finding in the place of the one that was kept of it. -/
theorem length_findings_inspect_le_letter : ∃ i,
    (letterAnalyzer 1).config.inAll.integer? = some 1 ∧
    (∀ results, ((letterAnalyzer 1).analyzeFiles letterDisk ["/a.rb"]).result = .ok results →
      (letterAnalyzer 1).Shrinks results) ∧
    ((letterAnalyzer 1).inspect letterDisk .correct ["/a.rb"]).result = .ok i ∧
    i.findings.length ≤ (1 : Int).toNat := by
  have hlast := @correctText_letterAnalyzer 1 "/a.rb" (runRules_letterAnalyzer rfl rfl) rfl
  have hshrinks : ∀ results, ((letterAnalyzer 1).analyzeFiles letterDisk ["/a.rb"]).result = .ok results →
      (letterAnalyzer 1).Shrinks results := by
    intro results hresults r hr last remaining hcorrect _
    obtain rfl := Except.ok.inj ((analyzeFiles_letterAnalyzer 1).symm.trans hresults)
    rw [List.mem_singleton.mp hr] at hcorrect ⊢
    cases hlast.symm.trans hcorrect
    exact Nat.le_refl 1
  obtain ⟨corrections, hinspect⟩ := @result_inspect_singleton _ _ letterResult _ _
    (analyzeFiles_letterAnalyzer 1) rfl hlast (by decide)
  exact ⟨_, rfl, hshrinks, hinspect, length_findings_inspect_le rfl (fun _ => hshrinks) hinspect⟩

/-- A correcting run can count more findings than the limit says: after the correction of the file two
are left where one was kept. -/
theorem inspect_exceeds_limit : ∃ i, (letterAnalyzer 2).config.inAll.integer? = some 1 ∧
    ((letterAnalyzer 2).inspect letterDisk .correct ["/a.rb"]).result = .ok i ∧
    ¬ i.findings.length ≤ (1 : Int).toNat := by
  have hlast := @correctText_letterAnalyzer 2 "/a.rb" (runRules_letterAnalyzer rfl rfl) rfl
  obtain ⟨corrections, hinspect⟩ := @result_inspect_singleton _ _ letterResult _ _
    (analyzeFiles_letterAnalyzer 2) rfl hlast (by decide)
  exact ⟨_, rfl, hinspect, Nat.not_le_of_lt (Nat.lt_succ_self 1)⟩

end Analyzer

end IdiomLint
