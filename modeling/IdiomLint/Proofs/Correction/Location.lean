import IdiomLint.Proofs.Analysis.Loop
import IdiomLint.Proofs.Correction.Passes
import IdiomLint.Proofs.Correction.Writes

/-!
# Results under another path

What the rule finds in a text does not depend on the path of the file (`result_runRules_under`), and what
remains after a correction is what the rules find in the corrected text (`Corrects.result_last`).
-/

namespace IdiomLint

/-- The finding in a file of another path. -/
def Finding.under (path : String) (f : Finding) : Finding := { f with file := path }

theorem CreateListRule.finding_under (path path' : String) (i : Idiom) :
    finding path' i = (finding path i).map (Finding.under path') := by
  rw [finding, finding]
  cases i.edit with
  | error e => rfl
  | ok e => rfl

/-- The rule finds the same under every path. -/
theorem CreateListRule.visit_under (path path' text : String) (tree : Option Node) :
    visit ⟨path', text, tree⟩ = (visit ⟨path, text, tree⟩).map (List.map (Finding.under path')) := by
  cases tree with
  | none => rfl
  | some tree => exact mapM_eq_map (finding_under path path') (idioms tree)

theorem Datum.cut_map {α β : Type} (limit : Datum) (g : α → β) (xs : List α) :
    limit.cut (xs.map g) = (limit.cut xs).map (List.map g) := by
  rw [cut, cut]
  cases limit.integer? with
  | none => rfl
  | some n =>
      show Except.ok (firstItems n (xs.map g)) = .ok ((firstItems n xs).map g)
      rw [firstItems, firstItems, List.length_map]
      split <;> rw [List.map_take]

theorem Suppression.keep_under (path text : String) (findings : List Finding) :
    keep text (findings.map (Finding.under path)) = (keep text findings).map (Finding.under path) := by
  rw [keep, keep, List.filter_map]
  rfl

namespace Analyzer

variable {a : Analyzer} {path path' text : String}

theorem withSeverity_under (a : Analyzer) (path : String) (f : Finding) :
    a.withSeverity (f.under path) = (a.withSeverity f).map (Finding.under path) := by
  rw [withSeverity, withSeverity]
  show (a.config.severity? f.rule >>= _) = _
  cases a.config.severity? f.rule with
  | error e => rfl
  | ok severity =>
      cases severity with
      | none => rfl
      | some severity =>
          show (Except.ok (if severity.same f.severity then _ else _)) =
            (Except.ok (if severity.same f.severity then _ else _)).map _
          split <;> rfl

/-- What is found under a path is found under every other one. -/
theorem result_findingsFrom_under {tree : Option Node} {rules : List Rule}
    (hrules : ∀ rule ∈ rules, rule = createListRule) : ∀ {found kept : List Finding},
      (a.findingsFrom ⟨path, text, tree⟩ found rules).result = .ok kept →
        (a.findingsFrom ⟨path', text, tree⟩ (found.map (Finding.under path')) rules).result =
          .ok (kept.map (Finding.under path')) := by
  intro found kept h
  have hvisit {rule : Rule} {r : Except RuleFailure (List Finding)} (hrule : rule = createListRule)
      (hr : rule.visit ⟨path, text, tree⟩ = r) :
      rule.visit ⟨path', text, tree⟩ = r.map (List.map (Finding.under path')) := by
    rw [hrule] at hr ⊢
    exact (CreateListRule.visit_under path path' text tree).trans (congrArg (Except.map _) hr)
  have hgraded {new graded : List Finding} (hnew : new.mapM a.withSeverity = .ok graded) :
      (new.map (Finding.under path')).mapM a.withSeverity = .ok (graded.map (Finding.under path')) := by
    rw [List.mapM_map]
    exact (mapM_eq_map (withSeverity_under a path') new).trans (congrArg (Except.map _) hnew)
  apply Collects.result_findingsFrom
  replace h := collects_of_findingsFrom h
  induction h with
  | done => exact .done
  | failed herror _ ih =>
      obtain ⟨hrule, hothers⟩ := List.forall_mem_cons.mp hrules
      exact .failed (hvisit hrule herror) (ih hothers)
  | full hnew hsevere hreached hcut =>
      obtain ⟨hrule, _⟩ := List.forall_mem_cons.mp hrules
      refine .full (hvisit hrule hnew) (hgraded hsevere) ?_ ?_
      · rwa [← List.map_append, List.length_map]
      · rw [← List.map_append, Datum.cut_map, hcut]
        rfl
  | more hnew hsevere hreached _ ih =>
      obtain ⟨hrule, hothers⟩ := List.forall_mem_cons.mp hrules
      refine .more (hvisit hrule hnew) (hgraded hsevere) ?_ ?_
      · rwa [← List.map_append, List.length_map]
      · rw [← List.map_append]
        exact ih hothers

/-- The rule finds the same in a text under every path. -/
theorem result_runRules_under {r : FileResult} (hrules : ∀ rule ∈ a.rules, rule = createListRule)
    (h : (a.runRules path text).result = .ok r) :
    (a.runRules path' text).result = .ok ⟨path', text, r.findings.map (Finding.under path')⟩ := by
  obtain ⟨grammar, rules, config⟩ := a
  cases grammar with
  | none =>
      cases h
      rfl
  | some g =>
      obtain ⟨tree, htree, h⟩ := Outcome.result_bind_eq_ok.mp h
      obtain ⟨found, hfound, h⟩ := Outcome.result_bind_eq_ok.mp h
      cases h
      have hfound := @result_findingsFrom_under _ path path' text _ _ hrules _ _ hfound
      rw [result_runRules_of_parse (Outcome.result_mapError_eq_ok.mp htree) hfound,
        Suppression.keep_under]

/-- The findings that remain after the last pass are those that the rules find in the last text. -/
theorem Corrects.result_last {passes : Nat} {text last : String} {findings remaining : List Finding}
    {edits : List (List Edit)} (h : Corrects a path passes text findings edits last remaining) :
    (a.runRules path text).result = .ok ⟨path, text, findings⟩ →
      (a.runRules path last).result = .ok ⟨path, last, remaining⟩ := by
  induction h with
  | exhausted => exact id
  | stable _ => exact id
  | @pass _ _ next _ _ _ _ result _ _ _ _ hresult _ ih =>
      intro _
      obtain ⟨hpath, htext⟩ := result_runRules hresult
      obtain ⟨p, t, found⟩ := result
      cases hpath
      cases htext
      exact ih hresult

/-- What remains after a correction is found in the corrected text. -/
theorem result_of_correctText {last : String} {remaining : List Finding}
    (h : (a.correctText path text).result = .ok (last, remaining)) :
    (a.runRules path last).result = .ok ⟨path, last, remaining⟩ := by
  obtain ⟨⟨p, t, found⟩, hresult, h⟩ := Outcome.result_bind_eq_ok.mp h
  obtain ⟨edits, hedits⟩ := corrects_of_correctFrom _ h
  obtain ⟨hpath, htext⟩ := result_runRules hresult
  cases hpath
  cases htext
  exact hedits.result_last hresult

end Analyzer

end IdiomLint
