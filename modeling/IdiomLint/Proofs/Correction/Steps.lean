import IdiomLint.Proofs.Correction.Passes
import IdiomLint.Proofs.Correction.Writes

/-!
# The texts that passes of correction lead through

`Step` is one pass that edits something, `Steps` several passes one after the other. A correction that succeeds
makes as many as it may, or stops at a text in which nothing is left to edit (`steps_of_correctText`), and
passes that lead to such a text are made (`exists_result_correctText`).
-/

namespace IdiomLint.Analyzer

variable {a : Analyzer} {path text next last : String}

/-- A pass of correction makes the second text of the first one. -/
def Step (a : Analyzer) (path text next : String) : Prop :=
  ∃ result, (a.runRules path text).result = .ok result ∧
    (Corrector.offerFindings { text } result.findings).1.accepted ≠ [] ∧
    (Corrector.offerFindings { text } result.findings).1.corrected = .ok next

/-- So many passes of correction make the second text of the first one. -/
inductive Steps (a : Analyzer) (path : String) : Nat → String → String → Prop
  | none {text : String} : Steps a path 0 text text
  | more {k : Nat} {text next last : String} :
      a.Step path text next → Steps a path k next last → Steps a path (k + 1) text last

/-! ## What a pass accepts -/

/-- A pass over a text accepts certain edits. -/
def Accepts (a : Analyzer) (path text : String) (accepted : List Edit) : Prop :=
  ∃ findings, (Corrector.offerFindings { text } findings).1.accepted = accepted ∧
    (a.runRules path text).result = .ok ⟨path, text, findings⟩

theorem Accepts.step_iff {accepted : List Edit} (h : a.Accepts path text accepted) :
    a.Step path text next ↔ accepted ≠ [] ∧ applyEdits text accepted = .ok next := by
  obtain ⟨findings, haccepted, hrun⟩ := h
  rw [← corrected_offerFindings haccepted, ← haccepted]
  constructor
  · rintro ⟨result, hresult, hstep⟩
    cases hrun.symm.trans hresult
    exact hstep
  · exact fun hstep => ⟨_, hrun, hstep⟩

theorem Accepts.step_iff_eq {accepted : List Edit} {t : String} (h : a.Accepts path text accepted)
    (hsome : accepted ≠ []) (hnext : applyEdits text accepted = .ok next) : a.Step path text t ↔ t = next := by
  rw [h.step_iff, hnext, Except.ok.injEq]
  exact ⟨fun hstep => hstep.2.symm, fun heq => ⟨hsome, heq.symm⟩⟩

/-! ## Passes that are made -/

/-- A corrected text is made by a limited number of passes. If they are not all made, nothing is left to edit. -/
theorem Corrects.steps {passes : Nat} {findings remaining : List Finding} {edits : List (List Edit)}
    (h : Corrects a path passes text findings edits last remaining) :
    (a.runRules path text).result = .ok ⟨path, text, findings⟩ → ∃ k ≤ passes, a.Steps path k text last ∧
      (k < passes → (Corrector.offerFindings { text := last } remaining).1.accepted = []) := by
  induction h with
  | exhausted => exact fun _ => ⟨0, Nat.le_refl 0, .none, fun h => absurd h (Nat.lt_irrefl 0)⟩
  | stable hnone => exact fun _ => ⟨0, Nat.zero_le _, .none, fun _ => hnone⟩
  | @pass passes text next _ _ _ c result _ hc hsome hnext hresult _ ih =>
      intro hrun
      subst hc
      obtain ⟨_, rfl⟩ := exists_of_result_runRules hresult
      obtain ⟨k, hk, hsteps, hnone⟩ := ih hresult
      exact ⟨k + 1, Nat.succ_le_succ hk, .more ⟨_, hrun, hsome, hnext⟩ hsteps,
        fun h => hnone (Nat.lt_of_succ_lt_succ h)⟩

theorem steps_of_correctText {remaining : List Finding}
    (h : (a.correctText path text).result = .ok (last, remaining)) :
    ∃ k ≤ correctionPasses, a.Steps path k text last ∧ (k < correctionPasses →
      (Corrector.offerFindings { text := last } remaining).1.accepted = []) := by
  obtain ⟨result, hresult, h⟩ := Outcome.result_bind_eq_ok.mp h
  obtain ⟨edits, hedits⟩ := corrects_of_correctFrom _ h
  obtain ⟨_, rfl⟩ := exists_of_result_runRules hresult
  exact hedits.steps hresult

/-- Passes that lead to a text in which nothing is left to edit are made. -/
theorem Steps.corrects {k : Nat} (h : a.Steps path k text last) (hlast : a.Accepts path last []) :
    ∀ passes > k, ∃ findings edits remaining, (a.runRules path text).result = .ok ⟨path, text, findings⟩ ∧
      Corrects a path passes text findings edits last remaining := by
  induction h with
  | none =>
      intro passes hpasses
      obtain ⟨findings, haccepted, hrun⟩ := hlast
      obtain ⟨passes, rfl⟩ := Nat.exists_eq_add_of_lt hpasses
      exact ⟨findings, [], findings, hrun, .stable haccepted⟩
  | @more k text next last hstep _ ih =>
      intro passes hpasses
      obtain ⟨result, hresult, hsome, hnext⟩ := hstep
      obtain ⟨findings, rfl⟩ := exists_of_result_runRules hresult
      obtain ⟨passes, rfl⟩ := Nat.exists_eq_succ_of_ne_zero (Nat.ne_zero_of_lt hpasses)
      obtain ⟨found, edits, remaining, hrun, hcorrects⟩ := ih hlast passes (Nat.lt_of_succ_lt_succ hpasses)
      exact ⟨findings, _, remaining, hresult, .pass rfl hsome hnext hrun hcorrects⟩

theorem exists_result_correctText {k : Nat} (h : a.Steps path k text last) (hlast : a.Accepts path last [])
    (hk : k < correctionPasses) : ∃ remaining, (a.correctText path text).result = .ok (last, remaining) := by
  obtain ⟨findings, edits, remaining, hrun, hcorrects⟩ := h.corrects hlast correctionPasses hk
  exact ⟨remaining, Outcome.result_bind_eq_ok.mpr ⟨_, hrun, hcorrects.result_correctFrom⟩⟩

end IdiomLint.Analyzer
