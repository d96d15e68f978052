import IdiomLint.Analysis
import IdiomLint.Proofs.Outcome

/-!
# The loop over the rules

`Collects` is the loop over the rules as a relation, with one way to go on for each thing that a rule can do:
it fails, it makes the findings reach the limit, or it leaves room for more. The loop has a result exactly
when the relation leads to it (`result_findingsFrom_iff`), and what it keeps is all that the rules find or the
first part of it (`Collects.of_listing`).
-/

namespace IdiomLint

variable {context : RuleContext}

/-! ## What rules find -/

/-- What a rule finds in a context. A rule that fails finds nothing. -/
def Rule.found (rule : Rule) (context : RuleContext) : List Finding := (rule.visit context).toOption.getD []

theorem Rule.found_of_ok {rule : Rule} {new : List Finding} (h : rule.visit context = .ok new) :
    rule.found context = new := by
  rw [found, h]
  rfl

theorem Rule.found_of_error {rule : Rule} {e : RuleFailure} (h : rule.visit context = .error e) :
    rule.found context = [] := by
  rw [found, h]
  rfl

/-- What some rules find in a context, in the order of the rules. -/
def RuleContext.listing (context : RuleContext) (rules : List Rule) : List Finding :=
  rules.flatMap (·.found context)

@[simp] theorem RuleContext.listing_nil : context.listing [] = [] := rfl

@[simp] theorem RuleContext.listing_cons (rule : Rule) (rules : List Rule) :
    context.listing (rule :: rules) = rule.found context ++ context.listing rules := List.flatMap_cons

@[simp] theorem RuleContext.listing_append (rules others : List Rule) :
    context.listing (rules ++ others) = context.listing rules ++ context.listing others := List.flatMap_append

theorem RuleContext.mem_listing {rules : List Rule} {f : Finding} : f ∈ context.listing rules ↔
    ∃ rule ∈ rules, ∃ new, rule.visit context = .ok new ∧ f ∈ new := by
  rw [listing, List.mem_flatMap]
  refine exists_congr fun rule => and_congr_right fun _ => ?_
  rw [Rule.found]
  cases rule.visit context with
  | error e => simp [Except.toOption]
  | ok new => simp [Except.toOption]

namespace Analyzer

variable {a : Analyzer} {found kept : List Finding} {rules : List Rule}

/-! ## The loop as a relation -/

/-- What the loop over some rules makes of the findings so far. -/
inductive Collects (a : Analyzer) (context : RuleContext) : List Finding → List Rule → List Finding → Prop
  | done {found : List Finding} : Collects a context found [] found
  | failed {found kept : List Finding} {rule : Rule} {rest : List Rule} {e : RuleFailure} :
      rule.visit context = .error e → Collects a context found rest kept →
      Collects a context found (rule :: rest) kept
  | full {found kept new graded : List Finding} {rule : Rule} {rest : List Rule} :
      rule.visit context = .ok new → new.mapM a.withSeverity = .ok graded →
      a.config.perFile.isReachedBy (found ++ graded).length = .ok true →
      a.config.perFile.cut (found ++ graded) = .ok kept → Collects a context found (rule :: rest) kept
  | more {found kept new graded : List Finding} {rule : Rule} {rest : List Rule} :
      rule.visit context = .ok new → new.mapM a.withSeverity = .ok graded →
      a.config.perFile.isReachedBy (found ++ graded).length = .ok false →
      Collects a context (found ++ graded) rest kept → Collects a context found (rule :: rest) kept

theorem Collects.result_findingsFrom (h : a.Collects context found rules kept) :
    (a.findingsFrom context found rules).result = .ok kept := by
  induction h with
  | done => rfl
  | failed hvisit _ ih =>
      unfold findingsFrom
      rw [hvisit]
      exact Outcome.result_bind_eq_ok.mpr ⟨(), rfl, ih⟩
  | full hvisit hgraded hreached hcut =>
      unfold findingsFrom
      rw [hvisit]
      refine Outcome.result_bind_eq_ok.mpr ⟨_, mapError_eq_ok.mpr hgraded, ?_⟩
      exact Outcome.result_bind_eq_ok.mpr ⟨true, mapError_eq_ok.mpr hreached, mapError_eq_ok.mpr hcut⟩
  | more hvisit hgraded hreached _ ih =>
      unfold findingsFrom
      rw [hvisit]
      refine Outcome.result_bind_eq_ok.mpr ⟨_, mapError_eq_ok.mpr hgraded, ?_⟩
      exact Outcome.result_bind_eq_ok.mpr ⟨false, mapError_eq_ok.mpr hreached, ih⟩

theorem collects_of_findingsFrom : ∀ {found : List Finding},
    (a.findingsFrom context found rules).result = .ok kept → a.Collects context found rules kept := by
  induction rules with
  | nil =>
      intro found h
      cases h
      exact .done
  | cons rule rest ih =>
      intro found h
      unfold findingsFrom at h
      split at h
      · next hvisit =>
          obtain ⟨_, _, h⟩ := Outcome.result_bind_eq_ok.mp h
          exact .failed hvisit (ih h)
      · next hvisit =>
          obtain ⟨graded, hgraded, h⟩ := Outcome.result_bind_eq_ok.mp h
          obtain ⟨reached, hreached, h⟩ := Outcome.result_bind_eq_ok.mp h
          have hgraded := mapError_eq_ok.mp hgraded
          have hreached := mapError_eq_ok.mp hreached
          cases reached with
          | true => exact .full hvisit hgraded hreached (mapError_eq_ok.mp h)
          | false => exact .more hvisit hgraded hreached (ih h)

/-- The loop over the rules has a result exactly when the relation leads to it. -/
theorem result_findingsFrom_iff :
    (a.findingsFrom context found rules).result = .ok kept ↔ a.Collects context found rules kept :=
  ⟨collects_of_findingsFrom, Collects.result_findingsFrom⟩

/-- The findings that the loop gathers are those of the listing up to some place, graded. It keeps all of them, if
they are all there are and do not reach the limit, or as many as the limit says. -/
theorem Collects.of_listing (h : a.Collects context found rules kept) : ∃ front back graded,
    context.listing rules = front ++ back ∧ List.Forall₂ (fun f f' => a.withSeverity f = .ok f') front graded ∧
      (a.config.perFile.cut (found ++ graded) = .ok kept ∨ kept = found ++ graded ∧ back = [] ∧
        (graded = [] ∨ a.config.perFile.isReachedBy (found ++ graded).length = .ok false)) := by
  induction h with
  | done => exact ⟨[], [], [], rfl, .nil, Or.inr ⟨(List.append_nil _).symm, rfl, Or.inl rfl⟩⟩
  | failed hvisit _ ih =>
      rw [RuleContext.listing_cons, Rule.found_of_error hvisit, List.nil_append]
      exact ih
  | full hvisit hgraded _ hcut =>
      rw [RuleContext.listing_cons, Rule.found_of_ok hvisit]
      exact ⟨_, _, _, rfl, forall₂_of_mapM hgraded, Or.inl hcut⟩
  | more hvisit hgraded hroom _ ih =>
      obtain ⟨front, back, graded', hlisting, hgraded', h⟩ := ih
      rw [RuleContext.listing_cons, Rule.found_of_ok hvisit, hlisting, ← List.append_assoc]
      refine ⟨_, back, _, rfl, List.rel_append (forall₂_of_mapM hgraded) hgraded', ?_⟩
      rw [← List.append_assoc]
      rcases h with hcut | ⟨hkept, hback, hlater⟩
      · exact Or.inl hcut
      · refine Or.inr ⟨hkept, hback, Or.inr ?_⟩
        -- If nothing was found later, the limit was last compared here.
        rcases hlater with rfl | hlater
        · rwa [List.append_nil]
        · exact hlater

end Analyzer

end IdiomLint
