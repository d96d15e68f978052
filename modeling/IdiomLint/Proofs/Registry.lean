import Mathlib.Data.List.Find
import Mathlib.Data.List.Induction
import Mathlib.Data.List.Nodup
import Mathlib.Data.List.TakeWhile
import IdiomLint.Proofs.Outcome
import IdiomLint.Proofs.Text.Glob
import IdiomLint.Registry

/-!
# What a registry knows

Whatever is registered and forgotten, the rules of a registry are the first ones under each identifier since it was last
cleared, in order, and its index has the same rules under their identifiers (`Knows`). One thing done keeps that
(`Knows.act`), so it holds after every run (`knows_run`).

Main statement: the identifiers of the rules are distinct and are those of the index, the rule with an identifier is the
one that was registered first, registering again changes nothing, and the enabled rules are those for a language that
some glob matches (`run_keeps_first`).
-/

namespace IdiomLint

/-- The rule that a module offers, if it is one. -/
def Offer.rule? : Offer → Option Rule
  | .rule r => some r
  | .other _ => none

namespace Registry

/-! ## Runs -/

/-- Something done to a registry. -/
inductive Action where
  /-- A rule is registered. -/
  | addRule (rule : Rule)
  /-- What a module offers is registered. -/
  | addOffers (module : String) (offers : List Offer)
  | clear

namespace Action

/-- The rules that are registered, in order, whether or not their identifiers are taken. -/
def rules : Action → List Rule
  | addRule rule => [rule]
  | addOffers _ offers => offers.filterMap Offer.rule?
  | clear => []

def isClear : Action → Bool
  | clear => true
  | _ => false

end Action

variable {ε : Type}

/-- Do one thing to a registry. -/
def act (r : Registry) : Action → Outcome ε Registry
  | .addRule rule => pure (r.addRule rule)
  | .addOffers module offers => r.addOffers module offers
  | .clear => pure r.clear

/-- Do one thing after the other. -/
def run (r : Registry) (actions : List Action) : Outcome ε Registry := actions.foldlM act r

/-- What was done since the registry was last cleared. -/
def sinceClear (actions : List Action) : List Action := (actions.reverse.takeWhile (!·.isClear)).reverse

/-- The rules that were registered since the registry was last cleared. -/
def registered (actions : List Action) : List Rule := (sinceClear actions).flatMap Action.rules

theorem registered_append_clear (actions : List Action) : registered (actions ++ [.clear]) = [] := by
  simp [registered, sinceClear, Action.isClear]

theorem registered_append {a : Action} (h : a.isClear = false) (actions : List Action) :
    registered (actions ++ [a]) = registered actions ++ a.rules := by
  simp [registered, sinceClear, h]

/-! ## The first rule under each identifier -/

/-- The first of some rules under each identifier. -/
def firsts : List Rule → List Rule
  | [] => []
  | rule :: rest => rule :: (firsts rest).filter (·.id != rule.id)

theorem find?_firsts (rules : List Rule) (id : String) :
    (firsts rules).find? (·.id == id) = rules.find? (·.id == id) := by
  induction rules with
  | nil => rfl
  | cons rule rest ih =>
      rw [firsts, List.find?_cons, List.find?_cons]
      by_cases hid : rule.id = id
      · rw [beq_iff_eq.mpr hid]
      · -- What the first rule hides has another identifier than the one looked for.
        rw [beq_eq_false_iff_ne.mpr hid, List.find?_filter, ← ih]
        refine List.find?_congr fun other _ => ?_
        by_cases hother : other.id = id
        · simp [hother, Ne.symm hid]
        · simp [hother]

theorem nodup_firsts (rules : List Rule) : ((firsts rules).map (·.id)).Nodup := by
  induction rules with
  | nil => exact List.nodup_nil
  | cons rule rest ih =>
      rw [firsts, List.map_cons, List.nodup_cons]
      refine ⟨?_, ih.sublist (List.filter_sublist.map _)⟩
      simp

/-- One more rule is a first one unless its identifier is taken. -/
theorem firsts_append (rules : List Rule) (rule : Rule) :
    firsts (rules ++ [rule]) =
      if (rules.find? (·.id == rule.id)).isSome then firsts rules else firsts rules ++ [rule] := by
  induction rules with
  | nil => rfl
  | cons first rest ih =>
      rw [List.cons_append, firsts, ih, List.find?_cons]
      by_cases hid : first.id = rule.id
      · rw [beq_iff_eq.mpr hid]
        split <;> simp [firsts, hid]
      · rw [beq_eq_false_iff_ne.mpr hid]
        split <;> simp [firsts, Ne.symm hid]

/-! ## What is kept -/

/-- A registry knows the first of some rules under each identifier: they are its rules, and they are in its index. -/
structure Knows (r : Registry) (rules : List Rule) : Prop where
  rules_eq : r.rules = firsts rules
  index_eq : r.index = (firsts rules).map fun rule => (rule.id, rule)

variable {r : Registry} {rules : List Rule}

theorem lookup_map_id (rules : List Rule) (id : String) :
    (rules.map fun rule => (rule.id, rule)).lookup id = rules.find? (·.id == id) := by
  induction rules with
  | nil => rfl
  | cons rule rest ih =>
      rw [List.map_cons, List.lookup_cons, List.find?_cons, ih, BEq.comm]

/-- The rule with an identifier is the first one of this identifier. -/
theorem Knows.rule?_eq (h : Knows r rules) (id : String) : r.rule? id = rules.find? (·.id == id) := by
  rw [rule?, h.index_eq, lookup_map_id, find?_firsts]

theorem Knows.ruleIds_eq (h : Knows r rules) : r.ruleIds = r.rules.map (·.id) := by
  rw [ruleIds, h.index_eq, h.rules_eq, List.map_map]
  rfl

theorem Knows.addRule (h : Knows r rules) (rule : Rule) : Knows (r.addRule rule) (rules ++ [rule]) := by
  rw [Registry.addRule, h.rule?_eq]
  split
  · next htaken =>
      have hsame : firsts (rules ++ [rule]) = firsts rules := by rw [firsts_append, if_pos htaken]
      exact ⟨by rw [hsame, h.rules_eq], by rw [hsame, h.index_eq]⟩
  · next hfree =>
      refine ⟨?_, ?_⟩
      · rw [firsts_append, if_neg hfree, ← h.rules_eq]
      · rw [firsts_append, if_neg hfree, List.map_append, ← h.index_eq]
        rfl

/-- Registering what a module offers never fails, and passes over what is no rule. -/
theorem Knows.addOffers {module : String} {offers : List Offer} : ∀ {r : Registry} {rules : List Rule}, Knows r rules →
    ∃ after : Registry, (r.addOffers module offers : Outcome ε Registry).result = .ok after ∧
      Knows after (rules ++ offers.filterMap Offer.rule?) := by
  induction offers with
  | nil =>
      intro r rules h
      exact ⟨r, rfl, by rwa [List.filterMap_nil, List.append_nil]⟩
  | cons offer offers ih =>
      intro r rules h
      cases offer with
      | rule rule =>
          obtain ⟨after, hafter, hknows⟩ := ih (h.addRule rule)
          exact ⟨after, hafter, by rwa [List.append_assoc] at hknows⟩
      | other shown =>
          obtain ⟨after, hafter, hknows⟩ := ih h
          exact ⟨after, Outcome.result_bind_eq_ok.mpr ⟨(), rfl, hafter⟩, hknows⟩

/-- One thing done keeps what is known in step with what was registered. -/
theorem Knows.act {actions : List Action} (h : Knows r (registered actions)) (a : Action) :
    ∃ after : Registry, (r.act a : Outcome ε Registry).result = .ok after ∧
      Knows after (registered (actions ++ [a])) := by
  cases a with
  | addRule rule =>
      rw [registered_append rfl]
      exact ⟨r.addRule rule, rfl, h.addRule rule⟩
  | addOffers module offers =>
      rw [registered_append rfl]
      exact h.addOffers
  | clear =>
      rw [registered_append_clear]
      exact ⟨r.clear, rfl, rfl, rfl⟩

/-- After any run the registry knows the first rules since it was last cleared. The induction is from the end of the
run, as it is the last time that the registry was cleared which counts. -/
theorem knows_run (actions : List Action) :
    ∃ r : Registry, (run {} actions : Outcome ε Registry).result = .ok r ∧ Knows r (registered actions) := by
  induction actions using List.reverseRecOn with
  | nil => exact ⟨{}, rfl, rfl, rfl⟩
  | append_singleton actions a ih =>
      obtain ⟨before, hbefore, hknows⟩ := ih
      obtain ⟨after, hafter, hknows⟩ := hknows.act a
      refine ⟨after, ?_, hknows⟩
      rw [run, List.foldlM_append]
      refine Outcome.result_bind_eq_ok.mpr ⟨before, hbefore, ?_⟩
      rw [List.foldlM_cons]
      exact Outcome.result_bind_eq_ok.mpr ⟨after, hafter, rfl⟩

/-! ## Registering again -/

theorem Knows.addRule_again (h : Knows r rules) {rule : Rule} (hrule : rule ∈ rules) : r.addRule rule = r := by
  rw [Registry.addRule, h.rule?_eq, if_pos]
  rw [List.find?_isSome]
  exact ⟨rule, hrule, beq_self_eq_true _⟩

theorem Knows.addOffers_again (h : Knows r rules) {module : String} {offers : List Offer}
    (hoffers : ∀ rule ∈ offers.filterMap Offer.rule?, rule ∈ rules) :
    (r.addOffers module offers : Outcome ε Registry).result = .ok r := by
  induction offers with
  | nil => rfl
  | cons offer offers ih =>
      cases offer with
      | rule rule =>
          obtain ⟨hrule, hoffers⟩ := List.forall_mem_cons.mp hoffers
          rw [Registry.addOffers, h.addRule_again hrule]
          exact ih hoffers
      | other shown => exact Outcome.result_bind_eq_ok.mpr ⟨(), rfl, ih hoffers⟩

theorem isClear_of_mem_sinceClear {actions : List Action} {a : Action} (ha : a ∈ sinceClear actions) :
    a.isClear = false := by
  have hmem := List.mem_takeWhile_imp (List.mem_reverse.mp ha)
  simpa using hmem

theorem Knows.act_again {actions : List Action} (h : Knows r (registered actions)) {a : Action}
    (ha : a ∈ sinceClear actions) : (r.act a : Outcome ε Registry).result = .ok r := by
  have hrules : ∀ rule ∈ a.rules, rule ∈ registered actions :=
    fun rule hrule => List.mem_flatMap.mpr ⟨a, ha, hrule⟩
  cases a with
  | addRule rule => exact congrArg Except.ok (h.addRule_again (hrules rule (List.mem_singleton_self rule)))
  | addOffers module offers => exact h.addOffers_again hrules
  | clear => exact absurd (isClear_of_mem_sinceClear ha) Bool.noConfusion

/-- Registering again what was registered since the registry was last cleared changes nothing. -/
theorem Knows.run_again {actions : List Action} (h : Knows r (registered actions)) {again : List Action}
    (hagain : ∀ a ∈ again, a ∈ sinceClear actions) : (run r again : Outcome ε Registry).result = .ok r := by
  induction again with
  | nil => rfl
  | cons a again ih =>
      obtain ⟨ha, hagain⟩ := List.forall_mem_cons.mp hagain
      rw [run, List.foldlM_cons]
      exact Outcome.result_bind_eq_ok.mpr ⟨r, h.act_again ha, ih hagain⟩

/-! ## Enabled rules -/

theorem isEverything_texts {patterns : List String} :
    isEverything (.list (patterns.map .text)) = true ↔ patterns = ["*"] := by
  rw [isEverything.eq_def]
  split
  · next hlist =>
      rw [Datum.list.injEq, List.map_eq_singleton_iff] at hlist
      obtain ⟨pattern, rfl, hpattern⟩ := hlist
      rw [Datum.text.injEq] at hpattern
      simp [hpattern]
  · next hother =>
      refine ⟨fun h => absurd h Bool.false_ne_true, ?_⟩
      rintro rfl
      exact absurd rfl hother

/-- The enabled rules are those for the language that some glob matches, whichever shortcut is taken. -/
theorem enabledRules_texts (r : Registry) (patterns : List String) (language : String) :
    r.enabledRules (.list (patterns.map .text)) language =
      .ok (r.rules.filter fun rule =>
        (patterns.any fun pattern => Glob.matchesText pattern rule.id) && rule.languages.contains language) := by
  rw [← List.filter_filter]
  by_cases hnone : patterns = []
  · rw [hnone, List.filter_eq_nil_iff.mpr (by simp)]
    rfl
  have hsubstantial : (!(Datum.list (patterns.map .text)).isSubstantial) = false := by
    simpa [Datum.isSubstantial] using hnone
  rw [enabledRules, if_neg (by rw [hsubstantial]; exact Bool.false_ne_true)]
  split
  · next hall =>
      -- The one glob that is left out of account matches every identifier.
      rw [isEverything_texts.mp hall, List.filter_eq_self.mpr]
      · rfl
      · simp [Glob.matchesText_everything]
  · exact filterM_eq_ok fun rule _ => Datum.anyGlob_texts _ patterns

/-- **A registry stays consistent over every run.** The identifiers of its rules are distinct and are those of the
index in the same order; the rules are the first ones under their identifiers since the registry was last cleared, and
the rule with an identifier is the first one of this identifier; what was registered since then can be registered again
without any change; and for a language and a list of globs the enabled rules are, in order and once each, those for the
language that some glob matches. -/
theorem run_keeps_first (ε : Type) (actions : List Action) :
    ∃ r : Registry, (run {} actions : Outcome ε Registry).result = .ok r ∧
      (r.rules.map (·.id)).Nodup ∧ r.ruleIds = r.rules.map (·.id) ∧
      r.rules = firsts (registered actions) ∧
      (∀ id, r.rule? id = (registered actions).find? (·.id == id)) ∧
      (∀ again, (∀ a ∈ again, a ∈ sinceClear actions) → (run r again : Outcome ε Registry).result = .ok r) ∧
      ∀ (patterns : List String) (language : String),
        r.enabledRules (.list (patterns.map .text)) language =
          .ok (r.rules.filter fun rule =>
            (patterns.any fun pattern => Glob.matchesText pattern rule.id) && rule.languages.contains language) := by
  obtain ⟨r, hrun, hknows⟩ := knows_run (ε := ε) actions
  refine ⟨r, hrun, ?_, hknows.ruleIds_eq, hknows.rules_eq, hknows.rule?_eq, fun _ => hknows.run_again,
    r.enabledRules_texts⟩
  rw [hknows.rules_eq]
  exact nodup_firsts _

end Registry

end IdiomLint
