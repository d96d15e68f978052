import IdiomLint.Correction
import IdiomLint.Proofs.Analysis.Loop

/-!
# Where findings and edits come from

The findings in a text are those of its rules, up to their severities, as far as they are not suppressed
(`of_result_runRules`, `forall_of_findingsFrom`), and the edits that a corrector accepts are edits of the
findings that it is offered (`mem_accepted_offerFindings`).
-/

namespace IdiomLint

namespace Corrector

theorem mem_accepted_offer {c : Corrector} {e offered : Edit} (h : e ∈ (c.offer offered).1.accepted) :
    e ∈ c.accepted ∨ e = offered := by
  unfold offer at h
  split at h
  · exact Or.inl h
  · rcases List.mem_append.mp h with h | h
    · exact Or.inl h
    · exact Or.inr (List.mem_singleton.mp h)

/-- What is accepted was accepted before or has been offered. -/
theorem mem_accepted_offerAll {e : Edit} {es : List Edit} : ∀ {c : Corrector},
    e ∈ (c.offerAll es).1.accepted → e ∈ c.accepted ∨ e ∈ es := by
  induction es with
  | nil => exact Or.inl
  | cons first es ih =>
      intro c h
      rcases ih (c := (c.offer first).1) h with h | h
      · rcases mem_accepted_offer h with h | rfl
        · exact Or.inl h
        · exact Or.inr List.mem_cons_self
      · exact Or.inr (List.mem_cons_of_mem first h)

theorem mem_accepted_offerFindings {e : Edit} {text : String} {findings : List Finding}
    (h : e ∈ (offerFindings { text } findings).1.accepted) : ∃ f ∈ findings, e ∈ f.edits := by
  rcases mem_accepted_offerAll h with h | h
  · exact absurd h List.not_mem_nil
  · exact List.mem_flatMap.mp h

end Corrector

namespace Analyzer

variable {a : Analyzer} {path text : String}

/-- A configuration changes nothing but the severity of a finding. -/
theorem of_withSeverity {f f' : Finding} (h : a.withSeverity f = .ok f') :
    ∃ severity, f' = { f with severity } := by
  obtain ⟨severity, _, h⟩ := bind_eq_ok.mp h
  split at h
  · split at h <;> cases h <;> exact ⟨_, rfl⟩
  · cases h
    exact ⟨_, rfl⟩

theorem mem_of_cut {limit : Datum} {found kept : List Finding} (h : limit.cut found = .ok kept) :
    ∀ f ∈ kept, f ∈ found := by
  intro f hf
  unfold Datum.cut at h
  split at h
  · cases h
    rw [Datum.firstItems] at hf
    split at hf <;> exact List.mem_of_mem_take hf
  · exact absurd h (by simp)

/-- What holds of the findings of each rule with the severities that are set for them holds of all that is found. -/
theorem forall_of_graded {p : Finding → Prop} {context : RuleContext} {rules : List Rule}
    (hrules : ∀ rule ∈ rules, ∀ new, rule.visit context = .ok new →
      ∀ f ∈ new, ∀ f', a.withSeverity f = .ok f' → p f') :
    ∀ {found kept : List Finding}, (∀ f ∈ found, p f) →
      (a.findingsFrom context found rules).result = .ok kept → ∀ f ∈ kept, p f := by
  intro found kept hfound h
  obtain ⟨front, back, graded, hlisting, hgraded, hkept⟩ := (collects_of_findingsFrom h).of_listing
  have hall : ∀ f ∈ found ++ graded, p f := by
    refine List.forall_mem_append.mpr ⟨hfound, fun f hf => ?_⟩
    obtain ⟨f₀, hf₀, hseverity⟩ := exists_mem_of_forall₂ hgraded f hf
    obtain ⟨rule, hrule, new, hnew, hf₀⟩ :=
      RuleContext.mem_listing.mp (hlisting ▸ List.mem_append_left back hf₀)
    exact hrules rule hrule new hnew f₀ hf₀ f hseverity
  rcases hkept with hcut | ⟨rfl, _, _⟩
  · exact fun f hf => hall f (mem_of_cut hcut f hf)
  · exact hall

/-- What holds of the findings of each rule, whatever their severities, holds of all that is found. -/
theorem forall_of_findingsFrom {p : Finding → Prop} {context : RuleContext} {rules : List Rule}
    (hrules : ∀ rule ∈ rules, ∀ new, rule.visit context = .ok new →
      ∀ f ∈ new, ∀ severity, p { f with severity }) :
    ∀ {found kept : List Finding}, (∀ f ∈ found, p f) →
      (a.findingsFrom context found rules).result = .ok kept → ∀ f ∈ kept, p f := by
  apply forall_of_graded
  intro rule hrule new hnew f hf f' hseverity
  obtain ⟨severity, rfl⟩ := of_withSeverity hseverity
  exact hrules rule hrule new hnew f hf severity

/-- Without a grammar nothing is found; with one, what the rules find in the tree is found, unless it is
suppressed. -/
theorem of_result_runRules {r : FileResult} (h : (a.runRules path text).result = .ok r) :
    (a.grammar = none ∧ r = { path, text }) ∨
      ∃ parse tree found, a.grammar = some (.ok parse) ∧
        Ruby.convert (Utf8.encode text) (parse text).tree = .ok tree ∧
        (a.findingsFrom ⟨path, text, some tree⟩ [] a.rules).result = .ok found ∧
        r = ⟨path, text, Suppression.keep text found⟩ := by
  obtain ⟨grammar, rules, config⟩ := a
  cases grammar with
  | none =>
      cases h
      exact Or.inl ⟨rfl, rfl⟩
  | some g =>
      obtain ⟨tree, htree, h⟩ := Outcome.result_bind_eq_ok.mp h
      obtain ⟨found, hfound, h⟩ := Outcome.result_bind_eq_ok.mp h
      cases h
      have htree := Outcome.result_mapError_eq_ok.mp htree
      obtain ⟨parsed, hparsed, htree⟩ := Outcome.result_bind_eq_ok.mp htree
      obtain ⟨parse, rfl, rfl⟩ := map_eq_ok.mp (mapError_eq_ok.mp hparsed)
      refine Or.inr ⟨parse, tree, found, rfl, ?_, hfound, rfl⟩
      split at htree
      · obtain ⟨_, _, htree⟩ := Outcome.result_bind_eq_ok.mp htree
        exact mapError_eq_ok.mp htree
      · exact mapError_eq_ok.mp htree

end Analyzer

end IdiomLint
