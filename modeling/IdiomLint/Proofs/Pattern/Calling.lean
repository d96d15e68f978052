import IdiomLint.Pattern.Matcher
import IdiomLint.Proofs.Pattern.Grammar
import IdiomLint.Proofs.Pattern.Matching
import IdiomLint.Proofs.Pattern.RoundTrip

/-!
# Captured parts fill the slots of a pattern

A matcher looks up the captured parts under the names that its pattern captures. The lookups cannot fail:
what an accepted pattern captures of a value goes under just these names (`Accepted.hasSlots`), and what is
read from text is accepted. Main statement: `captures_fill_slots`.
-/

namespace IdiomLint

namespace Bindings

theorem exists_get? {b : Bindings} {name : String} (h : name ∈ b.names) : ∃ v, b.get? name = some v := by
  obtain ⟨⟨name', v⟩, hentry, heq⟩ := List.mem_map.mp h
  rw [get?, ← Option.isSome_iff_exists, List.lookup_isSome_iff]
  exact ⟨(name', v), hentry, beq_iff_eq.mpr heq.symm⟩

/-- Names that a table holds parts under have parts in it, each its own. -/
theorem exists_parts {b : Bindings} {slots : List String} (h : ∀ n ∈ slots, n ∈ b.names) :
    ∃ parts, List.Forall₂ (fun n part => b.get? n = some part) slots parts := by
  induction slots with
  | nil => exact ⟨[], .nil⟩
  | cons n slots ih =>
      rw [List.forall_mem_cons] at h
      obtain ⟨part, hpart⟩ := exists_get? h.1
      obtain ⟨parts, hparts⟩ := ih h.2
      exact ⟨part :: parts, .cons hpart hparts⟩

end Bindings

namespace Pattern

theorem Accepted.match?_hasSlots {p : Pattern} (hp : Accepted p) {v : Value} {found : Bindings}
    (h : p.match? v = some found) : HasSlots found p.captureNames :=
  hp.hasSlots v found (hp.match?_eq v ▸ h)

end Pattern

namespace Matcher

/-- What a matcher gives for the captured parts, in the order of its slots. -/
def packed : List Value → Value
  | [] => .bool true
  | [part] => part
  | parts => .tuple parts

theorem call_eq_packed {m : Matcher} {v : Value} {found : Bindings} {parts : List Value}
    (h : m.pattern.match? v = some found)
    (hparts : List.Forall₂ (fun n part => found.get? n = some part) m.pattern.captureNames parts) :
    m.call v = .ok (some (packed parts)) := by
  have hbound : List.Forall₂ (fun n part => bound found n = .ok part) m.pattern.captureNames parts :=
    hparts.imp fun n part hget => by rw [bound, hget]
  rw [call, h]
  generalize m.pattern.captureNames = slots at hbound
  -- The matcher makes the three cases that the packing makes.
  cases hbound with
  | nil => rfl
  | @cons n part slots parts hpart hothers =>
      cases hothers with
      | nil =>
          show ((bound found n).map some : Except Unbound (Option Value)) = .ok (some part)
          rw [hpart]
          rfl
      | @cons n' part' slots parts hpart' hothers =>
          have hall := mapM_of_forall₂ (.cons hpart (.cons hpart' hothers))
          show ((n :: n' :: slots).mapM (bound found)).map (fun parts => some (Value.tuple parts)) = _
          rw [hall]
          rfl

theorem accepted_of_ofText {name source : String} {refs : References} {m : Matcher}
    (h : ofText name source refs = .ok m) : m.pattern.Accepted := by
  obtain ⟨p, hp, rfl⟩ := map_eq_ok.mp h
  exact Pattern.accepted_of_read hp

/-! ## Main statement -/

/-- Captured parts are exactly those of the slots. An accepted pattern captures no name twice, and what it
captures of any value goes under just these names, each once, whichever alternatives matched. So a matcher
that was read from text never misses a part: of a value of another shape it makes nothing, and of any other
value the captured parts in the order of the slots, `true` standing for none and a single one for itself. -/
theorem captures_fill_slots :
    (∀ p : Pattern, p.Accepted → p.captureNames.Nodup ∧ ∀ v found, p.match? v = some found →
      found.names.Nodup ∧ ∀ n, n ∈ found.names ↔ n ∈ p.captureNames) ∧
    ∀ name source refs m, ofText name source refs = .ok m → ∀ v,
      (m.pattern.match? v = none → m.call v = .ok none) ∧
      ∀ found, m.pattern.match? v = some found →
        ∃ parts, List.Forall₂ (fun n part => found.get? n = some part) m.pattern.captureNames parts ∧
          m.call v = .ok (some (packed parts)) := by
  refine ⟨?_, ?_⟩
  · intro p hp
    exact ⟨hp.nodup_captureNames, fun v found h => hp.match?_hasSlots h⟩
  · intro name source refs m hm v
    have hp := accepted_of_ofText hm
    refine ⟨fun h => by rw [call, h], ?_⟩
    intro found h
    obtain ⟨_, hslots⟩ := hp.match?_hasSlots h
    obtain ⟨parts, hparts⟩ := Bindings.exists_parts fun n hn => (hslots n).mpr hn
    exact ⟨parts, hparts, call_eq_packed h hparts⟩

theorem notated_keyPattern : Pattern.Notated [] Pattern.keyPattern := by
  refine ⟨Pattern.built_keyPattern, ?_, rfl⟩
  have hpair : Token.IsName "pair" := .ofChars rfl (by decide) (by decide)
  have hkey : Token.IsName "key" := .ofChars rfl (by decide) (by decide)
  have hcapture : Pattern.Spelled [] (.capture "key" .any) := .capture (Or.inr hkey) .any
  have hone : Pattern.Spelled [] (.value (.int 1)) := .int (Integer.lt_limit_of_lt_ten (by decide))
  refine .oneOf ?_
  simp only [List.forall_mem_cons, List.not_mem_nil, false_implies, implies_true, and_true]
  refine ⟨.node hpair ?_, .node hpair ?_⟩
  · simp [hcapture, hone]
  · simp [hcapture, Pattern.Spelled.any]

/-- The key of a pair, wherever it is found: the part is bound by the second alternative, under the name
that the first one captures too. -/
theorem captures_fill_slots_key :
    Pattern.keyPattern.captureNames.Nodup ∧
      ofText "key" (Pattern.render Pattern.keyPattern) [] =
        .ok ⟨"key", Pattern.render Pattern.keyPattern, Pattern.keyPattern⟩ ∧
      Pattern.keyPattern.match? (.node "pair" [.text "a", .int 2] {}) = some [("key", .int 2)] ∧
      ∃ parts, List.Forall₂ (fun n part => Bindings.get? [("key", .int 2)] n = some part)
          Pattern.keyPattern.captureNames parts ∧
        call ⟨"key", Pattern.render Pattern.keyPattern, Pattern.keyPattern⟩
          (.node "pair" [.text "a", .int 2] {}) = .ok (some (packed parts)) := by
  have haccepted := Pattern.built_keyPattern.accepted
  have hread : ofText "key" (Pattern.render Pattern.keyPattern) [] =
      .ok ⟨"key", Pattern.render Pattern.keyPattern, Pattern.keyPattern⟩ :=
    map_eq_ok.mpr ⟨_, notated_keyPattern.reads_render, rfl⟩
  have hmatch : Pattern.keyPattern.match? (.node "pair" [.text "a", .int 2] {}) =
      some [("key", .int 2)] := by
    rw [haccepted.match?_eq]
    rfl
  exact ⟨(captures_fill_slots.1 _ haccepted).1, hread, hmatch,
    (captures_fill_slots.2 _ _ _ _ hread _).2 _ hmatch⟩

end Matcher

end IdiomLint
