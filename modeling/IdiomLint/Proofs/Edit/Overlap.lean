import IdiomLint.Edit.Corrector
import IdiomLint.Proofs.Edit.Splice

/-!
# Edits that overlap

Two edits overlap when the later one, by the order of their bounds, begins before the earlier one ends. Applying
edits compares neighbours only; that is enough to find out whether any two overlap (`firstConflict?_sorted_eq_none`).
For edits that end where they begin or later, overlapping is what a corrector takes for a conflict
(`overlaps_iff`).
-/

namespace IdiomLint.Edit

/-! ## Two edits -/

/-- In the order of their bounds, the later one of two edits begins before the earlier one ends. -/
def Overlap (a b : Edit) : Prop :=
  (before a b = true ∧ b.start < a.stop) ∨ (before b a = true ∧ a.start < b.stop)

instance (a b : Edit) : Decidable (Overlap a b) := inferInstanceAs (Decidable (_ ∨ _))

theorem Overlap.symm {a b : Edit} (h : Overlap a b) : Overlap b a := Or.symm h

theorem overlap_iff_of_before {a b : Edit} (h : before a b = true) : Overlap a b ↔ b.start < a.stop := by
  simp only [Overlap, before_iff] at h ⊢
  omega

/-- The test of a corrector does not go by the order of the edits. On edits that end where they begin or later it finds
the same. -/
theorem overlaps_iff {a b : Edit} (ha : a.start ≤ a.stop) (hb : b.start ≤ b.stop) :
    b.overlaps a = true ↔ Overlap a b := by
  simp only [Overlap, overlaps, before_iff, Bool.and_eq_true, decide_eq_true_eq]
  omega

/-! ## Several edits -/

/-- No two of the edits overlap. -/
def Apart (edits : List Edit) : Prop := edits.Pairwise fun a b => ¬ Overlap a b

instance (edits : List Edit) : Decidable (Apart edits) := inferInstanceAs (Decidable (List.Pairwise _ _))

theorem Apart.perm {edits others : List Edit} (h : Apart edits) (hperm : edits.Perm others) : Apart others :=
  hperm.pairwise h fun hab hba => hab hba.symm

theorem not_apart_iff {edits : List Edit} : ¬ Apart edits ↔ ∃ a b, [a, b].Sublist edits ∧ Overlap a b := by
  rw [Apart, List.pairwise_iff_forall_sublist]
  simp

/-- Edits in the order of their bounds do not overlap when each of them ends before all later ones begin. -/
theorem apart_iff_of_pairwise {edits : List Edit} (hsorted : edits.Pairwise fun a b => before a b = true) :
    Apart edits ↔ edits.Pairwise fun a b => a.stop ≤ b.start := by
  constructor
  · intro h
    refine (h.and hsorted).imp fun {a b} hab => ?_
    rw [overlap_iff_of_before hab.2] at hab
    omega
  · intro h
    refine (h.and hsorted).imp fun {a b} hab => ?_
    rw [overlap_iff_of_before hab.2]
    omega

theorem apart_sorted {edits : List Edit} : Apart (sorted edits) ↔ Apart edits :=
  ⟨fun h => h.perm (sorted_perm edits), fun h => h.perm (sorted_perm edits).symm⟩

/-- The neighbours in the order of the bounds tell whether any two edits overlap. -/
theorem firstConflict?_sorted_eq_none {edits : List Edit} : firstConflict? (sorted edits) = none ↔ Apart edits := by
  rw [← apart_sorted, apart_iff_of_pairwise (pairwise_sorted edits)]
  exact ⟨pairwise_of_firstConflict? (pairwise_sorted edits), firstConflict?_of_pairwise⟩

/-! ## Refusals -/

/-- The edit lies in a text of so many bytes, with its bounds in order. -/
def Within (size : Nat) (e : Edit) : Prop := 0 ≤ e.start ∧ e.start ≤ e.stop ∧ e.stop ≤ size

instance (size : Nat) : DecidablePred (Within size) := fun _ => inferInstanceAs (Decidable (_ ∧ _))

variable {text : String} {edits : List Edit}

/-- The neighbours that are found to overlap are two of the edits. -/
theorem overlap_of_firstConflict? {a b : Edit} : ∀ {edits : List Edit},
    edits.Pairwise (fun a b => before a b = true) → firstConflict? edits = some (a, b) →
      [a, b].Sublist edits ∧ Overlap a b
  | [], _, h | [_], _, h => absurd h (by simp [firstConflict?])
  | x :: y :: rest, hsorted, h => by
    obtain ⟨hfirst, hsorted⟩ := List.pairwise_cons.mp hsorted
    rw [firstConflict?] at h
    split at h
    · next hxy =>
        cases h
        exact ⟨by simp, (overlap_iff_of_before (hfirst b (by simp))).mpr hxy⟩
    · obtain ⟨hsub, hoverlap⟩ := overlap_of_firstConflict? hsorted h
      exact ⟨hsub.cons x, hoverlap⟩

theorem applyEdits_of_firstConflict? {a b : Edit} (h : firstConflict? (sorted edits) = some (a, b)) :
    applyEdits text edits = .error (.conflict a b) := by
  simp only [applyEdits, h]

theorem applyEdits_of_apart (h : Apart edits) : applyEdits text edits =
    applyInOrder (Utf8.encode text) (sorted edits).reverse >>=
      fun bytes => (Utf8.decode? bytes).mapError fun _ => .notText := by
  rw [← firstConflict?_sorted_eq_none] at h
  simp only [applyEdits, h]
  refine congrArg _ (funext fun bytes => ?_)
  cases Utf8.decode? bytes with
  | error _ => rfl
  | ok _ => rfl

/-- Carrying out edits fails at an edit that lies outside, and for no other reason. -/
theorem of_applyInOrder_error {e : EditError} : ∀ {edits : List Edit} {bytes : List UInt8},
    applyInOrder bytes edits = .error e → ∃ edit size, e = .outside edit size
  | [], _, h => by cases h
  | edit :: rest, bytes, h => by
    rw [applyInOrder] at h
    split at h
    · exact of_applyInOrder_error h
    · cases h
      exact ⟨edit, bytes.length, rfl⟩

/-- Edits that do not overlap are carried out, one after the other, when all of them lie in the text. -/
theorem exists_applyInOrder_iff (h : Apart edits) :
    (∃ bytes, applyInOrder (Utf8.encode text) (sorted edits).reverse = .ok bytes) ↔
      ∀ e ∈ edits, Within (Utf8.encode text).length e := by
  have hpairwise := (apart_iff_of_pairwise (pairwise_sorted edits)).mp (apart_sorted.mpr h)
  have hmem : ∀ e, e ∈ sorted edits ↔ e ∈ edits := fun e => (sorted_perm edits).mem_iff
  constructor
  · rintro ⟨bytes, happly⟩ e he
    obtain ⟨hstart, hle⟩ := (inside_of_applyInOrder happly).1 e (by simpa [hmem] using he)
    exact ⟨hstart, hle, stop_le_of_applyInOrder hpairwise happly e ((hmem e).mpr he)⟩
  · intro hwithin
    have horder : InOrder (sorted edits) := ⟨fun e he => (hwithin e ((hmem e).mp he)).2.1, hpairwise⟩
    have hbounds : ∀ e ∈ sorted edits, ((0 : Nat) : Int) ≤ e.start ∧ e.stop ≤ ↑(0 + (Utf8.encode text).length) := by
      intro e he
      obtain ⟨hstart, _, hstop⟩ := hwithin e ((hmem e).mp he)
      exact ⟨hstart, by omega⟩
    obtain ⟨bytes, hrewrites⟩ := exists_rewrites horder hbounds
    exact ⟨bytes, hrewrites.applyInOrder_eq_ok [] rfl⟩

/-- A refusal for a conflict names the first two neighbours that overlap. -/
theorem applyEdits_eq_conflict {a b : Edit} :
    applyEdits text edits = .error (.conflict a b) ↔ firstConflict? (sorted edits) = some (a, b) := by
  refine ⟨fun h => ?_, applyEdits_of_firstConflict?⟩
  cases hfirst : firstConflict? (sorted edits) with
  | some found =>
      rw [applyEdits_of_firstConflict? hfirst] at h
      cases h
      rfl
  | none =>
      -- Neither carrying out the edits nor reading the bytes as a text ends in a conflict.
      rw [applyEdits_of_apart (firstConflict?_sorted_eq_none.mp hfirst)] at h
      rcases bind_eq_error.mp h with h | ⟨bytes, _, h⟩
      · obtain ⟨_, _, houtside⟩ := of_applyInOrder_error h
        cases houtside
      · obtain ⟨_, _, hnotText⟩ := mapError_eq_error.mp h
        cases hnotText

/-- The edits that a refusal for a conflict names are two of the list, and they overlap. -/
theorem overlap_of_conflict {a b : Edit} (h : applyEdits text edits = .error (.conflict a b)) :
    [a, b].Sublist (sorted edits) ∧ Overlap a b :=
  overlap_of_firstConflict? (pairwise_sorted edits) (applyEdits_eq_conflict.mp h)

/-- Edits are refused for a conflict exactly when two of them overlap. -/
theorem applyEdits_conflict_iff : (∃ a b, applyEdits text edits = .error (.conflict a b)) ↔ ¬ Apart edits := by
  simp only [applyEdits_eq_conflict, ← firstConflict?_sorted_eq_none, Option.ne_none_iff_exists', Prod.exists]

/-- Edits are refused for one that lies outside exactly when there is such an edit and no two overlap. -/
theorem applyEdits_outside_iff : (∃ e size, applyEdits text edits = .error (.outside e size)) ↔
    Apart edits ∧ ∃ e ∈ edits, ¬ Within (Utf8.encode text).length e := by
  by_cases hapart : Apart edits
  · have hwithin := not_congr (@exists_applyInOrder_iff text edits hapart)
    simp only [not_forall, exists_prop] at hwithin
    rw [applyEdits_of_apart hapart, and_iff_right hapart, ← hwithin]
    constructor
    · rintro ⟨e, size, h⟩ ⟨bytes, happly⟩
      rw [happly] at h
      obtain ⟨_, _, hnotText⟩ := mapError_eq_error.mp h
      cases hnotText
    · intro h
      cases happly : applyInOrder (Utf8.encode text) (sorted edits).reverse with
      | error e =>
          obtain ⟨edit, size, rfl⟩ := of_applyInOrder_error happly
          exact ⟨edit, size, rfl⟩
      | ok bytes => exact absurd ⟨bytes, happly⟩ h
  · obtain ⟨a, b, h⟩ := applyEdits_conflict_iff.mpr hapart
    rw [h]
    simp [hapart]

end IdiomLint.Edit
