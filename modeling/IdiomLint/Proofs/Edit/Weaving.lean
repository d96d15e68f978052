import IdiomLint.Proofs.Edit.Overlap

/-!
# What edited texts are made of

An edited text is woven from the stretches of the text between the edits and the replacements, in the order of the
bounds (`woven`). Insertions at one place keep the order in which they are listed, and this alone is what the order
of a list of edits can change (`eq_of_arranged`). The main statement, `applyEdits_weaves`, says when edits are applied,
what comes out, and why edits are refused.
-/

namespace IdiomLint.Edit

/-! ## The order of the edits -/

/-- Does an edit insert at a place, so that nothing gives way to it? -/
def insertsAt (place : Int) (e : Edit) : Bool := e.start == place && e.stop == place

/-- The edits in the order of their bounds; insertions at one place stand as they are listed. -/
structure Arranged (edits ordered : List Edit) : Prop where
  perm : ordered.Perm edits
  pairwise : ordered.Pairwise fun a b => before a b = true
  insertions : ∀ place, ordered.filter (insertsAt place) = edits.filter (insertsAt place)

theorem insertsAt_iff {place : Int} {e : Edit} : insertsAt place e = true ↔ e.start = place ∧ e.stop = place := by
  rw [insertsAt, Bool.and_eq_true, beq_iff_eq, beq_iff_eq]

theorem pairwise_before_insertsAt (place : Int) (edits : List Edit) :
    (edits.filter (insertsAt place)).Pairwise fun a b => before a b = true := by
  refine List.pairwise_of_forall_mem_list fun a ha b hb => ?_
  have ha := insertsAt_iff.mp (List.mem_filter.mp ha).2
  have hb := insertsAt_iff.mp (List.mem_filter.mp hb).2
  rw [before_iff]
  omega

/-- Sorting arranges edits. -/
theorem arranged_sorted (edits : List Edit) : Arranged edits (sorted edits) where
  perm := sorted_perm edits
  pairwise := pairwise_sorted edits
  insertions place := by
    -- Sorting keeps the insertions at a place in a row, and there are no more of them afterwards.
    have hsub : (edits.filter (insertsAt place)).Sublist (sorted edits) :=
      List.sublist_mergeSort before_trans before_total (pairwise_before_insertsAt place edits) List.filter_sublist
    have hsub := hsub.filter (insertsAt place)
    rw [List.filter_filter] at hsub
    simp only [Bool.and_self] at hsub
    exact (hsub.eq_of_length ((sorted_perm edits).filter _).length_eq.symm).symm

/-- Two edits that come before each other and do not overlap are insertions at one place. -/
theorem insertsAt_of_before {a b : Edit} (hle : a.start ≤ a.stop) (hab : before a b = true) (hba : before b a = true)
    (hnot : ¬ Overlap a b) : insertsAt a.start a = true ∧ insertsAt a.start b = true := by
  rw [overlap_iff_of_before hab] at hnot
  rw [before_iff] at hab hba
  rw [insertsAt_iff, insertsAt_iff]
  omega

/-- Edits that do not overlap are in one order only, once the order of the insertions at each place is given. -/
theorem eq_of_arranged {edits : List Edit} : ∀ {others : List Edit}, Apart edits →
    (∀ e ∈ edits, e.start ≤ e.stop) → edits.Perm others →
    edits.Pairwise (fun a b => before a b = true) → others.Pairwise (fun a b => before a b = true) →
    (∀ place, edits.filter (insertsAt place) = others.filter (insertsAt place)) → edits = others := by
  induction edits with
  | nil => intro others _ _ hperm _ _ _; exact hperm.nil_eq
  | cons a edits ih =>
      intro others hapart hle hperm hsorted hsorted' hinsertions
      obtain _ | ⟨b, others⟩ := others
      · exact absurd hperm.length_eq (by simp)
      obtain ⟨hfirst, hrest⟩ := List.pairwise_cons.mp hsorted
      obtain ⟨hfirst', hrest'⟩ := List.pairwise_cons.mp hsorted'
      obtain ⟨hout, hapart⟩ := List.pairwise_cons.mp hapart
      obtain ⟨hale, hle⟩ := List.forall_mem_cons.mp hle
      have hab : a = b := by
        rcases List.mem_cons.mp (hperm.mem_iff.mpr List.mem_cons_self) with hba | hb
        · exact hba.symm
        rcases List.mem_cons.mp (hperm.mem_iff.mp List.mem_cons_self) with hab | ha
        · exact hab
        -- Each comes before the other, so the insertions at their place begin with them in both lists.
        obtain ⟨hains, hbins⟩ := insertsAt_of_before hale (hfirst b hb) (hfirst' a ha) (hout b hb)
        have hheads := hinsertions a.start
        rw [List.filter_cons_of_pos hains, List.filter_cons_of_pos hbins] at hheads
        exact (List.cons.inj hheads).1
      subst hab
      refine congrArg (a :: ·) (ih hapart hle hperm.cons_inv hrest hrest' fun place => ?_)
      have htails := hinsertions place
      by_cases hins : insertsAt place a = true
      · rw [List.filter_cons_of_pos hins, List.filter_cons_of_pos hins] at htails
        exact (List.cons.inj htails).2
      · rwa [List.filter_cons_of_neg hins, List.filter_cons_of_neg hins] at htails

theorem sorted_eq_of_perm {edits others : List Edit} (hapart : Apart edits) (hle : ∀ e ∈ edits, e.start ≤ e.stop)
    (hperm : others.Perm edits)
    (hinsertions : ∀ place, others.filter (insertsAt place) = edits.filter (insertsAt place)) :
    sorted others = sorted edits := by
  have harranged := arranged_sorted edits
  have harranged' := arranged_sorted others
  refine (eq_of_arranged (apart_sorted.mpr hapart) ?_ ?_ harranged.pairwise harranged'.pairwise ?_).symm
  · exact fun e he => hle e (harranged.perm.mem_iff.mp he)
  · exact harranged.perm.trans (hperm.symm.trans harranged'.perm.symm)
  · intro place
    rw [harranged.insertions, harranged'.insertions, hinsertions]

/-! ## The edited text -/

/-- The bytes from `place` on, with the stretches of ordered edits giving way to the replacements. -/
def woven (bytes : List UInt8) : Nat → List Edit → List UInt8
  | place, [] => bytes.drop place
  | place, e :: edits =>
    (bytes.take e.start.toNat).drop place ++ (Utf8.encode e.replacement ++ woven bytes e.stop.toNat edits)

/-- Rewriting weaves the bytes with the replacements. -/
theorem Rewrites.eq_woven {offset : Nat} {edits : List Edit} {bytes bytes' : List UInt8}
    (h : Rewrites offset edits bytes bytes') :
    ∀ front : List UInt8, front.length = offset → bytes' = woven (front ++ bytes) offset edits := by
  induction h with
  | nil offset bytes =>
      rintro front rfl
      rw [woven, List.drop_left]
  | @cons offset e edits kept old rest rest' hstart hstop _ ih =>
      rintro front rfl
      have hlow : e.start.toNat = (front ++ kept).length := by
        rw [List.length_append]
        omega
      have hhigh : e.stop.toNat = front.length + kept.length + old.length := by omega
      rw [woven, hlow, hhigh, ← List.append_assoc front, List.take_left, List.drop_left,
        ih (front ++ kept ++ old) (by simp [Nat.add_assoc]), List.append_assoc (front ++ kept)]

/-- The edit lies between characters of the text, with its bounds in order. -/
def Fits (text : String) (e : Edit) : Prop :=
  Within (Utf8.encode text).length e ∧ Utf8.Boundary text.toList e.start.toNat ∧
    Utf8.Boundary text.toList e.stop.toNat

instance (text : String) : DecidablePred (Fits text) := fun _ => inferInstanceAs (Decidable (_ ∧ _))

/-- Edits that do not overlap, all between characters of the text, are applied. -/
theorem exists_of_fits {text : String} {edits : List Edit} (hapart : Apart edits) (hfits : ∀ e ∈ edits, Fits text e) :
    ∃ text', applyEdits text edits = .ok text' := by
  refine applyEdits_of_inOrder ⟨?_, ?_⟩ ?_
  · exact fun e he => (hfits e ((sorted_perm edits).mem_iff.mp he)).1.2.1
  · exact (apart_iff_of_pairwise (pairwise_sorted edits)).mp (apart_sorted.mpr hapart)
  · exact fun e he => ⟨(hfits e he).1.1, (hfits e he).2⟩

/-- Edits that have been applied do not overlap and lie in the text. -/
theorem of_applyEdits_eq_ok {text text' : String} {edits : List Edit} (h : applyEdits text edits = .ok text') :
    Apart edits ∧ ∀ e ∈ edits, Within (Utf8.encode text).length e := by
  obtain ⟨hconflict, bytes, happly, _⟩ := applyEdits_eq_ok.mp h
  have hapart := firstConflict?_sorted_eq_none.mp hconflict
  exact ⟨hapart, (exists_applyInOrder_iff hapart).mp ⟨bytes, happly⟩⟩

/-- **Edits are applied all at once.** Edits that do not overlap and lie between the characters of the text are applied,
and the edited text is woven from the text and the replacements in the order of the bounds. Another order of the list
counts only where it exchanges two insertions at one place. Edits are refused for a conflict exactly when two of them
overlap, and for one that lies outside exactly when none overlap and one does; edits that overlap or lie outside are
never applied. -/
theorem applyEdits_weaves (text : String) (edits : List Edit) :
    (Apart edits → (∀ e ∈ edits, Fits text e) → ∃ ordered text', Arranged edits ordered ∧
      applyEdits text edits = .ok text' ∧ Utf8.encode text' = woven (Utf8.encode text) 0 ordered) ∧
    (Apart edits → (∀ e ∈ edits, e.start ≤ e.stop) → ∀ others, others.Perm edits →
      (∀ place, others.filter (insertsAt place) = edits.filter (insertsAt place)) →
      applyEdits text others = applyEdits text edits) ∧
    ((∃ a b, applyEdits text edits = .error (.conflict a b)) ↔ ∃ a b, [a, b].Sublist edits ∧ Overlap a b) ∧
    ((∃ e size, applyEdits text edits = .error (.outside e size)) ↔
      Apart edits ∧ ∃ e ∈ edits, ¬ Within (Utf8.encode text).length e) ∧
    ∀ text', applyEdits text edits = .ok text' →
      Apart edits ∧ ∀ e ∈ edits, Within (Utf8.encode text).length e := by
  refine ⟨?_, ?_, ?_, applyEdits_outside_iff, fun text' h => of_applyEdits_eq_ok h⟩
  · intro hapart hfits
    obtain ⟨text', happly⟩ := exists_of_fits hapart hfits
    exact ⟨sorted edits, text', arranged_sorted edits, happly,
      (rewrites_of_applyEdits happly).eq_woven [] rfl⟩
  · intro hapart hle others hperm hinsertions
    unfold applyEdits
    rw [sorted_eq_of_perm hapart hle hperm hinsertions]
  · rw [applyEdits_conflict_iff, not_apart_iff]

/-- A replacement of a letter of two bytes between two insertions after it, listed in two orders that agree on the
insertions. -/
theorem applyEdits_weaves_insertions :
    let edits : List Edit := [⟨3, 3, "x"⟩, ⟨1, 3, "e"⟩, ⟨3, 3, "y"⟩]
    let others : List Edit := [⟨1, 3, "e"⟩, ⟨3, 3, "x"⟩, ⟨3, 3, "y"⟩]
    (∃ ordered text', Arranged edits ordered ∧ applyEdits "né!" edits = .ok text' ∧
      Utf8.encode text' = woven (Utf8.encode "né!") 0 ordered) ∧
    applyEdits "né!" others = applyEdits "né!" edits := by
  intro edits others
  refine ⟨(applyEdits_weaves "né!" edits).1 (by decide) (by decide),
    (applyEdits_weaves "né!" edits).2.1 (by decide) (by decide) others (by decide) fun place => ?_⟩
  simp only [edits, others, insertsAt, List.filter_cons, List.filter_nil]
  grind

end IdiomLint.Edit
