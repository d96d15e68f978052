import Mathlib.Algebra.BigOperators.Group.List.Basic
import Mathlib.Algebra.Group.Int.Defs
import IdiomLint.Number.Instances
import IdiomLint.Proofs.Edit.Splice

/-!
# What edits leave alone

A stretch of a text that no edit touches is found again in the edited text, byte for byte, at a place that
depends only on the edits before it (`Rewrites.keeps`). The same holds for several lists of edits applied
one after the other (`Untouched`, `movedThrough`).
-/

namespace IdiomLint.Edit

/-- The edit lies before a stretch or after it. -/
def Outside (e : Edit) (start stop : Int) : Prop := e.stop ≤ start ∨ stop ≤ e.start

/-- How much longer a text gets by an edit. -/
def growth (e : Edit) : Int := (Utf8.encode e.replacement).length - (e.stop - e.start)

/-- Where a place gets by edits, of which those before the place count. -/
def moved (edits : List Edit) (place : Int) : Int :=
  place + ((edits.filter (·.stop ≤ place)).map growth).sum

theorem moved_perm {edits others : List Edit} (h : edits.Perm others) (place : Int) :
    moved edits place = moved others place := by
  rw [moved, moved, ((h.filter _).map growth).sum_eq]

theorem moved_of_after {edits : List Edit} {place : Int} (h : ∀ e ∈ edits, place < e.stop) :
    moved edits place = place := by
  have hnone : edits.filter (·.stop ≤ place) = [] := by
    rw [List.filter_eq_nil_iff]
    intro e he
    have hlt := h e he
    simp only [decide_eq_true_eq]
    omega
  rw [moved, hnone, List.map_nil, List.sum_nil, Int.add_zero]

theorem moved_cons_of_before {e : Edit} {place : Int} (h : e.stop ≤ place) (edits : List Edit) :
    moved (e :: edits) place = moved edits place + e.growth := by
  rw [moved, moved, List.filter_cons_of_pos (by simpa using h), List.map_cons, List.sum_cons]
  omega

/-- Bytes that no edit touches are kept. -/
theorem Rewrites.keeps {offset : Nat} {edits : List Edit} {bytes bytes' : List UInt8}
    (h : Rewrites offset edits bytes bytes') :
    ∀ {front middle back : List UInt8}, bytes = front ++ (middle ++ back) → middle ≠ [] →
      (∀ e ∈ edits, e.Outside ↑(offset + front.length) ↑(offset + front.length + middle.length)) →
      ∃ front' back', bytes' = front' ++ (middle ++ back') ∧
        (↑(offset + front'.length) : Int) = moved edits ↑(offset + front.length) := by
  induction h with
  | nil offset bytes =>
      intro front middle back hbytes _ _
      exact ⟨front, back, hbytes, by rw [moved_of_after (by simp)]⟩
  | @cons offset e edits kept old rest rest' hstart hstop hrest ih =>
      intro front middle back hbytes hmiddle houtside
      have hpos := List.length_pos_iff.mpr hmiddle
      rw [List.forall_mem_cons] at houtside
      obtain ⟨houtside, hlater⟩ := houtside
      rcases houtside with hbefore | hafter
      · -- The edit lies before the bytes, so these stand in the rest.
        obtain ⟨front₂, rfl⟩ : ∃ front₂, front = kept ++ (old ++ front₂) := by
          have hprefix : kept ++ old <+: front := by
            refine List.prefix_of_prefix_length_le ⟨rest, ?_⟩ ⟨middle ++ back, rfl⟩ ?_
            · rw [List.append_assoc]
              exact hbytes
            · rw [List.length_append]
              omega
          obtain ⟨front₂, hfront⟩ := hprefix
          exact ⟨front₂, by rw [← hfront, List.append_assoc]⟩
        have hplace : offset + (kept ++ (old ++ front₂)).length =
            offset + kept.length + old.length + front₂.length := by
          simp only [List.length_append]
          omega
        rw [List.append_assoc, List.append_assoc, List.append_cancel_left_eq,
          List.append_cancel_left_eq] at hbytes
        rw [hplace] at hlater ⊢
        obtain ⟨front', back', rfl, hfront'⟩ := ih hbytes hmiddle hlater
        refine ⟨kept ++ (Utf8.encode e.replacement ++ front'), back', by simp, ?_⟩
        rw [moved_cons_of_before (by omega), ← hfront', growth]
        simp only [List.length_append]
        omega
      · -- The edit lies after the bytes, so these stand in what is kept.
        obtain ⟨kept₂, rfl⟩ : ∃ kept₂, kept = front ++ (middle ++ kept₂) := by
          have hprefix : front ++ middle <+: kept := by
            refine List.prefix_of_prefix_length_le ⟨back, ?_⟩ ⟨old ++ rest, rfl⟩ ?_
            · rw [List.append_assoc]
              exact hbytes.symm
            · rw [List.length_append]
              omega
          obtain ⟨kept₂, hkept⟩ := hprefix
          exact ⟨kept₂, by rw [← hkept, List.append_assoc]⟩
        refine ⟨front, kept₂ ++ (Utf8.encode e.replacement ++ rest'), by simp, ?_⟩
        rw [moved_of_after]
        have hbounds := hrest.bounds
        simp only [List.length_append] at hstart hstop hbounds
        rw [List.forall_mem_cons]
        refine ⟨by omega, ?_⟩
        intro a ha
        have ha := hbounds a ha
        omega

/-- The replacements are in the edited bytes. -/
theorem Rewrites.infix_of_mem {offset : Nat} {edits : List Edit} {bytes bytes' : List UInt8}
    (h : Rewrites offset edits bytes bytes') {e : Edit} (he : e ∈ edits) :
    Utf8.encode e.replacement <:+: bytes' := by
  induction h with
  | nil => exact absurd he List.not_mem_nil
  | @cons offset a edits kept old rest rest' _ _ _ ih =>
      rcases List.mem_cons.mp he with rfl | he
      · exact ⟨kept, rest', by rw [List.append_assoc]⟩
      · refine (ih he).trans (List.IsSuffix.isInfix ?_)
        exact (List.suffix_append _ rest').trans (List.suffix_append kept _)

/-! ## One pass after the other -/

/-- No edit of any pass touches a stretch of the given length; the passes move it. -/
def Untouched : List (List Edit) → Int → Int → Prop
  | [], _, _ => True
  | edits :: later, place, length =>
    (∀ e ∈ edits, e.Outside place (place + length)) ∧ Untouched later (moved edits place) length

/-- Where a place gets by all passes. -/
def movedThrough (passes : List (List Edit)) (place : Int) : Int :=
  passes.foldl (fun place edits => moved edits place) place

/-- Bytes that no edit touches are kept when edits are applied to a text. -/
theorem keeps_of_applyEdits {text text' : String} {edits : List Edit}
    (h : applyEdits text edits = .ok text') {front middle back : List UInt8}
    (htext : Utf8.encode text = front ++ (middle ++ back)) (hmiddle : middle ≠ [])
    (houtside : ∀ e ∈ edits, e.Outside front.length (front.length + middle.length)) :
    ∃ front' back', Utf8.encode text' = front' ++ (middle ++ back') ∧
      (front'.length : Int) = moved edits front.length := by
  have hsorted : ∀ e ∈ sorted edits, e.Outside ↑(0 + front.length) ↑(0 + front.length + middle.length) := by
    intro e he
    rw [Nat.zero_add, Int.natCast_add]
    exact houtside e ((sorted_perm edits).mem_iff.mp he)
  obtain ⟨front', back', htext', hplace⟩ := (rewrites_of_applyEdits h).keeps htext hmiddle hsorted
  rw [Nat.zero_add, Nat.zero_add, moved_perm (sorted_perm edits)] at hplace
  exact ⟨front', back', htext', hplace⟩

theorem infix_of_applyEdits {text text' : String} {edits : List Edit} (h : applyEdits text edits = .ok text')
    {e : Edit} (he : e ∈ edits) : Utf8.encode e.replacement <:+: Utf8.encode text' :=
  (rewrites_of_applyEdits h).infix_of_mem ((sorted_perm edits).mem_iff.mpr he)

end IdiomLint.Edit
