import Mathlib.Data.List.Sort
import IdiomLint.Text.Sorted

/-!
# Texts in order, each of them once

Sorting without repetitions gives the one strictly increasing list of the given texts (`pairwise_sortDistinct`,
`mem_sortDistinct`), so that it depends on which texts are given alone (`sortDistinct_congr`).
-/

namespace IdiomLint

theorem mem_dropRepeats {items : List String} {s : String} : s ∈ dropRepeats items ↔ s ∈ items := by
  fun_induction dropRepeats items with
  | case1 a b rest hsame ih =>
      rw [beq_iff_eq] at hsame
      rw [ih, hsame]
      simp
  | case2 a b rest _ ih => rw [List.mem_cons, ih, ← List.mem_cons]
  | case3 short _ => rfl

/-- In a list in order, the items that are left after equal neighbours were dropped increase. -/
theorem pairwise_dropRepeats {items : List String} (h : items.Pairwise (· ≤ ·)) :
    (dropRepeats items).Pairwise (· < ·) := by
  fun_induction dropRepeats items with
  | case1 a b rest _ ih => exact ih h.of_cons
  | case2 a b rest hdiffer ih =>
      obtain ⟨hfirst, hrest⟩ := List.pairwise_cons.mp h
      refine List.pairwise_cons.mpr ⟨?_, ih hrest⟩
      intro s hs
      have hab : a < b := Std.lt_of_le_of_ne (hfirst b List.mem_cons_self) (by simpa using hdiffer)
      rcases List.mem_cons.mp (mem_dropRepeats.mp hs) with rfl | hs
      · exact hab
      · exact Std.lt_of_lt_of_le hab ((List.pairwise_cons.mp hrest).1 s hs)
  | case3 short hshort =>
      match short, hshort with
      | [], _ => exact List.Pairwise.nil
      | [a], _ => exact List.pairwise_singleton _ a
      | a :: b :: rest, hshort => exact absurd rfl (hshort a b rest)

theorem mem_sortDistinct {items : List String} {s : String} : s ∈ sortDistinct items ↔ s ∈ items :=
  mem_dropRepeats.trans (List.mergeSort_perm items _).mem_iff

theorem pairwise_sortTexts (items : List String) : (sortTexts items).Pairwise (· ≤ ·) := by
  have hsorted := @List.pairwise_mergeSort String (fun a b => decide (a ≤ b))
    (fun a b c => by simpa only [decide_eq_true_eq] using String.le_trans)
    (fun a b => by simpa using String.le_total a b) items
  simpa only [sortTexts, decide_eq_true_eq] using hsorted

theorem pairwise_sortDistinct (items : List String) : (sortDistinct items).Pairwise (· < ·) :=
  pairwise_dropRepeats (pairwise_sortTexts items)

/-- Only which texts there are counts, not where or how often. -/
theorem sortDistinct_congr {items others : List String} (h : ∀ s, s ∈ items ↔ s ∈ others) :
    sortDistinct items = sortDistinct others :=
  (pairwise_sortDistinct items).eq_of_mem_iff (pairwise_sortDistinct others) fun s => by
    rw [mem_sortDistinct, mem_sortDistinct, h]

end IdiomLint
