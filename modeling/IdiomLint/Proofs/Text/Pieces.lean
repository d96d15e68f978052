import IdiomLint.Proofs.Text.Position
import IdiomLint.Text.CommaList

/-!
# Pieces between separators

Lines and the items of a comma list are both what stands between separators (`atNewlines_eq_splitOn`,
`pieces_eq_splitOn`). A piece has as many pieces before it as there are separators before it, and it can be
exchanged without a change to the others (`splitOn_between`). In a list of items the white space around a piece
does not belong to it (`mem_items`).
-/

namespace IdiomLint

open Position (EndsWith)

/-! ## Cutting at a separator -/

section Cutting

variable {α : Type} [BEq α] [LawfulBEq α] {sep : α} {before piece after : List α}

theorem length_splitOn (sep : α) (xs : List α) : (xs.splitOn sep).length = xs.count sep + 1 := by
  induction xs with
  | nil => rfl
  | cons x xs ih =>
      rw [List.splitOn_cons_eq_if_modifyHead]
      by_cases hx : x = sep
      · rw [if_pos (beq_iff_eq.mpr hx), List.length_cons, ih, hx, List.count_cons_self]
      · rw [if_neg (mt beq_iff_eq.mp hx), List.length_modifyHead, ih, List.count_cons_of_ne hx]

theorem length_dropLast_splitOn : (before.splitOn sep).dropLast.length = before.count sep := by
  rw [List.length_dropLast, length_splitOn, Nat.add_sub_cancel]

/-- A piece stands between the pieces of what precedes it and the pieces of what follows it. -/
theorem splitOn_between (hfirst : EndsWith sep before) (hwhole : sep ∉ piece)
    (hlast : after = [] ∨ ∃ later, after = sep :: later) :
    (before ++ piece ++ after).splitOn sep =
      (before.splitOn sep).dropLast ++ piece :: (after.splitOn sep).tail := by
  have hback : (piece ++ after).splitOn sep = piece :: (after.splitOn sep).tail := by
    rcases hlast with rfl | ⟨later, rfl⟩
    · rw [List.append_nil, List.splitOn_eq_singleton hwhole]
      rfl
    · rw [List.splitOn_append_cons_self_of_not_mem hwhole, List.splitOn_cons_eq_if_modifyHead,
        if_pos (BEq.refl sep), List.tail_cons]
  rcases hfirst with rfl | ⟨earlier, rfl⟩
  · exact hback
  · rw [List.append_assoc, List.append_assoc, List.singleton_append, List.splitOn_append_cons_self, hback,
      List.splitOn_append_cons_self, List.splitOn_nil, List.dropLast_concat]

/-- The pieces of a list are what stands between two separators, or between one of them and an end. -/
theorem mem_splitOn {xs : List α} : piece ∈ xs.splitOn sep ↔ ∃ before after, xs = before ++ piece ++ after ∧
    EndsWith sep before ∧ sep ∉ piece ∧ (after = [] ∨ ∃ later, after = sep :: later) := by
  constructor
  · -- By induction on the separators: the first one ends the first piece.
    intro h
    induction hn : xs.length using Nat.strongRecOn generalizing xs with
    | ind n ih =>
      subst hn
      by_cases hsep : sep ∈ xs
      · obtain ⟨first, rest, rfl, hfirst⟩ := List.eq_append_cons_of_mem hsep
        rw [List.splitOn_append_cons_self_of_not_mem hfirst, List.mem_cons] at h
        rcases h with rfl | h
        · exact ⟨[], sep :: rest, rfl, Or.inl rfl, hfirst, Or.inr ⟨rest, rfl⟩⟩
        · obtain ⟨before, after, rfl, hbefore, hpiece, hafter⟩ :=
            ih rest.length (by simp; omega) h rfl
          refine ⟨first ++ sep :: before, after, by simp, Or.inr ?_, hpiece, hafter⟩
          rcases hbefore with rfl | ⟨earlier, rfl⟩
          · exact ⟨first, rfl⟩
          · exact ⟨first ++ sep :: earlier, by simp⟩
      · rw [List.splitOn_eq_singleton hsep, List.mem_singleton] at h
        subst h
        exact ⟨[], [], by simp, Or.inl rfl, hsep, Or.inl rfl⟩
  · rintro ⟨before, after, rfl, hbefore, hpiece, hafter⟩
    rw [splitOn_between hbefore hpiece hafter]
    exact List.mem_append_right _ List.mem_cons_self

end Cutting

namespace Lines

theorem extend_eq_modifyHead (c : Char) {ls : List (List Char)} (h : ls ≠ []) :
    extend c ls = ls.modifyHead (List.cons c) := by
  cases ls with
  | nil => exact absurd rfl h
  | cons line rest => rfl

theorem atNewlines_eq_splitOn (cs : List Char) : atNewlines cs = cs.splitOn '\n' := by
  induction cs with
  | nil => rfl
  | cons c cs ih =>
      rw [atNewlines, List.splitOn_cons_eq_if_modifyHead, extend_eq_modifyHead c (atNewlines_ne_nil cs), ih]
      simp only [beq_iff_eq]

end Lines

namespace CommaList

theorem pieces_eq_splitOn (cs : List Char) : pieces cs = cs.splitOn ',' := by
  induction cs with
  | nil => rfl
  | cons c cs ih =>
      rw [pieces, List.splitOn_cons_eq_if_modifyHead, Lines.extend_eq_modifyHead c (pieces_ne_nil cs), ih]
      simp only [beq_iff_eq]

end CommaList

/-! ## White space around a text -/

namespace Blank

variable {p : Char → Bool} {core : List Char}

/-- Characters of which neither the first nor the last one satisfies `p`. There is at least one. -/
def Tight (p : Char → Bool) (cs : List Char) : Prop :=
  ∃ first last, cs.head? = some first ∧ cs.getLast? = some last ∧ p first = false ∧ p last = false

theorem dropWhile_append_of_head {front : List Char} {first : Char} (hfront : ∀ c ∈ front, p c = true)
    (hhead : core.head? = some first) (hfirst : p first = false) (back : List Char) :
    (front ++ core ++ back).dropWhile p = core ++ back := by
  obtain ⟨rest, rfl⟩ := List.head?_eq_some_iff.mp hhead
  rw [List.append_assoc, List.dropWhile_append_of_pos hfront, List.cons_append,
    List.dropWhile_cons_of_neg (by simp [hfirst])]

/-- What is left when the characters that satisfy `p` are dropped from both ends. -/
theorem trimBoth_append {front back : List Char} (hfront : ∀ c ∈ front, p c = true)
    (hback : ∀ c ∈ back, p c = true) (h : Tight p core) : trimBoth p (front ++ core ++ back) = core := by
  obtain ⟨first, last, hfirst, hlast, hpfirst, hplast⟩ := h
  have hends : (back.reverse ++ core.reverse ++ []).dropWhile p = core.reverse ++ [] :=
    dropWhile_append_of_head (fun c hc => hback c (List.mem_reverse.mp hc))
      (by rw [List.head?_reverse, hlast]) hplast []
  rw [trimBoth, dropWhile_append_of_head hfront hfirst hpfirst, List.reverse_append]
  rw [List.append_nil, List.append_nil] at hends
  rw [hends, List.reverse_reverse]

theorem exists_trimBoth (p : Char → Bool) (cs : List Char) : ∃ front back, cs = front ++ trimBoth p cs ++ back ∧
    (∀ c ∈ front, p c = true) ∧ (∀ c ∈ back, p c = true) ∧ (trimBoth p cs = [] ∨ Tight p (trimBoth p cs)) := by
  have hfront : ∀ {ds : List Char}, ∀ c ∈ ds.takeWhile p, p c = true := by
    intro ds c hc
    exact List.all_eq_true.mp List.all_takeWhile c hc
  set kept := cs.dropWhile p with hkept
  have hback : kept = trimBoth p cs ++ (kept.reverse.takeWhile p).reverse := by
    rw [trimBoth, ← List.reverse_append, List.takeWhile_append_dropWhile, List.reverse_reverse]
  refine ⟨cs.takeWhile p, (kept.reverse.takeWhile p).reverse, ?_, hfront, ?_, ?_⟩
  · rw [List.append_assoc, ← hback, hkept, List.takeWhile_append_dropWhile]
  · intro c hc
    exact hfront c (List.mem_reverse.mp hc)
  · rw [Classical.or_iff_not_imp_left]
    intro hne
    obtain ⟨first, rest, hcore⟩ := List.exists_cons_of_ne_nil hne
    have hfirst : kept.head? = some first := by rw [hback, hcore]; rfl
    have hlast : (kept.reverse.dropWhile p).head? = some ((trimBoth p cs).getLast hne) := by
      rw [← List.getLast?_reverse, ← trimBoth, List.getLast?_eq_some_getLast hne]
    refine ⟨first, (trimBoth p cs).getLast hne, by rw [hcore]; rfl, List.getLast?_eq_some_getLast hne, ?_, ?_⟩
    · have h := List.head?_dropWhile_not p cs
      rw [← hkept, hfirst] at h
      simpa using h
    · have h := List.head?_dropWhile_not p kept.reverse
      rw [hlast] at h
      simpa using h

end Blank

namespace CommaList

/-- A text is an item of a list: it stands between two commas, or between one of them and an end of the list,
with nothing but white space around it, and neither begins nor ends with white space. -/
def IsItem (content : List Char) (item : String) : Prop :=
  ∃ before left right after, content = before ++ (left ++ item.toList ++ right) ++ after ∧
    EndsWith ',' before ∧ ',' ∉ left ++ item.toList ++ right ∧ (after = [] ∨ ∃ later, after = ',' :: later) ∧
    (∀ c ∈ left, Blank.isBlank c = true) ∧ (∀ c ∈ right, Blank.isBlank c = true) ∧
    Blank.Tight Blank.isBlank item.toList

theorem mem_items {content : List Char} {item : String} : item ∈ items content ↔ IsItem content item := by
  rw [items, List.mem_map]
  simp only [List.mem_filter, List.mem_map, pieces_eq_splitOn, mem_splitOn]
  constructor
  · rintro ⟨core, ⟨⟨piece, ⟨before, after, rfl, hbefore, hpiece, hafter⟩, rfl⟩, hne⟩, rfl⟩
    obtain ⟨left, right, hparts, hleft, hright, hcore⟩ := Blank.exists_trimBoth Blank.isBlank piece
    have hcore := hcore.resolve_left (by simpa using hne)
    refine ⟨before, left, right, after, ?_, hbefore, ?_, hafter, hleft, hright, ?_⟩
    · rw [String.toList_ofList, ← hparts]
    · rwa [String.toList_ofList, ← hparts]
    · rwa [String.toList_ofList]
  · rintro ⟨before, left, right, after, rfl, hbefore, hpiece, hafter, hleft, hright, hitem⟩
    have htrim := Blank.trimBoth_append hleft hright hitem
    refine ⟨item.toList, ⟨⟨_, ⟨before, after, rfl, hbefore, hpiece, hafter⟩, htrim⟩, ?_⟩, String.ofList_toList⟩
    obtain ⟨first, _, hfirst, _⟩ := hitem
    obtain ⟨rest, hrest⟩ := List.head?_eq_some_iff.mp hfirst
    simp [hrest]

end CommaList

end IdiomLint
