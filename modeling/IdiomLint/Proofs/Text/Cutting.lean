import Mathlib.Data.List.Basic
import IdiomLint.Text.Lines

/-!
# Cutting a text after its line breaks

`cutBy ends` cuts a text into lines, `ends` being the characters that end a line by themselves; a carriage return
and a line feed are one break. With every break there is these are the lines of `keepingEnds`, with the line feed
alone they are the lines of a text file. Lines that are put together are cut where they were put together exactly
when each of them but the last one ends in a break (`cutBy_flatten_iff`).
-/

namespace IdiomLint.Lines

variable {ends : Char → Bool} {line rest cs : List Char}

/-- The lines of a text, each with the break that ends it. -/
def cutBy (ends : Char → Bool) : List Char → List (List Char)
  | [] => []
  | '\r' :: '\n' :: rest => ['\r', '\n'] :: cutBy ends rest
  | c :: rest => if ends c then [c] :: cutBy ends rest else extend c (cutBy ends rest)

theorem cutBy_isBreak (cs : List Char) : cutBy isBreak cs = keepingEnds cs := by
  fun_induction keepingEnds cs with
  | case1 => rfl
  | case2 rest ih => rw [cutBy, ih]
  | case3 c rest hcrlf hbreak ih => rw [cutBy, if_pos hbreak, ih]; exact hcrlf
  | case4 c rest hcrlf hbreak ih => rw [cutBy, if_neg hbreak, ih]; exact hcrlf

@[simp] theorem flatten_cutBy (ends : Char → Bool) (cs : List Char) : (cutBy ends cs).flatten = cs := by
  fun_induction cutBy ends cs with
  | case1 => rfl
  | case2 rest ih => simp [ih]
  | case3 c rest _ _ ih => simp [ih]
  | case4 c rest _ _ ih => simp [flatten_extend, ih]

theorem cutBy_ne_nil (ends : Char → Bool) (h : cs ≠ []) : cutBy ends cs ≠ [] := by
  intro hnil
  have hflat := flatten_cutBy ends cs
  rw [hnil] at hflat
  exact h hflat.symm

/-- The last character of a line ends it. -/
def Ended (ends : Char → Bool) (line : List Char) : Prop := ∃ c, line.getLast? = some c ∧ ends c = true

instance (ends : Char → Bool) (line : List Char) : Decidable (Ended ends line) :=
  decidable_of_iff (line.getLast?.any ends = true) (by rw [Ended, Option.any_eq_true])

/-- A carriage return and a line feed are one break, other breaks stand alone. -/
theorem cutBy_cons_of_ends {c : Char} (hc : ends c = true) (hrest : ¬ (c = '\r' ∧ rest.head? = some '\n')) :
    cutBy ends (c :: rest) = [c] :: cutBy ends rest := by
  rw [cutBy, if_pos hc]
  rintro later rfl rfl
  exact hrest ⟨rfl, rfl⟩

theorem cutBy_cons_of_not_ends {c : Char} (hc : ends c = false) (hrest : ¬ (c = '\r' ∧ rest.head? = some '\n')) :
    cutBy ends (c :: rest) = extend c (cutBy ends rest) := by
  rw [cutBy, if_neg (by rw [hc]; exact Bool.false_ne_true)]
  rintro later rfl rfl
  exact hrest ⟨rfl, rfl⟩

/-- A text that ends in a break is cut by itself, whatever is put after it, a line feed apart. -/
theorem cutBy_append (hcs : ∀ c, cs.getLast? = some c → ends c = true) (hrest : rest.head? ≠ some '\n') :
    cutBy ends (cs ++ rest) = cutBy ends cs ++ cutBy ends rest := by
  fun_induction cutBy ends cs with
  | case1 => rfl
  | case2 later ih =>
      have hlater : ∀ c, later.getLast? = some c → ends c = true := fun c hc =>
        hcs c (by rw [List.getLast?_cons_cons, List.getLast?_cons, hc]; rfl)
      rw [List.cons_append, List.cons_append, cutBy, ih hlater, List.cons_append]
  | case3 c later hcrlf hbreak ih =>
      have hlater : ∀ d, later.getLast? = some d → ends d = true := fun d hd =>
        hcs d (by rw [List.getLast?_cons, hd]; rfl)
      rw [List.cons_append, cutBy_cons_of_ends hbreak, ih hlater, List.cons_append]
      rintro ⟨rfl, hfeed⟩
      cases later with
      | nil => exact hrest hfeed
      | cons d later =>
          rw [List.cons_append, List.head?_cons, Option.some.injEq] at hfeed
          exact hcrlf later rfl (by rw [hfeed])
  | case4 c later hcrlf hbreak ih =>
      -- A character that ends no line is not the last one.
      cases later with
      | nil => exact absurd (hcs c rfl) hbreak
      | cons d later =>
          rw [List.cons_append, cutBy_cons_of_not_ends (Bool.eq_false_iff.mpr hbreak),
            ih fun e he => hcs e (by rw [List.getLast?_cons_cons, he])]
          · obtain ⟨first, others, hcut⟩ :=
              List.exists_cons_of_ne_nil (cutBy_ne_nil ends (List.cons_ne_nil d later))
            rw [hcut]
            rfl
          · rintro ⟨rfl, hfeed⟩
            rw [List.cons_append, List.head?_cons, Option.some.injEq] at hfeed
            exact hcrlf later rfl (by rw [hfeed])

/-! ## Single lines -/

/-- A text that is one line, with or without a break at its end. -/
def IsLine (ends : Char → Bool) (line : List Char) : Prop := cutBy ends line = [line]

theorem IsLine.ne_nil (h : IsLine ends line) : line ≠ [] := by
  rintro rfl
  exact absurd h (List.cons_ne_nil _ _).symm

/-- What a text is cut into are lines. -/
theorem isLine_of_mem_cutBy (h : line ∈ cutBy ends cs) : IsLine ends line := by
  fun_induction cutBy ends cs generalizing line with
  | case1 => exact absurd h List.not_mem_nil
  | case2 later ih =>
      rcases List.mem_cons.mp h with rfl | h
      · rfl
      · exact ih h
  | case3 c later hcrlf hbreak ih =>
      rcases List.mem_cons.mp h with rfl | h
      · exact cutBy_cons_of_ends hbreak (by rw [List.head?_nil]; simp)
      · exact ih h
  | case4 c later hcrlf hbreak ih =>
      have hc := Bool.eq_false_iff.mpr hbreak
      cases hlater : cutBy ends later with
      | nil =>
          rw [hlater, extend, List.mem_singleton] at h
          rw [h]
          exact cutBy_cons_of_not_ends hc (by rw [List.head?_nil]; simp)
      | cons first others =>
          have hflat := flatten_cutBy ends later
          rw [hlater] at h ih hflat
          rw [extend, List.mem_cons] at h
          rcases h with rfl | h
          · have hfirst : IsLine ends first := ih List.mem_cons_self
            show cutBy ends (c :: first) = [c :: first]
            rw [cutBy_cons_of_not_ends hc, hfirst, extend]
            rintro ⟨rfl, hfeed⟩
            obtain ⟨tail, rfl⟩ := List.head?_eq_some_iff.mp hfeed
            exact hcrlf (tail ++ others.flatten) rfl (by rw [← hflat]; rfl)
          · exact ih (List.mem_cons_of_mem first h)

/-- A mark in front of a line does not break it. -/
theorem IsLine.cons {mark : Char} (h : IsLine ends line) (hmark : ends mark = false) (hreturn : mark ≠ '\r') :
    IsLine ends (mark :: line) := by
  show cutBy ends (mark :: line) = [mark :: line]
  rw [cutBy_cons_of_not_ends hmark fun hboth => hreturn hboth.1, h, extend]

/-- Characters of which none ends a line, and a line feed. -/
theorem isLine_append_feed (hfeed : ends '\n' = true) (h : ∀ c ∈ cs, ends c = false) :
    IsLine ends (cs ++ ['\n']) := by
  induction cs with
  | nil => exact cutBy_cons_of_ends hfeed (by rw [List.head?_nil]; simp)
  | cons c cs ih =>
      rw [List.forall_mem_cons] at h
      show cutBy ends (c :: (cs ++ ['\n'])) = [c :: (cs ++ ['\n'])]
      by_cases hreturn : c = '\r' ∧ cs = []
      · obtain ⟨rfl, rfl⟩ := hreturn
        rfl
      · rw [cutBy_cons_of_not_ends h.1, ih h.2, extend]
        rintro ⟨rfl, hhead⟩
        cases cs with
        | nil => exact hreturn ⟨rfl, rfl⟩
        | cons d cs =>
            rw [List.cons_append, List.head?_cons, Option.some.injEq] at hhead
            rw [List.forall_mem_cons, hhead, hfeed] at h
            exact absurd h.2.1 Bool.noConfusion

/-- Lines that are put together are cut where they were put together. -/
theorem cutBy_flatten {ls : List (List Char)} (hlines : ∀ line ∈ ls, IsLine ends line)
    (hfeed : ∀ line ∈ ls, line.head? ≠ some '\n') (hended : ∀ line ∈ ls.dropLast, Ended ends line) :
    cutBy ends ls.flatten = ls := by
  induction ls with
  | nil => rfl
  | cons line ls ih =>
      rw [List.forall_mem_cons] at hlines hfeed
      cases ls with
      | nil => rw [List.flatten_cons, List.flatten_nil, List.append_nil]; exact hlines.1
      | cons next ls =>
          rw [List.dropLast_cons_cons, List.forall_mem_cons] at hended
          have hrest := ih hlines.2 hfeed.2 hended.2
          have hhead : (next :: ls).flatten.head? ≠ some '\n' := by
            have hnext := hfeed.2 next List.mem_cons_self
            obtain ⟨c, tail, hcons⟩ :=
              List.exists_cons_of_ne_nil (hlines.2 next List.mem_cons_self).ne_nil
            rw [List.flatten_cons, hcons, List.cons_append, List.head?_cons]
            rwa [hcons, List.head?_cons] at hnext
          rw [List.flatten_cons, cutBy_append _ hhead, hrest, hlines.1]
          · rfl
          · intro c hc
            obtain ⟨last, hlast, hends⟩ := hended.1
            rw [hlast, Option.some.injEq] at hc
            rwa [← hc]

theorem Ended.cons (h : Ended ends line) (c : Char) : Ended ends (c :: line) := by
  obtain ⟨last, hlast, hends⟩ := h
  exact ⟨last, by rw [List.getLast?_cons, hlast]; rfl, hends⟩

theorem eq_or_mem_dropLast {α : Type} {x a : α} {xs : List α} (h : x ∈ (a :: xs).dropLast) :
    x = a ∨ x ∈ xs.dropLast := by
  cases xs with
  | nil => exact absurd h List.not_mem_nil
  | cons b xs => rwa [List.dropLast_cons_cons, List.mem_cons] at h

/-- What a text is cut into ends in a break, the last line apart. -/
theorem ended_of_mem_dropLast_cutBy (hfeed : ends '\n' = true) (h : line ∈ (cutBy ends cs).dropLast) :
    Ended ends line := by
  fun_induction cutBy ends cs generalizing line with
  | case1 => exact absurd h List.not_mem_nil
  | case2 later ih =>
      rcases eq_or_mem_dropLast h with rfl | h
      · exact ⟨'\n', rfl, hfeed⟩
      · exact ih h
  | case3 c later _ hbreak ih =>
      rcases eq_or_mem_dropLast h with rfl | h
      · exact ⟨c, rfl, hbreak⟩
      · exact ih h
  | case4 c later _ _ ih =>
      cases hlater : cutBy ends later with
      | nil =>
          rw [hlater] at h
          exact absurd h List.not_mem_nil
      | cons first others =>
          rw [hlater] at h ih
          cases others with
          | nil => exact absurd h List.not_mem_nil
          | cons second others =>
              rw [List.dropLast_cons_cons] at ih
              rw [extend, List.dropLast_cons_cons, List.mem_cons] at h
              rcases h with rfl | h
              · exact (ih List.mem_cons_self).cons c
              · exact ih (List.mem_cons_of_mem first h)

/-- A text that ends in a break is cut into lines that all do. -/
theorem ended_of_mem_cutBy (hfeed : ends '\n' = true) (hcs : ∀ c, cs.getLast? = some c → ends c = true)
    (h : line ∈ cutBy ends cs) : Ended ends line := by
  -- With something put after it, its last line is no longer the last one.
  have hmem : line ∈ (cutBy ends (cs ++ [' '])).dropLast := by
    rw [cutBy_append hcs (by decide), List.dropLast_append_of_ne_nil (cutBy_ne_nil ends (List.cons_ne_nil _ _))]
    exact List.mem_append_left _ h
  exact ended_of_mem_dropLast_cutBy hfeed hmem

/-- Lines that are put together are cut where they were put together exactly when all but the last one end in a
break. -/
theorem cutBy_flatten_iff {ls : List (List Char)} (hends : ends '\n' = true)
    (hlines : ∀ line ∈ ls, IsLine ends line) (hfeed : ∀ line ∈ ls, line.head? ≠ some '\n') :
    cutBy ends ls.flatten = ls ↔ ∀ line ∈ ls.dropLast, Ended ends line := by
  constructor
  · intro h line hline
    rw [← h] at hline
    exact ended_of_mem_dropLast_cutBy hends hline
  · exact cutBy_flatten hlines hfeed

end IdiomLint.Lines
