import Mathlib.Data.List.Flatten
import IdiomLint.Text.Lines

/-!
# Universal line breaks

Reading a text turns each of the three common line breaks into a line feed. It does so line by line
(`flatMap_universal`), and a line stays as it is exactly when there is no carriage return in it
(`joinUniversal_eq_self`).
-/

namespace IdiomLint.Lines

/-- The lines of a text, each with the line feed, the carriage return or both that end it. -/
def universal : List Char → List (List Char)
  | [] => []
  | '\r' :: '\n' :: rest => ['\r', '\n'] :: universal rest
  | c :: rest => if c = '\n' ∨ c = '\r' then [c] :: universal rest else extend c (universal rest)

@[simp] theorem flatten_universal (cs : List Char) : (universal cs).flatten = cs := by
  fun_induction universal cs with
  | case1 => rfl
  | case2 rest ih => simp [ih]
  | case3 c rest _ _ ih => simp [ih]
  | case4 c rest _ _ ih => simp [flatten_extend, ih]

theorem joinUniversal_cons {c : Char} (h : c ≠ '\r') (cs : List Char) :
    joinUniversal (c :: cs) = c :: joinUniversal cs := by
  rw [joinUniversal, if_neg h]
  simp [h]

theorem flatMap_extend {c : Char} (h : c ≠ '\r') (ls : List (List Char)) :
    (extend c ls).flatMap joinUniversal = c :: ls.flatMap joinUniversal := by
  cases ls with
  | nil => simp [extend, joinUniversal_cons h, joinUniversal]
  | cons line rest => simp [extend, joinUniversal_cons h]

/-- Line breaks are replaced line by line. -/
theorem flatMap_universal (cs : List Char) :
    (universal cs).flatMap joinUniversal = joinUniversal cs := by
  fun_induction universal cs with
  | case1 => rfl
  | case2 rest ih => rw [List.flatMap_cons, ih]; rfl
  | case3 c rest hcrlf hbreak ih =>
      rw [List.flatMap_cons, ih]
      rcases hbreak with rfl | rfl
      · rfl
      -- A carriage return alone: what follows is no line feed.
      · have hbreak : joinUniversal ('\r' :: rest) = '\n' :: joinUniversal rest := by
          rw [joinUniversal, if_pos rfl]
          exact hcrlf
        rw [hbreak]
        rfl
  | case4 c rest _ hbreak ih =>
      rw [not_or] at hbreak
      rw [flatMap_extend hbreak.2, ih, joinUniversal_cons hbreak.2]

theorem not_mem_joinUniversal (cs : List Char) : '\r' ∉ joinUniversal cs := by
  fun_induction joinUniversal cs with
  | case1 => exact List.not_mem_nil
  | case2 rest ih => simp [ih]
  | case3 c rest _ ih =>
      rw [List.mem_cons, not_or]
      refine ⟨?_, ih⟩
      split
      · decide
      · next hc => exact fun h => hc h.symm

theorem joinUniversal_of_not_mem {cs : List Char} (h : '\r' ∉ cs) : joinUniversal cs = cs := by
  induction cs with
  | nil => rfl
  | cons c cs ih =>
      rw [List.mem_cons, not_or] at h
      rw [joinUniversal_cons (Ne.symm h.1), ih h.2]

/-- What stays as it is when line breaks are replaced. -/
theorem joinUniversal_eq_self {cs : List Char} : joinUniversal cs = cs ↔ '\r' ∉ cs := by
  constructor
  · intro h
    rw [← h]
    exact not_mem_joinUniversal cs
  · exact joinUniversal_of_not_mem

/-- No line is empty. -/
theorem ne_nil_of_mem_universal {cs line : List Char} (h : line ∈ universal cs) : line ≠ [] := by
  fun_induction universal cs with
  | case1 => exact absurd h List.not_mem_nil
  | case2 rest ih =>
      rcases List.mem_cons.mp h with rfl | h
      · simp
      · exact ih h
  | case3 c rest _ _ ih =>
      rcases List.mem_cons.mp h with rfl | h
      · simp
      · exact ih h
  | case4 c rest _ _ ih =>
      cases hrest : universal rest with
      | nil =>
          rw [hrest, extend, List.mem_singleton] at h
          simp [h]
      | cons first others =>
          rw [hrest, extend, List.mem_cons] at h
          rcases h with rfl | h
          · simp
          · exact ih (by rw [hrest]; exact List.mem_cons_of_mem first h)

theorem joinUniversal_ne_nil {cs : List Char} (h : cs ≠ []) : joinUniversal cs ≠ [] := by
  fun_cases joinUniversal cs with
  | case1 => exact absurd rfl h
  | case2 rest => simp
  | case3 c rest _ => simp

end IdiomLint.Lines
