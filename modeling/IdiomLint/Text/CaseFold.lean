/-!
# Letters without case

Where case does not matter, a text is compared with lower-case ASCII words. Beyond the ASCII letters
themselves, the dotted and the dotless i, the long s and the Kelvin sign count as the letters they are
variants of.
-/

namespace IdiomLint.CaseFold

/-- The lower-case ASCII letter that a character counts as; every other character counts as itself. -/
def fold (c : Char) : Char :=
  if c = '\u0130' ∨ c = '\u0131' then 'i'
  else if c = '\u017f' then 's'
  else if c = '\u212a' then 'k'
  else c.toLower

/-- What follows a word at the front of a text, case aside. -/
def after? : List Char → List Char → Option (List Char)
  | [], cs => some cs
  | _ :: _, [] => none
  | w :: ws, c :: cs => if fold c = w then after? ws cs else none

theorem after?_eq_some {ws cs tail : List Char} :
    after? ws cs = some tail ↔ ∃ front, cs = front ++ tail ∧ front.map fold = ws := by
  induction ws generalizing cs with
  | nil => simp [after?, eq_comm]
  | cons w ws ih =>
    cases cs with
    | nil => simp [after?]
    | cons c cs =>
      simp only [after?]
      constructor
      · intro h
        split at h
        · obtain ⟨front, rfl, hf⟩ := ih.1 h
          exact ⟨c :: front, rfl, by simp [*]⟩
        · simp at h
      · rintro ⟨front, hc, hf⟩
        cases front with
        | nil => simp at hf
        | cons d front =>
          simp only [List.map_cons, List.cons.injEq, List.cons_append] at hc hf
          obtain ⟨rfl, rfl⟩ := hc
          rw [if_pos hf.1]
          exact ih.2 ⟨front, rfl, hf.2⟩

end IdiomLint.CaseFold
