import IdiomLint.Text.Blank
import IdiomLint.Text.Lines

/-!
# Comma lists

Items separated by commas. White space around an item does not belong to it, and there are no empty
items.
-/

namespace IdiomLint.CommaList

/-- The pieces between commas; there is one more than commas. -/
def pieces : List Char → List (List Char)
  | [] => [[]]
  | c :: rest => if c = ',' then [] :: pieces rest else Lines.extend c (pieces rest)

theorem pieces_ne_nil (cs : List Char) : pieces cs ≠ [] := by
  cases cs with
  | nil => simp [pieces]
  | cons c rest =>
    simp only [pieces]
    split
    · simp
    · cases pieces rest <;> simp [Lines.extend]

/-- Writing a comma between the pieces gives the text back. -/
theorem intercalate_pieces (cs : List Char) : [','].intercalate (pieces cs) = cs := by
  induction cs with
  | nil => rfl
  | cons c rest ih =>
    obtain ⟨piece, more, h⟩ := List.exists_cons_of_ne_nil (pieces_ne_nil rest)
    simp only [pieces]
    split
    · rename_i hc
      rw [h] at ih ⊢
      simp [List.intercalate_cons_cons, ih, hc]
    · rw [h] at ih ⊢
      cases more <;> simp_all [Lines.extend, List.intercalate_cons_cons]

/-- The items of a comma list. -/
def items (cs : List Char) : List String :=
  (((pieces cs).map (Blank.trimBoth Blank.isBlank)).filter (!·.isEmpty)).map String.ofList

end IdiomLint.CommaList
