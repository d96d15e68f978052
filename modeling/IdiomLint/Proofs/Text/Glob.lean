import IdiomLint.Config.Basic

/-!
# What globs match

A star stands for any text, and behind `*/` a glob matches the texts that have a slash with a matching text after it
(`matchesText_behindSlash`). A setting that is a list of texts is tried glob by glob (`anyGlob_texts`).
-/

namespace IdiomLint

namespace Glob

theorem mem_suffixes {α : Type} {as bs : List α} : bs ∈ suffixes as ↔ bs <:+ as := by
  induction as with
  | nil => rw [suffixes, List.mem_singleton, List.suffix_nil]
  | cons a as ih => rw [suffixes, List.mem_cons, ih, List.suffix_cons_iff]

/-! ## Items -/

theorem items_star (glob : List Char) : items ('*' :: glob) = .star :: items glob := rfl

theorem items_slash (glob : List Char) : items ('/' :: glob) = .char '/' :: items glob := rfl

/-- A star stands for what is in front of some end of a text. -/
theorem matchItems_star {rest : List GlobItem} {cs : List Char} :
    matchItems (.star :: rest) cs = true ↔ ∃ front tail, cs = front ++ tail ∧ matchItems rest tail = true := by
  rw [matchItems, List.any_eq_true]
  constructor
  · rintro ⟨tail, htail, hmatch⟩
    obtain ⟨front, rfl⟩ := mem_suffixes.mp htail
    exact ⟨front, tail, rfl, hmatch⟩
  · rintro ⟨front, tail, rfl, hmatch⟩
    exact ⟨tail, mem_suffixes.mpr (List.suffix_append front tail), hmatch⟩

theorem matchItems_char {c : Char} {rest : List GlobItem} {cs : List Char} :
    matchItems (.char c :: rest) cs = true ↔ ∃ tail, cs = c :: tail ∧ matchItems rest tail = true := by
  cases cs with
  | nil => simp [matchItems]
  | cons d tail => simp [matchItems, accepts, and_assoc]

/-! ## Texts -/

/-- The star matches every text. -/
theorem matchesText_everything (text : String) : matchesText "*" text = true := by
  rw [matchesText_eq]
  exact matchItems_star.mpr ⟨text.toList, [], (List.append_nil _).symm, rfl⟩

/-- Behind `*/` a glob matches what it matches after some slash. -/
theorem matchesText_behindSlash {glob text : String} :
    matchesText ("*/" ++ glob) text = true ↔
      ∃ front rest, text.toList = front ++ '/' :: rest ∧ matchesText glob (String.ofList rest) = true := by
  have hitems : items ("*/" ++ glob).toList = .star :: .char '/' :: items glob.toList := by
    rw [String.toList_append]
    exact (items_star _).trans (congrArg _ (items_slash _))
  simp only [matchesText_eq, hitems, matchItems_star, matchItems_char, String.toList_ofList]
  constructor
  · rintro ⟨front, _, htext, rest, rfl, hmatch⟩
    exact ⟨front, rest, htext, hmatch⟩
  · rintro ⟨front, rest, htext, hmatch⟩
    exact ⟨front, '/' :: rest, htext, rest, rfl, hmatch⟩

end Glob

/-- Globs that are texts can all be tried. -/
theorem Datum.anyGlob_texts (test : String → Bool) (globs : List String) :
    Datum.anyGlob test (globs.map .text) = .ok (globs.any test) := by
  induction globs with
  | nil => rfl
  | cons glob globs ih =>
      rw [List.map_cons, anyGlob, ih, List.any_cons]
      cases test glob with
      | true => rfl
      | false => rfl

end IdiomLint
