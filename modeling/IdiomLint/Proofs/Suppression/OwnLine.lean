import IdiomLint.Proofs.Suppression.Comment

/-!
# A finding is suppressed on its own line

Lines are numbered in characters and looked up by a number that is counted in bytes. Both numberings say the same
(`lineAt_of_covers`), so the line that is asked is the one whose bytes hold the offset. Main statement:
`suppressed_on_own_line`.
-/

namespace IdiomLint

namespace Position

open Utf8 (encodeChars width)

/-! ## The line that holds an offset -/

/-- A line holds an offset: the offset lies among the bytes of the line and of the line feed after it. What lies
in front of the text belongs to its first line, and what lies behind it to its last one. -/
structure Holds (before line after : List Char) (offset : Int) : Prop where
  first : before = [] ∨ (width before : Int) ≤ offset
  last : after = [] ∨ offset < width before + width line + 1

/-- Every offset belongs to a line. -/
theorem exists_holds (cs : List Char) (offset : Int) : ∃ before line after number,
    IsLine cs before line after number ∧ Holds before line after offset := by
  -- By induction on the lines: an offset behind the first line belongs to one of the others.
  induction hn : cs.length using Nat.strongRecOn generalizing cs offset with
  | ind n ih =>
    subst hn
    obtain ⟨first, rest, rfl, hfirst, hrest⟩ := exists_firstLine cs
    have hwhole : IsLine (first ++ rest) [] first rest 1 := ⟨rfl, Or.inl rfl, hfirst, hrest, rfl⟩
    rcases hrest with rfl | ⟨later, rfl⟩
    · exact ⟨[], first, [], 1, hwhole, Or.inl rfl, Or.inl rfl⟩
    by_cases hoffset : offset < width first + 1
    · exact ⟨[], first, '\n' :: later, 1, hwhole, Or.inl rfl, Or.inr (by simpa using hoffset)⟩
    obtain ⟨before, line, after, number, hline, hholds⟩ :=
      ih later.length (by simp; omega) later (offset - (width first + 1)) rfl
    have hwidth : (width (first ++ '\n' :: before) : Int) = width first + 1 + width before := by
      have hone : width ('\n' :: before) = 1 + width before := Utf8.width_append ['\n'] before
      rw [Utf8.width_append, hone]
      omega
    refine ⟨first ++ '\n' :: before, line, after, _, ⟨?_, Or.inr ?_, hline.whole, hline.last, rfl⟩, Or.inr ?_, ?_⟩
    · rw [hline.text]
      simp
    · rcases hline.first with rfl | ⟨earlier, rfl⟩
      · exact ⟨first, rfl⟩
      · exact ⟨first ++ '\n' :: earlier, by simp⟩
    · rw [hwidth]
      rcases hholds.first with rfl | hfirst
      · rw [Utf8.width_nil]
        omega
      · omega
    · rw [hwidth]
      exact hholds.last.imp_right fun hlast => by omega

/-- The line feeds before an offset are those before its line. -/
theorem lineAt_of_holds {cs before line after : List Char} {number : Nat} {offset : Int}
    (hline : IsLine cs before line after number) (h : Holds before line after offset) :
    lineAt (encodeChars cs) offset = number := by
  have hfront : (encodeChars before).take offset.toNat = encodeChars before := by
    rcases h.first with rfl | hfirst
    · simp
    · exact List.take_of_length_le (by rw [← width]; omega)
  -- What is taken of the line and of what follows it has no line feed.
  have hback : newline ∉ (encodeChars line ++ encodeChars after).take (offset.toNat - width before) := by
    rcases h.last with rfl | hlast
    · rw [Utf8.encodeChars_nil, List.append_nil]
      exact fun hmem => newline_not_mem_encodeChars hline.whole (List.mem_of_mem_take hmem)
    · rw [List.take_append_of_le_length (by rw [← width]; omega)]
      exact fun hmem => newline_not_mem_encodeChars hline.whole (List.mem_of_mem_take hmem)
  rw [lineAt, hline.text, List.append_assoc, Utf8.encodeChars_append, Utf8.encodeChars_append, List.take_append,
    hfront, List.count_append, count_newline, ← width, List.count_eq_zero.mpr hback, Nat.add_zero, hline.number]

end Position

namespace Suppression

open Position (IsLine Holds)

/-! ## The patterns of a line -/

/-- The patterns on the lines of a text, when one line is set apart. -/
theorem table_of_isLine {text : String} {before line after : List Char} {number : Nat}
    (h : IsLine text.toList before line after number) :
    table text = ((before.splitOn '\n').dropLast.map patternsOf) ++ patternsOf line ::
      ((after.splitOn '\n').tail.map patternsOf) := by
  rw [table, Lines.atNewlines_eq_splitOn, h.text, splitOn_between h.first h.whole h.last, List.map_append,
    List.map_cons]

/-- The patterns that are looked up under the number of a line are those of the line. -/
theorem patternsAt_of_isLine {text : String} {before line after : List Char} {number : Nat}
    (h : IsLine text.toList before line after number) : patternsAt text number = patternsOf line := by
  have hplace : number - 1 = ((before.splitOn '\n').dropLast.map patternsOf).length := by
    rw [List.length_map, length_dropLast_splitOn, ← h.number, Nat.add_sub_cancel]
  rw [patternsAt, table_of_isLine h, hplace, List.getElem?_append_right (Nat.le_refl _), Nat.sub_self]
  rfl

theorem isSuppressed_of_holds {text : String} {before line after : List Char} {number : Nat} {offset : Int}
    (hline : IsLine text.toList before line after number) (h : Holds before line after offset) (rule : String) :
    isSuppressed text rule offset = true ↔ NamedOn line rule := by
  rw [isSuppressed, Utf8.encode, Position.lineAt_of_holds hline h, patternsAt_of_isLine hline, any_patternsOf]

/-- The line that holds an offset names a rule. -/
def NamedAt (text rule : String) (offset : Int) : Prop :=
  ∃ before line after number, IsLine text.toList before line after number ∧ Holds before line after offset ∧
    NamedOn line rule

theorem isSuppressed_eq_true {text rule : String} {offset : Int} :
    isSuppressed text rule offset = true ↔ NamedAt text rule offset := by
  constructor
  · intro h
    obtain ⟨before, line, after, number, hline, hholds⟩ := Position.exists_holds text.toList offset
    exact ⟨before, line, after, number, hline, hholds, (isSuppressed_of_holds hline hholds rule).mp h⟩
  · rintro ⟨before, line, after, number, hline, hholds, hnamed⟩
    exact (isSuppressed_of_holds hline hholds rule).mpr hnamed

open Classical in
/-- Every offset belongs to a line, and a rule is suppressed at the offset exactly when a comment on that line
names it. So nothing but the line counts: the same line of another text, wherever it stands there, gives the same
answer. The findings that are kept are all but those that are named on their line, in order. -/
theorem suppressed_on_own_line (text : String) :
    (∀ offset, ∃ before line after number, IsLine text.toList before line after number ∧
      Holds before line after offset) ∧
    (∀ rule offset before line after number, IsLine text.toList before line after number →
      Holds before line after offset → (isSuppressed text rule offset = true ↔ NamedOn line rule)) ∧
    (∀ other rule offset offset' before line after before' after' number number',
      IsLine text.toList before line after number → Holds before line after offset →
      IsLine other.toList before' line after' number' → Holds before' line after' offset' →
      isSuppressed other rule offset' = isSuppressed text rule offset) ∧
    ∀ findings, keep text findings = findings.filter fun f => ¬ NamedAt text f.rule f.start := by
  refine ⟨Position.exists_holds text.toList, ?_, ?_, ?_⟩
  · intro rule offset before line after number hline hholds
    exact isSuppressed_of_holds hline hholds rule
  · intro other rule offset offset' before line after before' after' number number' hline hholds hline' hholds'
    rw [Bool.eq_iff_iff, isSuppressed_of_holds hline hholds, isSuppressed_of_holds hline' hholds']
  · intro findings
    refine List.filter_congr fun f _ => ?_
    by_cases hnamed : NamedAt text f.rule f.start
    · simp [hnamed, isSuppressed_eq_true.mpr hnamed]
    · have hnot : isSuppressed text f.rule f.start = false := by
        rw [← Bool.not_eq_true, isSuppressed_eq_true]
        exact hnamed
      simp [hnamed, hnot]

/-- A line with two comments, in different spellings. -/
def commentedLine : List Char := "x # factorylint: ignore[a.*, b] # FactoryLint:IGNORE [c]".toList

/-- The line behind a line with a character of two bytes. -/
def commentedText : String := String.ofList ("é\n".toList ++ commentedLine ++ "\ny\n".toList)

/-- The glob in the first comment suppresses a rule at the first byte of the line, and the line does the same where
it is the last one of a text. -/
theorem suppressed_on_own_line_glob :
    IsLine commentedText.toList "é\n".toList commentedLine "\ny\n".toList 2 ∧
      Holds "é\n".toList commentedLine "\ny\n".toList 3 ∧ NamedOn commentedLine "a.b" ∧
      isSuppressed commentedText "a.b" 3 = true ∧
      isSuppressed (String.ofList ("\n".toList ++ commentedLine ++ [])) "a.b" 99 = true := by
  have hline : IsLine commentedText.toList "é\n".toList commentedLine "\ny\n".toList 2 :=
    ⟨String.toList_ofList, Or.inr ⟨['é'], by decide⟩, by decide, Or.inr ⟨['y', '\n'], by decide⟩, by decide⟩
  have hholds : Holds "é\n".toList commentedLine "\ny\n".toList 3 := ⟨Or.inr (by decide), Or.inr (by decide)⟩
  have hother : IsLine (String.ofList ("\n".toList ++ commentedLine ++ [])).toList "\n".toList commentedLine [] 2 :=
    ⟨String.toList_ofList, Or.inr ⟨[], by decide⟩, by decide, Or.inl rfl, by decide⟩
  have hbehind : Holds "\n".toList commentedLine [] 99 := ⟨Or.inr (by decide), Or.inl rfl⟩
  have hnamed : NamedOn commentedLine "a.b" := any_patternsOf.mp (by decide +kernel)
  obtain ⟨_, hown, hsame, _⟩ := suppressed_on_own_line commentedText
  have hsuppressed := (hown "a.b" 3 _ _ _ _ hline hholds).mpr hnamed
  refine ⟨hline, hholds, hnamed, hsuppressed, ?_⟩
  rw [hsame _ "a.b" 3 99 _ _ _ _ _ _ _ hline hholds hother hbehind, hsuppressed]

end Suppression

end IdiomLint
