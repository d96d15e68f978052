import Mathlib.Data.List.Induction
import IdiomLint.Proofs.Text.Utf8
import IdiomLint.Text.Position

/-!
# One place, said in three ways

The bytes before an offset are the characters before it and the beginning of the character that the offset
cuts apart, if it cuts one apart (`exists_cut`). The beginning of a character has no line feed in it and is
no character itself, so counting lines in bytes and in characters comes to the same, and the columns
differ by the cut character only. Main statement: `positions_agree`.
-/

namespace IdiomLint

namespace Utf8

/-! ## The beginning of a character -/

/-- The bytes are the beginning of the first of some characters, and not all of it. -/
def Begins (bytes : List UInt8) (cs : List Char) : Prop :=
  ∃ c tail more, cs = c :: tail ∧ more ≠ [] ∧ String.utf8EncodeChar c = bytes ++ more

/-- A character that some bytes complete is still open before them. -/
theorem piecesFrom_some_of_char {front back : List UInt8} {c : Char} (hback : back ≠ []) :
    ∀ {p : Partial}, piecesFrom (some p) (front ++ back) = [.char c] →
      ∃ bytes why, piecesFrom (some p) front = [.broken bytes why] := by
  induction front with
  | nil => exact fun _ => ⟨_, _, rfl⟩
  | cons b front ih =>
      intro p h
      rw [List.cons_append, piecesFrom] at h
      rw [piecesFrom]
      split at h
      -- The piece that the byte completes is the last one, but bytes are still to come.
      · have hnil := piecesFrom_none_eq_nil (List.cons.inj h).2
        exact absurd (List.append_eq_nil_iff.mp hnil).2 hback
      · exact ih h
      · exact absurd (List.cons.inj h).1 (by simp)

/-- The beginning of a character is no character. -/
theorem soundChars_of_begins {bytes : List UInt8} {cs : List Char} (h : Begins bytes cs) :
    soundChars bytes = [] := by
  obtain ⟨c, _, more, _, hmore, hc⟩ := h
  have hwhole := piecesFrom_utf8EncodeChar c []
  rw [List.append_nil, hc, piecesFrom] at hwhole
  cases bytes with
  | nil => rfl
  | cons b bytes =>
      rw [List.cons_append, piecesFrom] at hwhole
      rw [soundChars, pieces, piecesFrom]
      split at hwhole
      · have hnil := piecesFrom_none_eq_nil (List.cons.inj hwhole).2
        exact absurd (List.append_eq_nil_iff.mp hnil).2 hmore
      · obtain ⟨_, _, hbroken⟩ := piecesFrom_some_of_char hmore hwhole
        rw [hbroken]
        rfl

/-- Whole characters in front of some bytes are read as what they are. -/
theorem soundChars_append (cs : List Char) (bytes : List UInt8) :
    soundChars (encodeChars cs ++ bytes) = cs ++ soundChars bytes := by
  induction cs with
  | nil => rfl
  | cons c cs ih =>
      rw [soundChars, pieces] at ih ⊢
      rw [encodeChars_cons, List.append_assoc, piecesFrom_utf8EncodeChar, List.filterMap_cons, ih]
      rfl

theorem length_lt_of_begins {bytes : List UInt8} {cs : List Char} (h : Begins bytes cs) :
    bytes.length < 4 ∧ ∀ offset, bytes.length = offset → Boundary cs offset → offset = 0 := by
  obtain ⟨c, tail, more, rfl, hmore, hc⟩ := h
  have hlength := congrArg List.length hc
  have hpos := List.length_pos_iff.mpr hmore
  have hsize := c.utf8Size_le_four
  rw [List.length_append, String.length_utf8EncodeChar] at hlength
  refine ⟨by omega, ?_⟩
  rintro offset rfl hboundary
  rcases boundary_cons.mp hboundary with hzero | ⟨hle, _⟩
  · exact hzero
  · rw [width, encodeChars_cons, encodeChars_nil, List.append_nil, String.length_utf8EncodeChar] at hle
    omega

/-! ## Cutting a text -/

/-- The bytes before an offset are those of whole characters and of a character that is cut apart, if there
is one. -/
theorem exists_cut (cs : List Char) : ∀ offset, offset ≤ width cs →
    ∃ front back rest, cs = front ++ back ∧ (encodeChars cs).take offset = encodeChars front ++ rest ∧
      width front + rest.length = offset ∧ (rest = [] ∨ Begins rest back) := by
  induction cs with
  | nil =>
      intro offset hoffset
      rw [width_nil] at hoffset
      exact ⟨[], [], [], rfl, by simp, by simp; omega, Or.inl rfl⟩
  | cons c cs ih =>
      intro offset hoffset
      have hwidth : width (c :: cs) = (String.utf8EncodeChar c).length + width cs := by
        rw [width, encodeChars_cons, List.length_append, width]
      rcases Nat.lt_or_ge offset (String.utf8EncodeChar c).length with hlt | hle
      · have htake : (String.utf8EncodeChar c ++ encodeChars cs).take offset =
            (String.utf8EncodeChar c).take offset := List.take_append_of_le_length (Nat.le_of_lt hlt)
        refine ⟨[], c :: cs, (String.utf8EncodeChar c).take offset, rfl, htake, ?_, Or.inr ?_⟩
        · rw [width_nil, List.length_take]
          omega
        · refine ⟨c, cs, (String.utf8EncodeChar c).drop offset, rfl, ?_, (List.take_append_drop _ _).symm⟩
          rw [← List.length_pos_iff, List.length_drop]
          omega
      · obtain ⟨front, back, rest, rfl, htake, hplace, hrest⟩ :=
          ih (offset - (String.utf8EncodeChar c).length) (by omega)
        refine ⟨c :: front, back, rest, rfl, ?_, ?_, hrest⟩
        · rw [encodeChars_cons, List.take_append, List.take_of_length_le hle, htake, encodeChars_cons,
            List.append_assoc]
        · have hcons : width (c :: front) = (String.utf8EncodeChar c).length + width front := by
            rw [width, encodeChars_cons, List.length_append, width]
          omega

end Utf8

namespace Position

open Utf8 (encodeChars width Begins Boundary)

/-! ## Line feeds in bytes and in characters -/

theorem newline_mem {c : Char} (h : newline ∈ String.utf8EncodeChar c) : c = '\n' :=
  Utf8.eq_of_ascii_mem (show 10 < 0x80 by decide) h

theorem newline_not_mem_of_begins {bytes : List UInt8} {cs : List Char} (h : Begins bytes cs) :
    newline ∉ bytes := by
  obtain ⟨c, _, more, _, hmore, hc⟩ := h
  intro hmem
  have hline : c = '\n' := newline_mem (by rw [hc]; exact List.mem_append_left _ hmem)
  -- The line feed is a single byte, so nothing of it would be missing.
  have hlength := congrArg List.length hc
  have hone : (String.utf8EncodeChar '\n').length = 1 := by decide
  have hbytes := List.length_pos_of_mem hmem
  have hpos := List.length_pos_iff.mpr hmore
  rw [hline, hone, List.length_append] at hlength
  omega

/-- Bytes have as many line feeds as the characters that they encode. -/
theorem count_newline (cs : List Char) : (encodeChars cs).count newline = cs.count '\n' := by
  induction cs with
  | nil => rfl
  | cons c cs ih =>
      rw [Utf8.encodeChars_cons, List.count_append, ih]
      by_cases hc : c = '\n'
      · subst hc
        have hone : (String.utf8EncodeChar '\n').count newline = 1 := by decide
        rw [hone, List.count_cons_self, Nat.add_comm]
      · rw [List.count_eq_zero.mpr fun h => hc (newline_mem h), Nat.zero_add, List.count_cons_of_ne hc]

theorem newline_not_mem_encodeChars {cs : List Char} (h : '\n' ∉ cs) : newline ∉ encodeChars cs := by
  rw [← List.count_eq_zero, count_newline]
  exact List.count_eq_zero.mpr h

/-! ## The line in which an offset lies -/

/-- Nothing, or something that ends with `x`. -/
def EndsWith {α : Type} (x : α) (xs : List α) : Prop := xs = [] ∨ ∃ earlier, xs = earlier ++ [x]

/-- What stands after the last of the items that are equal to `x`. -/
theorem afterLast_append {α : Type} [BEq α] [LawfulBEq α] {x : α} {head tail : List α}
    (hhead : EndsWith x head) (htail : x ∉ tail) : afterLast (· == x) (head ++ tail) = tail := by
  have hothers : ∀ y ∈ tail.reverse, (!(y == x)) = true := by
    intro y hy
    rw [Bool.not_eq_true', beq_eq_false_iff_ne]
    rintro rfl
    exact htail (List.mem_reverse.mp hy)
  rw [afterLast, List.reverse_append, List.takeWhile_append_of_pos hothers]
  rcases hhead with rfl | ⟨earlier, rfl⟩
  · simp
  · simp

/-- Every text is cut after its last line feed. -/
theorem exists_lastLine (cs : List Char) :
    ∃ head tail, cs = head ++ tail ∧ EndsWith '\n' head ∧ '\n' ∉ tail := by
  induction cs using List.reverseRecOn with
  | nil => exact ⟨[], [], rfl, Or.inl rfl, List.not_mem_nil⟩
  | append_singleton cs c ih =>
      obtain ⟨head, tail, rfl, hhead, htail⟩ := ih
      by_cases hc : c = '\n'
      · exact ⟨head ++ tail ++ [c], [], by simp, Or.inr ⟨head ++ tail, by rw [hc]⟩, List.not_mem_nil⟩
      · refine ⟨head, tail ++ [c], by simp, hhead, ?_⟩
        rw [List.mem_append, List.mem_singleton, not_or]
        exact ⟨htail, fun h => hc h.symm⟩

/-- Every text is cut before its first line feed. -/
theorem exists_firstLine (cs : List Char) :
    ∃ head tail, cs = head ++ tail ∧ '\n' ∉ head ∧ (tail = [] ∨ ∃ later, tail = '\n' :: later) := by
  induction cs with
  | nil => exact ⟨[], [], rfl, List.not_mem_nil, Or.inl rfl⟩
  | cons c cs ih =>
      by_cases hc : c = '\n'
      · exact ⟨[], c :: cs, rfl, List.not_mem_nil, Or.inr ⟨cs, by rw [hc]⟩⟩
      · obtain ⟨head, tail, rfl, hhead, htail⟩ := ih
        refine ⟨c :: head, tail, rfl, ?_, htail⟩
        rw [List.mem_cons, not_or]
        exact ⟨fun h => hc h.symm, hhead⟩

/-- The characters `line` are the line with a number of a text, its end left out: `before` precedes it and
`after` follows it. -/
structure IsLine (cs before line after : List Char) (number : Nat) : Prop where
  text : cs = before ++ line ++ after
  first : EndsWith '\n' before
  whole : '\n' ∉ line
  last : after = [] ∨ ∃ later, after = '\n' :: later
  number : before.count '\n' + 1 = number

/-! ## The three computations -/

theorem clamp_le (offset : Int) (size : Nat) : clamp offset size ≤ size := Nat.min_le_right _ _

theorem take_clamp (bytes : List UInt8) (offset : Int) :
    bytes.take (clamp offset bytes.length) = bytes.take offset.toNat := by
  rw [clamp, ← List.take_take, List.take_length]

/-- The line and the two columns of an offset, when the characters before it are known. -/
theorem positions_of_cut {bytes rest : List UInt8} {offset : Int} {head tail back : List Char}
    (htake : bytes.take (clamp offset bytes.length) = encodeChars (head ++ tail) ++ rest)
    (hhead : EndsWith '\n' head) (htail : '\n' ∉ tail) (hrest : rest = [] ∨ Begins rest back) :
    lineAt bytes offset = head.count '\n' + 1 ∧
      inBytes bytes offset = ⟨head.count '\n' + 1, width tail + rest.length⟩ ∧
      inCharacters bytes offset = ⟨head.count '\n' + 1, tail.length + 1⟩ := by
  have hsound : Utf8.soundChars rest = [] := by
    rcases hrest with rfl | hrest
    · rfl
    · exact Utf8.soundChars_of_begins hrest
  have hnone : newline ∉ rest := by
    rcases hrest with rfl | hrest
    · exact List.not_mem_nil
    · exact newline_not_mem_of_begins hrest
  have hcount : (encodeChars (head ++ tail) ++ rest).count newline = head.count '\n' := by
    rw [List.count_append, count_newline, List.count_append, List.count_eq_zero.mpr htail,
      List.count_eq_zero.mpr hnone, Nat.add_zero]
  have hbytes : EndsWith newline (encodeChars head) := by
    rcases hhead with rfl | ⟨earlier, rfl⟩
    · exact Or.inl rfl
    · exact Or.inr ⟨encodeChars earlier, Utf8.encodeChars_append _ _⟩
  have hlast : newline ∉ encodeChars tail ++ rest := by
    rw [List.mem_append, not_or]
    exact ⟨newline_not_mem_encodeChars htail, hnone⟩
  refine ⟨?_, ?_, ?_⟩
  · rw [lineAt, ← take_clamp, htake, hcount]
  · rw [inBytes, htake]
    simp only [hcount]
    rw [Utf8.encodeChars_append, List.append_assoc, afterLast_append hbytes hlast, List.length_append,
      width]
  · rw [inCharacters, htake, Utf8.soundChars_append, hsound, List.append_nil]
    simp only [List.count_append, List.count_eq_zero.mpr htail, Nat.add_zero]
    rw [afterLast_append hhead htail]

/-- The three ways to say where an offset lies, inside or outside the text, agree on the line. In that
line the column in bytes is exactly the way from its beginning to the offset. The column in characters is
one more than the characters of the line that are complete before the offset: they take up fewer than four
bytes less than the column in bytes, and just as many exactly when the offset lies between two characters. -/
theorem positions_agree (text : String) (offset : Int) :
    lineAt (Utf8.encode text) offset = (inBytes (Utf8.encode text) offset).line ∧
      (inCharacters (Utf8.encode text) offset).line = (inBytes (Utf8.encode text) offset).line ∧
      ∃ before line after, IsLine text.toList before line after (inBytes (Utf8.encode text) offset).line ∧
        ∃ b c, (inBytes (Utf8.encode text) offset).column = b ∧
          (inCharacters (Utf8.encode text) offset).column = c + 1 ∧ c ≤ line.length ∧
          width before + b = clamp offset (Utf8.size text) ∧
          width (before ++ line.take c) ≤ clamp offset (Utf8.size text) ∧
          width (line.take c) ≤ b ∧ b < width (line.take c) + 4 ∧
          (width (line.take c) = b ↔ Boundary text.toList (clamp offset (Utf8.size text))) := by
  obtain ⟨front, back, rest, htext, htake, hplace, hrest⟩ :=
    Utf8.exists_cut text.toList (clamp offset (Utf8.size text)) (clamp_le _ _)
  obtain ⟨head, tail, rfl, hhead, htail⟩ := exists_lastLine front
  obtain ⟨others, after, rfl, hothers, hafter⟩ := exists_firstLine back
  obtain ⟨hline, hbytes, hcharacters⟩ := positions_of_cut htake hhead htail hrest
  have hlength : rest.length < 4 := by
    rcases hrest with rfl | hrest
    · decide
    · exact (Utf8.length_lt_of_begins hrest).1
  rw [Utf8.width_append] at hplace
  have hfront : width (head ++ tail) = width head + width tail := Utf8.width_append head tail
  rw [hline, hbytes, hcharacters]
  refine ⟨rfl, rfl, head, tail ++ others, after, ⟨by rw [htext]; simp, hhead, ?_, hafter, rfl⟩,
    width tail + rest.length, tail.length, rfl, rfl, by simp, by omega, ?_⟩
  · rw [List.mem_append, not_or]
    exact ⟨htail, hothers⟩
  -- The characters that are counted are those between the last line feed and the cut.
  rw [List.take_left]
  refine ⟨by omega, by omega, by omega, ?_, ?_⟩
  · intro hequal
    exact ⟨head ++ tail, others ++ after, htext, by omega⟩
  · intro hboundary
    rw [htext] at hboundary
    have hdrop := hboundary.drop (by omega)
    rcases hrest with rfl | hrest
    · rfl
    · have hzero := (Utf8.length_lt_of_begins hrest).2 _ (by omega) hdrop
      omega

end Position

end IdiomLint
