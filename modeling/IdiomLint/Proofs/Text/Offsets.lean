import Mathlib
import IdiomLint.Number.Instances
import IdiomLint.Proofs.Text.Pieces

/-!
# From places back to offsets

A place in a text names one offset: the bytes of the earlier lines, each with its line feed, and the bytes
that its column counts (`Position.Names`). Earlier places in reading order name smaller offsets
(`Names.lt_of_key_lt`), so a report loses nothing when it writes a place for an offset of the text, and an
offset outside the text is shown as the end that is nearer. Main statement: `Position.names_inBytes`.
-/

namespace IdiomLint

namespace Position

open Utf8 (encodeChars width Begins)

/-! ## Where the lines begin -/

/-- The bytes of the first `count` lines, each with the line feed after it. -/
def bytesBefore (lines : List (List Char)) (count : Nat) : Nat :=
  ((lines.take count).map fun line => width line + 1).sum

section Lines

variable {lines : List (List Char)} {line : List Char} {i j : Nat}

theorem bytesBefore_succ (h : lines[i]? = some line) :
    bytesBefore lines (i + 1) = bytesBefore lines i + (width line + 1) := by
  rw [bytesBefore, List.take_add_one, h, List.map_append, List.sum_append_nat, ← bytesBefore]
  simp

theorem bytesBefore_mono (h : i ≤ j) : bytesBefore lines i ≤ bytesBefore lines j := by
  obtain ⟨more, rfl⟩ := Nat.exists_eq_add_of_le h
  rw [bytesBefore, bytesBefore, List.take_add, List.map_append, List.sum_append_nat]
  exact Nat.le_add_right _ _

/-- A text is its lines with a line feed between any two of them. -/
theorem sum_width_splitOn (cs : List Char) :
    ((cs.splitOn '\n').map fun line => width line + 1).sum = width cs + 1 := by
  induction cs with
  | nil => rfl
  | cons c cs ih =>
      obtain ⟨line, rest, hlines⟩ := List.exists_cons_of_ne_nil (List.splitOn_ne_nil '\n' cs)
      have hcons : ∀ ds, width (c :: ds) = (String.utf8EncodeChar c).length + width ds := by
        intro ds
        rw [width, Utf8.encodeChars_cons, List.length_append, width]
      rw [List.splitOn_cons_eq_if_modifyHead, hcons]
      by_cases hc : c = '\n'
      · have hone : (String.utf8EncodeChar c).length = 1 := by rw [hc]; decide
        rw [if_pos (beq_iff_eq.mpr hc), List.map_cons, List.sum_cons, ih, Utf8.width_nil, hone]
        omega
      · rw [if_neg (mt beq_iff_eq.mp hc), hlines, List.modifyHead_cons, List.map_cons, List.sum_cons, hcons]
        rw [hlines, List.map_cons, List.sum_cons] at ih
        omega

theorem bytesBefore_dropLast {before : List Char} (h : EndsWith '\n' before) :
    bytesBefore (before.splitOn '\n').dropLast (before.count '\n') = width before := by
  rw [bytesBefore, List.take_of_length_le (Nat.le_of_eq length_dropLast_splitOn)]
  rcases h with rfl | ⟨earlier, rfl⟩
  · rfl
  · rw [List.splitOn_append_cons_self, List.splitOn_nil, List.dropLast_concat, sum_width_splitOn,
      Utf8.width_append]
    rfl

end Lines

/-! ## The offset of a place -/

/-- A place names an offset of the text with these lines: its line is one of them, its column is within that
line, and before the offset stand the earlier lines with their line feeds and the column's bytes. -/
structure Names (lines : List (List Char)) (p : Position) (offset : Int) : Prop where
  line_pos : 1 ≤ p.line
  line_le : p.line ≤ lines.length
  column_le : ∃ line, lines[p.line - 1]? = some line ∧ p.column ≤ width line
  offset_eq : offset = (bytesBefore lines (p.line - 1) : Nat) + (p.column : Nat)

/-- Reading order: by lines, and within a line by columns. -/
def key (p : Position) : Nat ×ₗ Nat := toLex (p.line, p.column)

theorem key_injective {p q : Position} (h : p.key = q.key) : p = q := by
  obtain ⟨pline, pcolumn⟩ := p
  obtain ⟨qline, qcolumn⟩ := q
  obtain ⟨rfl, rfl⟩ : pline = qline ∧ pcolumn = qcolumn := Prod.mk.inj h
  rfl

/-- An earlier place names a smaller offset: the rest of its line is still to come, or it is in the same line. -/
theorem Names.lt_of_key_lt {lines : List (List Char)} {p q : Position} {o o' : Int} (hp : Names lines p o)
    (hq : Names lines q o') (h : p.key < q.key) : o < o' := by
  have hfirst := hp.offset_eq
  have hsecond := hq.offset_eq
  rcases Prod.Lex.toLex_lt_toLex.mp h with hline | ⟨hline, hcolumn⟩
  · obtain ⟨line, hget, hcolumn⟩ := hp.column_le
    have hnext := bytesBefore_succ hget
    have hlater : bytesBefore lines (p.line - 1 + 1) ≤ bytesBefore lines (q.line - 1) :=
      bytesBefore_mono (by have := hp.line_pos; simp only at hline; omega)
    omega
  · simp only at hline hcolumn
    rw [hline] at hfirst
    omega

/-- The beginning of a character that the offset cuts apart lies in the line of the character. -/
theorem length_le_of_begins {bytes : List UInt8} {others after : List Char} (h : Begins bytes (others ++ after))
    (hafter : after = [] ∨ ∃ later, after = '\n' :: later) : bytes.length ≤ width others := by
  obtain ⟨c, tail, more, hparts, hmore, hc⟩ := h
  have hlength := congrArg List.length hc
  have hpos := List.length_pos_iff.mpr hmore
  rw [List.length_append] at hlength
  cases others with
  | nil =>
      -- Nothing is left in the line, and a line feed cannot be cut apart.
      rcases hafter with rfl | ⟨later, rfl⟩
      · cases hparts
      · have hone : (String.utf8EncodeChar '\n').length = 1 := by decide
        rw [List.nil_append] at hparts
        rw [← (List.cons.inj hparts).1, hone] at hlength
        omega
  | cons d others =>
      rw [(List.cons.inj hparts).1, width, Utf8.encodeChars_cons, List.length_append]
      omega

/-- An offset of the text is named by the place that is shown for it. -/
theorem names_of_mem {text : String} {offset : Int} (hlow : 0 ≤ offset) (hhigh : offset ≤ Utf8.size text) :
    Names (text.toList.splitOn '\n') (inBytes (Utf8.encode text) offset) offset := by
  obtain ⟨front, back, rest, htext, htake, hplace, hrest⟩ :=
    Utf8.exists_cut text.toList (clamp offset (Utf8.size text)) (clamp_le _ _)
  obtain ⟨head, tail, rfl, hhead, htail⟩ := exists_lastLine front
  obtain ⟨others, after, rfl, hothers, hafter⟩ := exists_firstLine back
  obtain ⟨-, hbytes, -⟩ := positions_of_cut htake hhead htail hrest
  have hlines : text.toList.splitOn '\n' =
      (head.splitOn '\n').dropLast ++ (tail ++ others) :: (after.splitOn '\n').tail := by
    have hwhole : '\n' ∉ tail ++ others := by simp [htail, hothers]
    rw [← splitOn_between hhead hwhole hafter, htext]
    simp
  have hearlier : bytesBefore (text.toList.splitOn '\n') (head.count '\n') = width head := by
    rw [← bytesBefore_dropLast hhead, hlines, bytesBefore, bytesBefore, ← length_dropLast_splitOn,
      List.take_left, List.take_length]
  have hcut : rest.length ≤ width others := by
    rcases hrest with rfl | hrest
    · exact Nat.zero_le _
    · exact length_le_of_begins hrest hafter
  have hclamp : (clamp offset (Utf8.size text) : Int) = offset := by
    rw [clamp]
    omega
  rw [Utf8.width_append] at hplace
  rw [hbytes]
  refine ⟨Nat.le_add_left _ _, ?_, ⟨tail ++ others, ?_, ?_⟩, ?_⟩
  · rw [hlines, List.length_append, length_dropLast_splitOn, List.length_cons]
    exact Nat.add_le_add_left (Nat.le_add_left _ _) _
  · rw [hlines, Nat.add_sub_cancel, ← length_dropLast_splitOn, List.getElem?_append_right (Nat.le_refl _),
      Nat.sub_self, List.getElem?_cons_zero]
  · rw [Utf8.width_append]
    exact Nat.add_le_add_left hcut _
  · rw [Nat.add_sub_cancel, hearlier, ← hclamp, ← hplace, Nat.add_assoc, Int.natCast_add]

theorem strictMonoOn_key (text : String) :
    StrictMonoOn (fun offset => (inBytes (Utf8.encode text) offset).key) (Set.Icc 0 (Utf8.size text : Int)) := by
  intro first hfirst second hsecond hlt
  have hnames := names_of_mem hfirst.1 hfirst.2
  have hnames' := names_of_mem hsecond.1 hsecond.2
  rcases lt_trichotomy (inBytes (Utf8.encode text) first).key (inBytes (Utf8.encode text) second).key
    with h | h | h
  · exact h
  · have hequal := hnames.offset_eq
    rw [key_injective h, ← hnames'.offset_eq] at hequal
    omega
  · have hback := hnames'.lt_of_key_lt hnames h
    omega

theorem inBytes_clamp (bytes : List UInt8) (offset : Int) :
    inBytes bytes offset = inBytes bytes (max 0 (min offset bytes.length)) := by
  have hclamp : clamp (max 0 (min offset bytes.length)) bytes.length = clamp offset bytes.length := by
    rw [clamp, clamp]
    omega
  rw [inBytes, inBytes, hclamp]

/-- The place shown for an offset of a text names that offset. So places grow strictly with offsets, no two
offsets of the text are shown alike, any other offset is shown as the nearer end of the text, and the first
place of a stretch is never after its last one. -/
theorem names_inBytes (text : String) :
    (∀ offset : Int, 0 ≤ offset → offset ≤ Utf8.size text →
      Names (text.toList.splitOn '\n') (inBytes (Utf8.encode text) offset) offset) ∧
    StrictMonoOn (fun offset => (inBytes (Utf8.encode text) offset).key) (Set.Icc 0 (Utf8.size text : Int)) ∧
    Set.InjOn (inBytes (Utf8.encode text)) (Set.Icc 0 (Utf8.size text : Int)) ∧
    (∀ offset : Int, inBytes (Utf8.encode text) offset =
      inBytes (Utf8.encode text) (max 0 (min offset (Utf8.size text)))) ∧
    ∀ start stop : Int, start ≤ stop →
      (PositionRange.ofBytes (Utf8.encode text) start stop).first.key ≤
        (PositionRange.ofBytes (Utf8.encode text) start stop).last.key := by
  have hmono := strictMonoOn_key text
  refine ⟨fun _ hlow hhigh => names_of_mem hlow hhigh, hmono, ?_, inBytes_clamp (Utf8.encode text), ?_⟩
  · intro first hfirst second hsecond h
    exact hmono.injOn hfirst hsecond (congrArg key h)
  · intro start stop h
    have hclamped : max 0 (min start (Utf8.size text)) ≤ max 0 (min stop (Utf8.size text)) := by omega
    have hle := hmono.monotoneOn (a := max 0 (min start (Utf8.size text)))
      (b := max 0 (min stop (Utf8.size text))) ⟨by omega, by omega⟩ ⟨by omega, by omega⟩ hclamped
    rw [PositionRange.ofBytes, inBytes_clamp _ start, inBytes_clamp _ stop]
    exact hle

end Position

end IdiomLint
