import IdiomLint.Text.CodePoint

/-!
# White space

Two notions of white space: `isBlank`, the white space of every script together with the four
information separators, and `isAsciiBlank`, the six blanks that may surround a number.
-/

namespace IdiomLint.Blank

/-- All white space, as ranges of code points. -/
def ranges : List CodePoint.Range :=
  [(0x9, 0xD), (0x1C, 0x20), (0x85, 0x85), (0xA0, 0xA0), (0x1680, 0x1680), (0x2000, 0x200A),
   (0x2028, 0x2029), (0x202F, 0x202F), (0x205F, 0x205F), (0x3000, 0x3000)]

/-- White space of any script. -/
def isBlank (c : Char) : Bool := CodePoint.within c.toNat ranges

/-- Space, tab, line feed, vertical tab, form feed and carriage return. -/
def isAsciiBlank (c : Char) : Bool := c == ' ' || (0x09 ≤ c.toNat && c.toNat ≤ 0x0D)

/-- Drop from both ends the characters that satisfy `p`. -/
def trimBoth (p : Char → Bool) (cs : List Char) : List Char :=
  ((cs.dropWhile p).reverse.dropWhile p).reverse

/-- Drop the white space at both ends. -/
def strip (s : String) : String := String.ofList (trimBoth isBlank s.toList)

/-- What core counts as white space is white space here too. -/
theorem isBlank_of_isWhitespace {c : Char} (h : c.isWhitespace = true) : isBlank c = true := by
  simp only [Char.isWhitespace, Bool.or_eq_true, decide_eq_true_eq] at h
  rcases h with ((rfl | rfl) | rfl) | rfl <;> decide

/-- The ASCII characters that leave a mark on paper are no white space. -/
theorem isBlank_of_toNat {c : Char} (hfirst : 33 ≤ c.toNat) (hlast : c.toNat ≤ 126) :
    isBlank c = false := by
  simp only [isBlank, ranges, CodePoint.within]
  repeat rw [if_pos (by omega)]
  rw [if_neg (by omega), decide_eq_false_iff_not]
  omega

end IdiomLint.Blank
