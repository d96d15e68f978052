/-!
# Lines

`keepingEnds` cuts a text after every line break there is, the break staying with its line; `atNewlines`
cuts at line feeds only and drops them; `joinUniversal` replaces the three common line breaks by a
line feed.
-/

namespace IdiomLint.Lines

/-- A character that ends a line by itself. -/
def isBreak (c : Char) : Bool :=
  c == '\n' || c == '\r' || c == '\x0b' || c == '\x0c' || c == '\x1c' || c == '\x1d' || c == '\x1e' ||
    c == '\u0085' || c == '\u2028' || c == '\u2029'

/-- Put a character in front of the first line. -/
def extend (c : Char) : List (List Char) → List (List Char)
  | [] => [[c]]
  | line :: rest => (c :: line) :: rest

/-- The lines of a text, each with the break that ends it. Carriage return and line feed are one
break. -/
def keepingEnds : List Char → List (List Char)
  | [] => []
  | '\r' :: '\n' :: rest => ['\r', '\n'] :: keepingEnds rest
  | c :: rest => if isBreak c then [c] :: keepingEnds rest else extend c (keepingEnds rest)

theorem flatten_extend (c : Char) (ls : List (List Char)) : (extend c ls).flatten = c :: ls.flatten := by
  cases ls <;> simp [extend]

/-- Cutting a text into lines loses nothing. -/
@[simp] theorem flatten_keepingEnds (cs : List Char) : (keepingEnds cs).flatten = cs := by
  fun_induction keepingEnds cs with
  | case1 => rfl
  | case2 rest ih => simp [ih]
  | case3 c rest _ _ ih => simp [ih]
  | case4 c rest _ _ ih => simp [flatten_extend, ih]

/-- The pieces between line feeds; there is one more than line feeds. -/
def atNewlines : List Char → List (List Char)
  | [] => [[]]
  | c :: rest => if c = '\n' then [] :: atNewlines rest else extend c (atNewlines rest)

theorem atNewlines_ne_nil (cs : List Char) : atNewlines cs ≠ [] := by
  cases cs with
  | nil => simp [atNewlines]
  | cons c rest =>
    simp only [atNewlines]
    split
    · simp
    · cases atNewlines rest <;> simp [extend]

/-- Write a line feed for a carriage return, with or without a line feed after it. -/
def joinUniversal : List Char → List Char
  | [] => []
  | '\r' :: '\n' :: rest => '\n' :: joinUniversal rest
  | c :: rest => (if c = '\r' then '\n' else c) :: joinUniversal rest

/-- The lines of a text as texts. -/
def ofText (s : String) : List String := (keepingEnds s.toList).map String.ofList

end IdiomLint.Lines
