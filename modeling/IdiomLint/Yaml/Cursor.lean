import IdiomLint.Yaml.Source

/-!
# Places in YAML text

A cursor is a place in a text: what is left to read, and how many characters, lines and columns lie
before it. `Reading` is what is done from a place on: it looks at characters and moves on, and it fails
once it needs characters that cannot be read.
-/

namespace IdiomLint.Yaml

/-- A character that ends a line. -/
def isBreak (c : Char) : Bool := c == '\n' || c == '\u0085' || c == '\u2028' || c == '\u2029'

/-- A space or a tab. -/
def isBlank (c : Char) : Bool := c == ' ' || c == '\t'

/-- Is this the end of the text, or a character that ends a word? -/
def endsWord : Option Char → Bool
  | none => true
  | some c => isBlank c || isBreak c

/-- Is this the end of the text or of a line? -/
def endsLine : Option Char → Bool
  | none => true
  | some c => isBreak c

/-- Like `endsWord`, but a tab does not count. -/
def endsField : Option Char → Bool
  | none => true
  | some c => c == ' ' || isBreak c

/-- A character of names of anchors, directives and tag handles. -/
def isNameChar (c : Char) : Bool := c.isAlphanum || c == '-' || c == '_'

/-- The text is refused. -/
def refuse {m : Type → Type} [MonadExceptOf Fault m] {α : Type} : m α := throw .invalid

/-- A place in a text. -/
structure Cursor where
  /-- What is left to read. -/
  rest : List Char
  /-- Why nothing can be read after that; nothing if the text ends there. -/
  fault : Option Fault := none
  /-- How many characters the text has. -/
  size : Nat
  /-- How many characters have been read. -/
  index : Nat := 0
  /-- How many lines have been read. -/
  line : Nat := 0
  /-- How many characters of the line have been read, byte order marks not counted. -/
  column : Nat := 0

namespace Cursor

/-- The beginning of a text. -/
def ofSource (s : Source) : Cursor := { rest := s.chars, fault := s.fault, size := s.chars.length }

/-- The place after one character. -/
def next (c : Cursor) : Cursor :=
  match c.rest with
  | [] => c
  | ch :: rest =>
    if isBreak ch then { c with rest, index := c.index + 1, line := c.line + 1, column := 0 }
    else { c with
      rest, index := c.index + 1, column := if ch == '\uFEFF' then c.column else c.column + 1 }

/-- The place after several characters. -/
def skip : Nat → Cursor → Cursor
  | 0, c => c
  | n + 1, c => skip n c.next

end Cursor

/-- Reading from a place in a text. -/
abbrev Reading := StateT Cursor (Except Fault)

namespace Reading

/-- A bound on the number of steps that go further in the text. -/
def bound : Reading Nat := return (← get).size + 1

/-- Fail if the text cannot be read so far that there are more than so many characters. -/
def demand (n : Nat) : Reading Unit := do
  let c ← get
  if let some f := c.fault then
    if (c.rest.drop n).isEmpty then throw f

/-- The character so many places further. -/
def peekAt (n : Nat) : Reading (Option Char) := do
  demand n
  return (← get).rest[n]?

/-- The next character. -/
def peek : Reading (Option Char) := peekAt 0

/-- Go past several characters. -/
def skip (n : Nat) : Reading Unit := do
  demand n
  modify (Cursor.skip n)

/-- Go past the characters up to the first one that fails a test. -/
def takeWhile (p : Char → Bool) : Reading (List Char) := do
  let front := (← get).rest.takeWhile p
  skip front.length
  return front

/-- Pass over the characters up to the first one that fails a test. -/
def dropWhile (p : Char → Bool) : Reading Unit := discard (takeWhile p)

/-- Does a text stand here? -/
def startsWith (s : String) : Reading Bool := do
  demand (s.length - 1)
  return s.toList.isPrefixOf (← get).rest

/-- Go past a line break, if one stands here; it is given as it counts in a text. -/
def lineBreak? : Reading (Option Char) := do
  match ← peek with
  | some ch =>
    if isBreak ch then
      skip 1
      return some (if ch == '\u0085' then '\n' else ch)
    else return none
  | none => return none

/-- Does a mark of three characters stand here as a whole word? -/
def atMark (mark : String) : Reading Bool := do
  if ← startsWith mark then return endsWord (← peekAt 3) else return false

/-- Does a line that separates documents begin here? -/
def atSeparator : Reading Bool := do
  if ← atMark "---" then return true else atMark "..."

/-- Go past a comment, if one stands here. -/
def skipComment : Reading Unit := do
  if (← peek) == some '#' then dropWhile (!isBreak ·)

/-- Go past the end of a line on which nothing but a comment may follow. -/
def skipLineEnd : Reading Unit := do
  dropWhile (· == ' ')
  skipComment
  if !endsLine (← peek) then refuse
  discard lineBreak?

end Reading

end IdiomLint.Yaml
