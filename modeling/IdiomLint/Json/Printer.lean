import IdiomLint.Json.Basic
import IdiomLint.Text.Hex

/-!
# Writing JSON

`Json.render` writes a value on several lines, two spaces deeper for each level, with ASCII characters
only. Empty arrays and objects stay on one line. A value has no text if it holds an integer with more digits
than decimal text may have (`Json.text?`).
-/

namespace IdiomLint.Json

/-- A UTF-16 unit as an escape. -/
def escapeUnit (n : Nat) : List Char := '\\' :: 'u' :: Hex.digits 4 n

/-- One character of a string. Beyond the basic plane it takes two escapes. -/
def escapeChar (c : Char) : List Char :=
  if c = '"' then ['\\', '"']
  else if c = '\\' then ['\\', '\\']
  else if c = '\n' then ['\\', 'n']
  else if c = '\r' then ['\\', 'r']
  else if c = '\t' then ['\\', 't']
  else if c = '\x08' then ['\\', 'b']
  else if c = '\x0c' then ['\\', 'f']
  else if 0x20 ≤ c.toNat ∧ c.toNat < 0x7F then [c]
  else if c.toNat < 0x10000 then escapeUnit c.toNat
  else
    let n := c.toNat - 0x10000
    escapeUnit (0xD800 + n / 0x400) ++ escapeUnit (0xDC00 + n % 0x400)

/-- A string between quotes. -/
def renderString (s : String) : String :=
  String.ofList ('"' :: s.toList.flatMap escapeChar ++ ['"'])

/-- A floating-point number. -/
def renderFloat (x : Binary64) : String :=
  if x.isNaN then "NaN"
  else if x.isFinite then x.text
  else if x.negative then "-Infinity" else "Infinity"

/-- A line break and the indentation of a level. -/
def newline (level : Nat) : String := String.ofList ('\n' :: List.replicate (2 * level) ' ')

mutual

/-- A value whose first line is already indented to a level. -/
def renderAt (level : Nat) : Json → String
  | .null => "null"
  | .bool b => if b then "true" else "false"
  | .int n => Integer.decimal n
  | .float x => renderFloat x
  | .str s => renderString s
  | .arr [] => "[]"
  | .arr (j :: rest) =>
    "[" ++ newline (level + 1) ++ renderAt (level + 1) j ++ renderItems (level + 1) rest ++
      newline level ++ "]"
  | .obj [] => "\x7b\x7d"
  | .obj ((key, j) :: rest) =>
    "\x7b" ++ newline (level + 1) ++ renderString key ++ ": " ++ renderAt (level + 1) j ++
      renderMembers (level + 1) rest ++ newline level ++ "\x7d"

/-- The items of an array after the first one. -/
def renderItems (level : Nat) : List Json → String
  | [] => ""
  | j :: rest => "," ++ newline level ++ renderAt level j ++ renderItems level rest

/-- The members of an object after the first one. -/
def renderMembers (level : Nat) : List (String × Json) → String
  | [] => ""
  | (key, j) :: rest =>
    "," ++ newline level ++ renderString key ++ ": " ++ renderAt level j ++ renderMembers level rest

end

/-- A value as JSON text, whatever integers it holds. -/
def render (j : Json) : String := renderAt 0 j

mutual

/-- Can all integers of a value be told in decimal text? -/
def integersFit : Json → Bool
  | .int n => decide (n.natAbs < 10 ^ Integer.digitLimit)
  | .arr items => allIntegersFit items
  | .obj members => memberIntegersFit members
  | _ => true

/-- Can all integers of the items of an array be told in decimal text? -/
def allIntegersFit : List Json → Bool
  | [] => true
  | j :: rest => integersFit j && allIntegersFit rest

/-- Can all integers of the members of an object be told in decimal text? -/
def memberIntegersFit : List (String × Json) → Bool
  | [] => true
  | (_, j) :: rest => integersFit j && memberIntegersFit rest

end

/-- A value as JSON text, if its integers can be told. -/
def text? (j : Json) : Option String := if j.integersFit then some j.render else none

end IdiomLint.Json
