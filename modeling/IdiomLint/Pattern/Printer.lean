import IdiomLint.Pattern.Parser

/-!
# Writing patterns as text

`Pattern.render` writes a pattern in the notation that `Pattern.read` reads. A capture whose name is a
number is written without its name. Only `nil`, texts and integers have a literal form.
-/

namespace IdiomLint.Pattern

/-- A character of a string literal: the quote and the backslash are marked. -/
def escapeChar (c : Char) : List Char := if c = '"' ∨ c = '\\' then ['\\', c] else [c]

/-- A string literal. -/
def renderText (s : String) : String :=
  String.ofList ('"' :: s.toList.flatMap escapeChar ++ ['"'])

/-- A literal value. -/
def renderValue : Value → String
  | .nil => "nil"
  | .int n => Integer.decimal n
  | .text s => renderText s
  | _ => ""

/-- Is the name of a capture a position? -/
def isPosition (name : String) : Bool := name.toList.all Char.isDigit

mutual

/-- A pattern as text. -/
def render : Pattern → String
  | .any => "_"
  | .rest => "..."
  | .value v => renderValue v
  | .ref name _ => "#" ++ name
  | .capture name inner => (if isPosition name then "$" else "$" ++ name ++ "=") ++ render inner
  | .node kind children => "(" ++ kind ++ renderAll children ++ ")"
  | .oneOf [] => "\x7b\x7d"
  | .oneOf (p :: ps) => "\x7b" ++ render p ++ renderAll ps ++ "\x7d"
  | .never => ""

/-- Patterns as text, each after a space. -/
def renderAll : List Pattern → String
  | [] => ""
  | p :: ps => " " ++ render p ++ renderAll ps

end

end IdiomLint.Pattern
