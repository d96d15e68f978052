import IdiomLint.Datum
import IdiomLint.Edit.Basic
import IdiomLint.Json.Basic
import IdiomLint.Syntax.Value

/-!
# Findings

What a rule has to say about a place in a file, with the edits that would mend it.
-/

namespace IdiomLint

/-- A piece of additional information: plain data, or a value of the syntax tree. -/
inductive Detail where
  | data (j : Json)
  | term (v : Value)

/-- An offence found by a rule. -/
structure Finding where
  /-- The rule that found it. -/
  rule : String
  message : String
  file : String
  /-- Where the offence begins, in bytes. -/
  start : Int
  /-- Where it ends. -/
  stop : Int
  /-- How grave it is: `info`, `warn` or `error`, unless a configuration says something else. -/
  severity : Datum
  /-- The edits that mend it, if the rule knows any. -/
  autofix : Option (List Edit) := none
  /-- Additional information by name. -/
  details : Option (List (String × Detail)) := none

namespace Finding

/-- The edits that mend the offence. -/
def edits (f : Finding) : List Edit := f.autofix.getD []

/-- Is there an edit that mends the offence? -/
def fixable (f : Finding) : Bool := !f.edits.isEmpty

end Finding

end IdiomLint
