import IdiomLint.Grammar
import IdiomLint.Json.Basic

/-!
# Trees as JSON

Concrete trees that were made beforehand, as JSON: a node is a list of its kind, whether it is named,
where it begins and ends, the field it stands in, and its children. A list of texts with their trees
serves as a grammar for these texts.
-/

namespace IdiomLint

namespace Ruby

/-- The field of a node. -/
def fieldOf : Json → Option String
  | .str name => some name
  | _ => none

mutual

/-- The concrete tree that a value describes. -/
def treeOf? : Json → Option ConcreteNode
  | .arr [.str kind, .int named, .int start, .int stop, field, .arr children] => do
    return ⟨kind, named != 0, start.toNat, stop.toNat, fieldOf field, ← treesOf? children⟩
  | _ => none

/-- The concrete trees that values describe. -/
def treesOf? : List Json → Option (List ConcreteNode)
  | [] => some []
  | j :: rest => do return (← treeOf? j) :: (← treesOf? rest)

end

end Ruby

/-- Is a value true, or a number other than zero? -/
def isYes : Option Json → Bool
  | some (.bool b) => b
  | some (.int n) => n != 0
  | _ => false

/-- A text with its tree. -/
def sampleOf? (j : Json) : Option (String × Parsed) := do
  match j.get? "text", j.get? "cst" with
  | some (.str text), some tree =>
    return (text, ⟨← Ruby.treeOf? tree, isYes (j.get? "has_error")⟩)
  | _, _ => none

/-- The tree of a text that nothing is known about. -/
def unknownText : Parsed := ⟨⟨"program", true, 0, 0, none, []⟩, true⟩

/-- The grammar that knows some texts. -/
def Grammar.ofSamples (samples : List (String × Parsed)) : Grammar :=
  .ok fun text => (samples.lookup text).getD unknownText

end IdiomLint
