import IdiomLint.Syntax.Value
import IdiomLint.Text.Quoted

/-!
# Trees as text

A node is written as its kind and its children between parentheses, an absent child as `nil` and a
name after a colon: `(send nil :create (sym :user))`. Values that are not children of a node are
written as literals. There is no text for a value that holds an integer of too many digits.
-/

namespace IdiomLint.Value

mutual

/-- A value as a literal; a node as its expression. -/
def literal? : Value → Option String
  | .nil => some "None"
  | .bool b => some (if b then "True" else "False")
  | .int n => Integer.decimal? n
  | .float x => some x.text
  | .text s => some (Quoted.quoted s)
  | .tuple items => (literals? items).map fun
    | [one] => "(" ++ one ++ ",)"
    | many => "(" ++ ", ".intercalate many ++ ")"
  | .node kind children _ => (expressions? children).map fun parts =>
    "(" ++ " ".intercalate (kind :: parts) ++ ")"

/-- The literals of a list of values. -/
def literals? : List Value → Option (List String)
  | [] => some []
  | v :: rest => do
    let head ← literal? v
    let tail ← literals? rest
    some (head :: tail)

/-- The children of a node, as its expression shows them. -/
def expressions? : List Value → Option (List String)
  | [] => some []
  | .nil :: rest => (expressions? rest).map ("nil" :: ·)
  | .text s :: rest => (expressions? rest).map ((":" ++ s) :: ·)
  | v :: rest => do
    let head ← literal? v
    let tail ← expressions? rest
    some (head :: tail)

end

/-- A value as part of a sentence: a text as it is, all else as a literal. -/
def plain? : Value → Option String
  | .text s => some s
  | v => literal? v

end IdiomLint.Value

namespace IdiomLint.Node

/-- The expression of a node. -/
def expression? (n : Node) : Option String := n.toValue.literal?

end IdiomLint.Node
