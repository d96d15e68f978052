import IdiomLint.Syntax.Value

/-!
# Calls and blocks

Views of the nodes that stand for method calls, blocks and literals.
-/

namespace IdiomLint

namespace Node

/-- The call, the parameters and the body of a block. -/
def blockParts? (n : Node) : Option (Value × Value × Value) :=
  match n.kind == "block", n.children with
  | true, [call, parameters, body] => some (call, parameters, body)
  | _, _ => none

/-- The receiver, the method name and the arguments of a call, with or without safe navigation. -/
def callParts? (n : Node) : Option (Value × String × List Value) :=
  match n.kind == "send" || n.kind == "csend", n.children with
  | true, receiver :: .text method :: arguments => some (receiver, method, arguments)
  | _, _ => none

/-- The only child of a node, if that is a literal; `nil` in every other case. -/
def literalValue (n : Node) : Value :=
  match n.children with
  | [.node _ _ _] => .nil
  | [v] => v
  | _ => .nil

/-- Do the node's delimiters read as a pair of parentheses? -/
def parenthesized (n : Node) : Bool :=
  match n.layout.opening, n.layout.closing with
  | some o, some c => o.text == "(" && c.text == ")"
  | _, _ => false

end Node

end IdiomLint
