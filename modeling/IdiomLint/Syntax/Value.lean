import IdiomLint.Number.DecimalText

/-!
# Syntax trees

A tree is made of nodes; a node has a kind, a sequence of children and its place in the source. A
child is a node, a literal (a name, a number, a truth value) or `nil` where something is absent, such
as a missing receiver: `3.times { create :user }` is

`(block (send (int 3) :times) (args) (send nil :create (sym :user)))`.

`Value` is whatever can be a child; `Node` is a value known to be a node.
-/

namespace IdiomLint

/-- A stretch of the source: its byte offsets and the text it covers. -/
structure Span where
  start : Int
  stop : Int
  text : String
  deriving DecidableEq

/-- What a node keeps besides its kind and children. -/
structure Layout where
  /-- The stretch of the whole expression. -/
  extent : Option Span := none
  /-- The opening delimiter, such as the parenthesis of an argument list. -/
  opening : Option Span := none
  /-- The closing delimiter. -/
  closing : Option Span := none
  /-- Is the sequence of children fixed? Patterns match only such nodes. -/
  fixed : Bool := true
  deriving DecidableEq

/-- A child of a node. -/
inductive Value where
  /-- Nothing stands here. -/
  | nil
  | bool (b : Bool)
  | int (n : Int)
  | float (x : Binary64)
  /-- The name of a symbol or a method, or the content of a string. -/
  | text (s : String)
  /-- A sequence of values, such as the children that the rest of a pattern matched. -/
  | tuple (items : List Value)
  | node (kind : String) (children : List Value) (layout : Layout)

/-- A node of a syntax tree. -/
structure Node where
  kind : String
  children : List Value := []
  layout : Layout := {}

namespace Value

/-- The value as a node. -/
def node? : Value → Option Node
  | .node kind children layout => some ⟨kind, children, layout⟩
  | _ => none

/-- Is the value a node? -/
def isNode (v : Value) : Bool := v.node?.isSome

/-- Is the value a node of the given kind? -/
def isNodeOf (v : Value) (kind : String) : Bool :=
  match v with
  | .node k _ _ => k == kind
  | _ => false

/-- The integer that a truth value or an integer counts as in comparisons. -/
def number? : Value → Option Int
  | .bool b => some (if b then 1 else 0)
  | .int n => some n
  | _ => none

/-- Equality of literals. Truth values count as 0 and 1, and numbers are compared by value. -/
def sameLiteral : Value → Value → Bool
  | .nil, .nil => true
  | .text s, .text t => s == t
  | .float x, .float y => x.same y
  | .float x, w => w.number?.any x.sameInt
  | v, .float y => v.number?.any y.sameInt
  | v, w =>
    match v.number?, w.number? with
    | some a, some b => a == b
    | _, _ => false

mutual

/-- Equality of values: sequences item by item, nodes by kind, children and layout. -/
def same : Value → Value → Bool
  | .tuple xs, .tuple ys => sameAll xs ys
  | .node k xs l, .node k' ys l' => k == k' && l == l' && sameAll xs ys
  | v, w => sameLiteral v w

/-- Equality item by item. -/
def sameAll : List Value → List Value → Bool
  | [], [] => true
  | x :: xs, y :: ys => same x y && sameAll xs ys
  | _, _ => false

end

/-- Are two values of one sort? Truth values, integers and floating-point numbers are three sorts. -/
def sameSort : Value → Value → Bool
  | .nil, .nil => true
  | .bool _, .bool _ => true
  | .int _, .int _ => true
  | .float _, .float _ => true
  | .text _, .text _ => true
  | .tuple _, .tuple _ => true
  | .node _ _ _, .node _ _ _ => true
  | _, _ => false

mutual

/-- The number of nodes in a value, those inside sequences included. -/
def nodeCount : Value → Nat
  | .tuple items => nodeCounts items
  | .node _ children _ => nodeCounts children + 1
  | _ => 0

/-- The number of nodes in a list of values. -/
def nodeCounts : List Value → Nat
  | [] => 0
  | v :: rest => nodeCount v + nodeCounts rest

end

end Value

namespace Node

/-- The node as a value. -/
def toValue (n : Node) : Value := .node n.kind n.children n.layout

@[simp] theorem node?_toValue (n : Node) : n.toValue.node? = some n := rfl

/-- The text of the node in the source; nothing if its place is unknown. -/
def source (n : Node) : String := (n.layout.extent.map Span.text).getD ""

/-- Where the node begins; 0 if its place is unknown. -/
def start (n : Node) : Int := (n.layout.extent.map Span.start).getD 0

/-- Where the node ends; 0 if its place is unknown. -/
def stop (n : Node) : Int := (n.layout.extent.map Span.stop).getD 0

/-- The children that are nodes. -/
def childNodes (n : Node) : List Node := n.children.filterMap Value.node?

/-- The number of nodes in the tree below and including a node. -/
def nodeCount (n : Node) : Nat := n.toValue.nodeCount

end Node

end IdiomLint
