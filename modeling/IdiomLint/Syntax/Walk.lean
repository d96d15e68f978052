import IdiomLint.Number.Instances
import IdiomLint.Syntax.Value

/-!
# Walking a tree

`Node.walk` lists a node and everything below it, parents before children and left before right. It
keeps the nodes still to visit on a stack; `Node.preorder` gives the same order by recursion on the
tree.
-/

namespace IdiomLint

namespace Value

mutual

/-- A node and all nodes below it, in order; no nodes for any other value. -/
def preorder : Value → List Node
  | .node kind children layout => ⟨kind, children, layout⟩ :: preorderAll children
  | _ => []

/-- The nodes in and below each value of a list, in order. -/
def preorderAll : List Value → List Node
  | [] => []
  | v :: rest => preorder v ++ preorderAll rest

end

/-- The child nodes of a list of values hold no more nodes than the values. -/
theorem sum_nodeCount_filterMap_le (vs : List Value) :
    ((vs.filterMap node?).map Node.nodeCount).sum ≤ nodeCounts vs := by
  induction vs with
  | nil => simp [nodeCounts]
  | cons v rest ih =>
    rw [List.filterMap_cons]
    cases v <;> simp only [node?, nodeCounts, nodeCount, Node.nodeCount, Node.toValue,
      List.map_cons, List.sum_cons] at ih ⊢ <;> omega

end Value

namespace Node

/-- A node and everything below it, by recursion on the tree. -/
def preorder (n : Node) : List Node := n.toValue.preorder

/-- The child nodes of a node hold fewer nodes than the node. -/
theorem sum_nodeCount_childNodes_lt (n : Node) :
    (n.childNodes.map nodeCount).sum < n.nodeCount := by
  have h := Value.sum_nodeCount_filterMap_le n.children
  rw [nodeCount, toValue, Value.nodeCount]
  exact Nat.lt_succ_of_le h

/-- Visit the nodes of a stack, the child nodes of each before the rest of the stack. -/
def walkFrom : List Node → List Node
  | [] => []
  | n :: stack => n :: walkFrom (n.childNodes ++ stack)
termination_by stack => (stack.map nodeCount).sum
decreasing_by
  have := n.sum_nodeCount_childNodes_lt
  simp only [List.map_append, List.sum_append, List.map_cons, List.sum_cons]
  omega

/-- A node and everything below it, parents before children and left before right. -/
def walk (n : Node) : List Node := walkFrom [n]

end Node

end IdiomLint
