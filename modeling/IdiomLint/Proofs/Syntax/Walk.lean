import IdiomLint.Syntax.Walk

/-!
# The walk is the preorder

The stack of `Node.walkFrom` holds the nodes whose trees are still to come, so that what it visits is the
preorder of these trees one after the other.
-/

namespace IdiomLint

theorem Value.eq_toValue_of_node? {v : Value} {n : Node} (h : v.node? = some n) : v = n.toValue := by
  cases v with
  | node kind children layout =>
      cases h
      rfl
  | nil | bool _ | int _ | float _ | text _ | tuple _ => exact absurd h (by simp [node?])

/-- The nodes in and below the values of a list are those of its nodes. -/
theorem Value.preorderAll_eq (vs : List Value) :
    preorderAll vs = (vs.filterMap node?).flatMap Node.preorder := by
  induction vs with
  | nil => rfl
  | cons v vs ih =>
      rw [preorderAll, ih]
      cases v with
      | node kind children layout => rfl
      | nil | bool _ | int _ | float _ | text _ | tuple _ => rfl

theorem Value.mem_preorderAll {w : Node} {vs : List Value} :
    w ∈ preorderAll vs ↔ ∃ v ∈ vs, w ∈ v.preorder := by
  induction vs with
  | nil => simp [preorderAll]
  | cons v vs ih => simp [preorderAll, ih]

namespace Node

theorem preorder_eq (n : Node) : n.preorder = n :: n.childNodes.flatMap preorder := by
  rw [preorder, toValue, Value.preorder, Value.preorderAll_eq]
  rfl

theorem walkFrom_eq (stack : List Node) : walkFrom stack = stack.flatMap preorder := by
  induction stack using walkFrom.induct with
  | case1 => rw [walkFrom, List.flatMap_nil]
  | case2 n stack ih =>
      rw [walkFrom, ih, List.flatMap_append, List.flatMap_cons, preorder_eq n, List.cons_append]

/-- Walking a tree visits its nodes in preorder. -/
theorem walk_eq_preorder (n : Node) : n.walk = n.preorder := by
  rw [walk, walkFrom_eq, List.flatMap_singleton]

end Node

end IdiomLint
