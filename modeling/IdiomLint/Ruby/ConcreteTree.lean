/-!
# Concrete syntax trees

What a grammar makes of a source text: every token has a node, nodes know the bytes they cover, and a
node may play a named part in its parent, its field.
-/

namespace IdiomLint.Ruby

/-- A node of a concrete syntax tree. -/
structure ConcreteNode where
  /-- The rule or token of the grammar. -/
  kind : String
  /-- Is it more than punctuation or a keyword? -/
  named : Bool
  /-- Where it begins in the source, in bytes. -/
  start : Nat
  /-- Where it ends. -/
  stop : Nat
  /-- The part it plays in its parent. -/
  field : Option String
  children : List ConcreteNode

namespace ConcreteNode

mutual

/-- The number of nodes in a tree. -/
def weight : ConcreteNode → Nat
  | ⟨_, _, _, _, _, children⟩ => weights children + 1

/-- The number of nodes in a list of trees. -/
def weights : List ConcreteNode → Nat
  | [] => 0
  | n :: rest => weight n + weights rest

end

/-- The first child that plays a part. -/
def childFor? (n : ConcreteNode) (field : String) : Option ConcreteNode :=
  n.children.find? (·.field == some field)

/-- The children that are more than punctuation. -/
def namedChildren (n : ConcreteNode) : List ConcreteNode := n.children.filter (·.named)

/-- Comments and empty statements are never part of the program. -/
def isSilent (n : ConcreteNode) : Bool := n.kind == "comment" || n.kind == "empty_statement"

/-- The named children that are part of the program. -/
def parts (n : ConcreteNode) : List ConcreteNode := n.namedChildren.filter (!·.isSilent)

theorem weight_eq (n : ConcreteNode) : n.weight = weights n.children + 1 := by
  cases n; rfl

theorem weight_pos (n : ConcreteNode) : 0 < n.weight := by
  rw [weight_eq]; omega

@[simp] theorem weights_append (a b : List ConcreteNode) :
    weights (a ++ b) = weights a + weights b := by
  induction a with
  | nil => simp [weights]
  | cons n rest ih => simp only [List.cons_append, weights, ih]; omega

theorem weights_filter_le (p : ConcreteNode → Bool) (ns : List ConcreteNode) :
    weights (ns.filter p) ≤ weights ns := by
  induction ns with
  | nil => simp [weights]
  | cons n rest ih =>
    rw [List.filter_cons]
    split <;> simp only [weights] <;> omega

theorem weight_le_weights {n : ConcreteNode} {ns : List ConcreteNode} (h : n ∈ ns) :
    n.weight ≤ weights ns := by
  induction ns with
  | nil => simp at h
  | cons m rest ih =>
    simp only [weights]
    rcases List.mem_cons.1 h with rfl | h
    · omega
    · have := ih h; omega

theorem weight_childFor? {n c : ConcreteNode} {field : String} (h : n.childFor? field = some c) :
    c.weight < n.weight := by
  have := weight_le_weights (List.mem_of_find?_eq_some h)
  rw [weight_eq n]; omega

theorem weights_namedChildren_lt (n : ConcreteNode) : weights n.namedChildren < n.weight := by
  have := weights_filter_le (·.named) n.children
  rw [weight_eq n, namedChildren]; omega

theorem weights_parts_lt (n : ConcreteNode) : weights n.parts < n.weight := by
  have := weights_filter_le (!·.isSilent) n.namedChildren
  have := n.weights_namedChildren_lt
  rw [parts]; omega

end ConcreteNode

end IdiomLint.Ruby
