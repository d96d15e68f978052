import IdiomLint.Syntax.Walk

/-!
# Implicit block parameters

A block without written parameters may read `it` or the numbered parameters `_1` to `_9`. What a body
reads is found by a search that does not enter the bodies of nested blocks, whose implicit parameters
are their own: of a nested block only the receiver and the arguments of its call are searched.
-/

namespace IdiomLint.Ruby

/-- Why a tree cannot be read. -/
inductive TreeError where
  /-- A node lacks a child that its kind calls for. -/
  | missingChild
  /-- A local variable has a child that is no name. -/
  | nameExpected
  deriving DecidableEq, Repr

/-- An implicit parameter. -/
inductive Implicit where
  | it
  /-- The highest numbered parameter, 1 to 9. -/
  | numbered (n : Nat)
  deriving DecidableEq, Repr

/-- The number of a numbered parameter; 0 for every other name. -/
def parameterNumber (name : String) : Nat :=
  match name.toList with
  | ['_', c] => if c.isDigit then c.toNat - '0'.toNat else 0
  | _ => 0

/-- Is this a block of any sort? -/
def isBlockKind (kind : String) : Bool := kind == "block" || kind == "numblock" || kind == "itblock"

/-- Is this a bare read of `it`? -/
def isItRead (n : Node) : Bool :=
  n.kind == "send" && n.layout.fixed &&
    match n.children with
    | [.nil, .text name] => name == "it"
    | _ => false

/-- The number of the parameter that a node reads itself; 0 if it reads none. -/
def numberRead (n : Node) : Except TreeError Nat :=
  if n.kind == "lvar" then
    match n.children with
    | [] => .error .missingChild
    | .text name :: _ => .ok (parameterNumber name)
    | _ :: _ => .error .nameExpected
  else .ok 0

/-- The nodes of a call that a block on it does not own: its receiver, and its arguments from the
last one on. -/
def callOperands (call : Node) : Except TreeError (List Node) :=
  match call.children with
  | [] => .error .missingChild
  | receiver :: rest =>
    .ok (receiver.node?.toList ++ ((rest.drop 1).filterMap Value.node?).reverse)

/-- The nodes to search below a node, the next one first. -/
def searchBelow (n : Node) : Except TreeError (List Node) :=
  if isBlockKind n.kind then
    match n.children with
    | [] => .error .missingChild
    | .node kind children layout :: _ => callOperands ⟨kind, children, layout⟩
    | _ :: _ => .ok []
  else .ok n.childNodes.reverse

/-- The number of nodes in a list of trees. -/
def stackWeight (stack : List Node) : Nat := (stack.map Node.nodeCount).sum

theorem stackWeight_append (a b : List Node) :
    stackWeight (a ++ b) = stackWeight a + stackWeight b := by
  simp [stackWeight]

theorem stackWeight_reverse (a : List Node) : stackWeight a.reverse = stackWeight a := by
  simp [stackWeight, List.sum_reverse]

theorem stackWeight_filterMap_drop (k : Nat) (vs : List Value) :
    stackWeight ((vs.drop k).filterMap Value.node?) ≤ Value.nodeCounts vs := by
  induction k generalizing vs with
  | zero => exact Value.sum_nodeCount_filterMap_le vs
  | succ k ih =>
    cases vs with
    | nil => simp [stackWeight]
    | cons v rest =>
      have := ih rest
      simp only [List.drop_succ_cons, Value.nodeCounts]
      omega

theorem stackWeight_callOperands {call : Node} {found : List Node}
    (h : callOperands call = .ok found) : stackWeight found < call.nodeCount := by
  simp only [callOperands] at h
  split at h
  · simp at h
  · rename_i receiver rest hc
    have hr := stackWeight_filterMap_drop 1 rest
    simp only [Except.ok.injEq] at h
    rw [← h, stackWeight_append, stackWeight_reverse]
    simp only [Node.nodeCount, Node.toValue, Value.nodeCount, hc, Value.nodeCounts]
    have : stackWeight receiver.node?.toList ≤ receiver.nodeCount := by
      cases receiver <;>
        simp [Value.node?, stackWeight, Node.nodeCount, Node.toValue]
    omega

theorem stackWeight_searchBelow {n : Node} {found : List Node} (h : searchBelow n = .ok found) :
    stackWeight found < n.nodeCount := by
  simp only [searchBelow] at h
  split at h
  · split at h
    · simp at h
    · rename_i kind children layout rest hc
      have := stackWeight_callOperands h
      simp only [Node.nodeCount, Node.toValue, Value.nodeCount, Value.nodeCounts, hc] at this ⊢
      omega
    · simp only [Except.ok.injEq] at h
      simp [← h, stackWeight, Node.nodeCount, Node.toValue, Value.nodeCount]
  · simp only [Except.ok.injEq] at h
    rw [← h, stackWeight_reverse]
    exact n.sum_nodeCount_childNodes_lt

/-- Search the nodes of a stack, given the highest number and whether `it` was read so far. -/
def searchFrom (highest : Nat) (usesIt : Bool) (stack : List Node) :
    Except TreeError (Nat × Bool) :=
  match stack with
  | [] => .ok (highest, usesIt)
  | n :: stack =>
    if isBlockKind n.kind then
      match h : searchBelow n with
      | .error e => .error e
      | .ok found =>
        have := stackWeight_searchBelow h
        searchFrom highest usesIt (found ++ stack)
    else
      match numberRead n with
      | .error e => .error e
      | .ok number =>
        match h : searchBelow n with
        | .error e => .error e
        | .ok found =>
          have := stackWeight_searchBelow h
          searchFrom (max highest number) (usesIt || isItRead n) (found ++ stack)
termination_by stackWeight stack
decreasing_by
  all_goals
    rw [stackWeight_append]
    simp only [stackWeight, List.map_cons, List.sum_cons] at *
    omega

/-- The implicit parameter that a block body reads: the highest numbered one, else `it`. -/
def implicitParameter (body : Option Node) : Except TreeError (Option Implicit) := do
  let (highest, usesIt) ← searchFrom 0 false body.toList
  .ok (if 0 < highest then some (.numbered highest) else if usesIt then some .it else none)

end IdiomLint.Ruby
