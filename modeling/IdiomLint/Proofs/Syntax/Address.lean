import IdiomLint.Proofs.Idiom.Nesting
import IdiomLint.Proofs.Syntax.Walk

/-!
# Addresses of nodes

Where a node stands in a tree is told by its address, the numbers of the children on the way down to it (`Node.at?`). A
node that stands in several places has several addresses, so that a walk is right if it goes through the addresses of
the tree: each of them once, what is above before what is below, and the left before the right.

Main statement: `walk_in_order`.
-/

namespace IdiomLint

/-! ## The order of addresses -/

/-- An address is above another one if the way goes on from it. -/
def Above (p q : List Nat) : Prop := ∃ way, way ≠ [] ∧ q = p ++ way

/-- An address is left of another one if the ways part at some node and it goes on through the earlier child. -/
def LeftOf (p q : List Nat) : Prop :=
  ∃ common i j way way', i < j ∧ p = common ++ i :: way ∧ q = common ++ j :: way'

/-- What is above comes first, and what is on the left. -/
def ComesBefore (p q : List Nat) : Prop := Above p q ∨ LeftOf p q

theorem comesBefore_cons {p q : List Nat} (h : ComesBefore p q) (i : Nat) : ComesBefore (i :: p) (i :: q) := by
  rcases h with ⟨way, hway, rfl⟩ | ⟨common, j, k, way, way', hlt, rfl, rfl⟩
  · exact Or.inl ⟨way, hway, rfl⟩
  · exact Or.inr ⟨i :: common, j, k, way, way', hlt, rfl, rfl⟩

theorem comesBefore_of_lt {i j : Nat} (h : i < j) (way way' : List Nat) : ComesBefore (i :: way) (j :: way') :=
  Or.inr ⟨[], i, j, way, way', h, rfl, rfl⟩

theorem nil_comesBefore (i : Nat) (way : List Nat) : ComesBefore [] (i :: way) :=
  Or.inl ⟨i :: way, List.cons_ne_nil i way, rfl⟩

theorem ne_of_comesBefore {p q : List Nat} (h : ComesBefore p q) : p ≠ q := by
  rintro rfl
  rcases h with ⟨way, hway, heq⟩ | ⟨common, i, j, way, way', hlt, hp, hq⟩
  · exact hway (List.self_eq_append_right.mp heq)
  · have hsame := List.append_cancel_left (hp.symm.trans hq)
    have hij : i = j := (List.cons.inj hsame).1
    omega

/-! ## The addresses of a tree -/

/-- The node at an address. -/
def Node.at? : Node → List Nat → Option Node
  | n, [] => some n
  | n, i :: way => (n.children[i]?.bind Value.node?).bind (·.at? way)

namespace Value

mutual

/-- The addresses of a node and of all nodes below it, in order; none for any other value. -/
def addresses : Value → List (List Nat)
  | .node _ children _ => [] :: addressesFrom 0 children
  | _ => []

/-- The addresses of the nodes in and below some children, the first of which has the given number. -/
def addressesFrom (i : Nat) : List Value → List (List Nat)
  | [] => []
  | v :: rest => (addresses v).map (i :: ·) ++ addressesFrom (i + 1) rest

end

theorem mem_addressesFrom {vs : List Value} {i : Nat} {p : List Nat} :
    p ∈ addressesFrom i vs ↔ ∃ j v way, vs[j]? = some v ∧ way ∈ v.addresses ∧ p = (i + j) :: way := by
  induction vs generalizing i with
  | nil => simp [addressesFrom]
  | cons v vs ih =>
      rw [addressesFrom, List.mem_append, List.mem_map, ih]
      constructor
      · rintro (⟨way, hway, rfl⟩ | ⟨j, w, way, hw, hway, rfl⟩)
        · exact ⟨0, v, way, rfl, hway, rfl⟩
        · exact ⟨j + 1, w, way, hw, hway, by rw [Nat.add_right_comm, Nat.add_assoc]⟩
      · rintro ⟨j, w, way, hw, hway, rfl⟩
        cases j with
        | zero =>
            rw [List.getElem?_cons_zero, Option.some.injEq] at hw
            exact Or.inl ⟨way, hw ▸ hway, rfl⟩
        | succ j => exact Or.inr ⟨j, w, way, hw, hway, by rw [Nat.add_right_comm, Nat.add_assoc]⟩

/-! ## In order -/

mutual

/-- The addresses are listed in order. -/
theorem pairwise_addresses : ∀ v : Value, v.addresses.Pairwise ComesBefore
  | .node kind children layout => by
    rw [addresses, List.pairwise_cons]
    refine ⟨?_, pairwise_addressesFrom 0 children⟩
    intro p hp
    obtain ⟨j, v, way, _, _, rfl⟩ := mem_addressesFrom.mp hp
    exact nil_comesBefore _ way
  | .nil | .bool _ | .int _ | .float _ | .text _ | .tuple _ => List.Pairwise.nil

/-- The same for some children. -/
theorem pairwise_addressesFrom : ∀ (i : Nat) (vs : List Value), (addressesFrom i vs).Pairwise ComesBefore
  | _, [] => List.Pairwise.nil
  | i, v :: vs => by
    rw [addressesFrom, List.pairwise_append]
    refine ⟨?_, pairwise_addressesFrom (i + 1) vs, ?_⟩
    · rw [List.pairwise_map]
      exact (pairwise_addresses v).imp fun h => comesBefore_cons h i
    · intro p hp q hq
      obtain ⟨way, _, rfl⟩ := List.mem_map.mp hp
      obtain ⟨j, w, way', _, _, rfl⟩ := mem_addressesFrom.mp hq
      exact comesBefore_of_lt (by omega) way way'

end

/-! ## All of them -/

theorem not_mem_addresses {v : Value} (h : v.node? = none) (way : List Nat) : way ∉ v.addresses := by
  cases v with
  | node kind children layout => exact absurd h (by simp [node?])
  | nil | bool _ | int _ | float _ | text _ | tuple _ => exact List.not_mem_nil

/-- An address is listed if there is a node at it. -/
theorem mem_addresses_iff {n : Node} {p : List Nat} : p ∈ n.toValue.addresses ↔ (n.at? p).isSome = true := by
  induction p generalizing n with
  | nil => simp [Node.toValue, addresses, Node.at?]
  | cons i way ih =>
      have hchild : i :: way ∈ n.toValue.addresses ↔ ∃ v, n.children[i]? = some v ∧ way ∈ v.addresses := by
        rw [Node.toValue, addresses, List.mem_cons, mem_addressesFrom]
        simp
      rw [hchild, Node.at?]
      constructor
      · rintro ⟨v, hv, hway⟩
        cases hnode : v.node? with
        | none => exact absurd hway (not_mem_addresses hnode way)
        | some m =>
            rw [eq_toValue_of_node? hnode] at hway
            rw [hv, Option.bind_some, hnode, Option.bind_some]
            exact ih.mp hway
      · intro h
        obtain ⟨m, hm⟩ := Option.isSome_iff_exists.mp (Option.isSome_of_isSome_bind h)
        obtain ⟨v, hv, hnode⟩ := Option.bind_eq_some_iff.mp hm
        rw [hm, Option.bind_some] at h
        refine ⟨v, hv, ?_⟩
        rw [eq_toValue_of_node? hnode]
        exact ih.mpr h

mutual

/-- At the addresses stand the nodes of the preorder. -/
theorem map_at?_addresses : ∀ n : Node, n.toValue.addresses.map n.at? = n.preorder.map some
  | ⟨kind, children, layout⟩ => by
    rw [Node.preorder, Node.toValue, addresses, preorder, List.map_cons, List.map_cons, Node.at?]
    exact congrArg _ (map_at?_addressesFrom ⟨kind, children, layout⟩ 0 children fun j => by rw [Nat.zero_add])

/-- The same below some of the children of a node. -/
theorem map_at?_addressesFrom (n : Node) : ∀ (i : Nat) (vs : List Value), (∀ j, n.children[i + j]? = vs[j]?) →
    (addressesFrom i vs).map n.at? = (preorderAll vs).map some
  | _, [], _ => rfl
  | i, v :: vs, h => by
    have hfirst : n.children[i]? = some v := h 0
    have hrest (j : Nat) : n.children[i + 1 + j]? = vs[j]? := by
      rw [Nat.add_assoc, Nat.add_comm 1 j]
      exact h (j + 1)
    rw [addressesFrom, preorderAll, List.map_append, List.map_append, map_at?_addressesFrom n (i + 1) vs hrest,
      List.map_map]
    refine congrArg (· ++ _) ?_
    cases hv : v with
    | node kind children layout =>
        have hbelow : n.at? ∘ (i :: ·) = (⟨kind, children, layout⟩ : Node).at? := by
          funext way
          rw [Function.comp_apply, Node.at?, hfirst, hv]
          rfl
        rw [hbelow]
        exact map_at?_addresses ⟨kind, children, layout⟩
    | nil | bool _ | int _ | float _ | text _ | tuple _ => rfl

end

end Value

/-! ## The walk -/

/-- What is detected in a tree is detected at its addresses, in their order. -/
theorem CreateListRule.idioms_eq_addresses (n : Node) :
    CreateListRule.idioms n = n.toValue.addresses.filterMap fun p => (n.at? p).bind fun w => detect w.toValue := by
  calc CreateListRule.idioms n
      = n.preorder.filterMap fun w => detect w.toValue := by
        rw [CreateListRule.idioms_eq, Value.idiomsAll_nests, Node.preorder]
    _ = (n.preorder.map some).filterMap fun found => found.bind fun w => detect w.toValue := by
        rw [List.filterMap_map]
        rfl
    _ = n.toValue.addresses.filterMap fun p => (n.at? p).bind fun w => detect w.toValue := by
        rw [← Value.map_at?_addresses, List.filterMap_map]
        rfl

/-- **The walk goes through a tree in order.** It lists a node and then what the walks of its child nodes list, from
left to right, which is the preorder. These are the nodes at the addresses of the tree, one for each address, in the
order of the addresses: what is above comes before what is below, and the left before the right. In this order, too, the
rule reports what it detects at the addresses; it fails if there is a block among these whose replacement cannot be
written. -/
theorem walk_in_order (n : Node) :
    n.walk = n :: n.childNodes.flatMap Node.walk ∧ n.walk = n.preorder ∧
    ∃ addresses : List (List Nat),
      (∀ p, p ∈ addresses ↔ (n.at? p).isSome = true) ∧ addresses.Nodup ∧
      addresses.Pairwise (fun p q => Above p q ∨ LeftOf p q) ∧
      addresses.map n.at? = n.walk.map some ∧
      ∀ path text, CreateListRule.visit ⟨path, text, some n⟩ =
        (addresses.filterMap fun p => (n.at? p).bind fun w => detect w.toValue).mapM (CreateListRule.finding path) := by
  have hwalk : Node.walk = Node.preorder := funext Node.walk_eq_preorder
  have hordered := n.toValue.pairwise_addresses
  refine ⟨?_, n.walk_eq_preorder, n.toValue.addresses, fun p => Value.mem_addresses_iff, ?_, hordered, ?_, ?_⟩
  · rw [hwalk]
    exact n.preorder_eq
  · exact hordered.imp ne_of_comesBefore
  · rw [n.walk_eq_preorder]
    exact Value.map_at?_addresses n
  · intro path text
    rw [← CreateListRule.idioms_eq_addresses]
    rfl

end IdiomLint
