import Mathlib.Data.List.Forall2
import IdiomLint.Proofs.Syntax.Walk
import IdiomLint.Ruby.ImplicitParameter

/-!
# Trees in which the same is read

Of a node the search for implicit parameters sees what the node reads itself and the nodes that are
searched below it. `Similar` relates nodes of which it sees the same, at every depth; then it finds the
same in them (`searchFrom_of_similar`). Two blocks are similar as soon as the operands of their calls are,
whatever stands in their bodies (`similar_of_operands`).
-/

namespace IdiomLint.Ruby

/-- A node reads what another one reads. -/
structure SameRead (v v' : Node) : Prop where
  block : isBlockKind v.kind = isBlockKind v'.kind
  number : isBlockKind v.kind = false → numberRead v = numberRead v'
  it : isBlockKind v.kind = false → isItRead v = isItRead v'

/-- The search sees the same in two nodes. -/
inductive Similar : Node → Node → Prop
  | found {v v' : Node} {below below' : List Node} : SameRead v v' →
      searchBelow v = .ok below → searchBelow v' = .ok below' →
      List.Forall₂ Similar below below' → Similar v v'
  | failed {v v' : Node} {e : TreeError} : SameRead v v' →
      searchBelow v = .error e → searchBelow v' = .error e → Similar v v'

theorem Similar.sameRead {v v' : Node} (h : Similar v v') : SameRead v v' := by
  cases h with
  | found hread _ _ _ => exact hread
  | failed hread _ _ => exact hread

/-! ## The search -/

/-- One step of the search. -/
theorem searchFrom_cons (highest : Nat) (usesIt : Bool) (v : Node) (stack : List Node) :
    searchFrom highest usesIt (v :: stack) =
      if isBlockKind v.kind then
        searchBelow v >>= fun below => searchFrom highest usesIt (below ++ stack)
      else
        numberRead v >>= fun number => searchBelow v >>= fun below =>
          searchFrom (max highest number) (usesIt || isItRead v) (below ++ stack) := by
  rw [searchFrom]
  split
  · split
    · next e he =>
        rw [he]
        rfl
    · next below hbelow =>
        show searchFrom highest usesIt (below ++ stack) = _
        rw [hbelow]
        rfl
  · cases numberRead v with
    | error e => rfl
    | ok number =>
        simp only
        split
        · next e he =>
            rw [he]
            rfl
        · next below hbelow =>
            show searchFrom (max highest number) (usesIt || isItRead v) (below ++ stack) = _
            rw [hbelow]
            rfl

/-- The search finds the same in similar nodes. -/
theorem searchFrom_of_similar {highest : Nat} {usesIt : Bool} {stack : List Node} :
    ∀ {stack' : List Node}, List.Forall₂ Similar stack stack' →
      searchFrom highest usesIt stack = searchFrom highest usesIt stack' := by
  induction highest, usesIt, stack using searchFrom.induct with
  | case1 highest usesIt =>
      intro stack' h
      cases h
      rfl
  | case2 highest usesIt v stack hkind e he =>
      intro stack' h
      cases h with
      | @cons _ v' _ rest' hv _ =>
          have hkind' := hv.sameRead.block.symm.trans hkind
          rw [searchFrom_cons, searchFrom_cons, if_pos hkind, if_pos hkind', he]
          cases hv with
          | found _ hbelow _ _ => exact absurd (he.symm.trans hbelow) (by simp)
          | failed _ hfail hfail' =>
              cases he.symm.trans hfail
              rw [hfail']
              rfl
  | case3 highest usesIt v stack hkind below hbelow _ ih =>
      intro stack' h
      cases h with
      | @cons _ v' _ rest' hv hrest =>
          have hkind' := hv.sameRead.block.symm.trans hkind
          rw [searchFrom_cons, searchFrom_cons, if_pos hkind, if_pos hkind', hbelow]
          cases hv with
          | found _ hfound hfound' hsame =>
              cases hbelow.symm.trans hfound
              rw [hfound']
              exact ih (List.rel_append hsame hrest)
          | failed _ hfail _ => exact absurd (hbelow.symm.trans hfail) (by simp)
  | case4 highest usesIt v stack hkind e he =>
      intro stack' h
      cases h with
      | @cons _ v' _ rest' hv _ =>
          have hread := hv.sameRead
          have hkind := Bool.eq_false_iff.mpr hkind
          rw [searchFrom_cons, searchFrom_cons, ← hread.block, hkind, if_neg Bool.false_ne_true,
            if_neg Bool.false_ne_true, ← hread.number hkind, he]
          rfl
  | case5 highest usesIt v stack hkind number hnumber e he =>
      intro stack' h
      cases h with
      | @cons _ v' _ rest' hv _ =>
          have hread := hv.sameRead
          have hkind := Bool.eq_false_iff.mpr hkind
          rw [searchFrom_cons, searchFrom_cons, ← hread.block, hkind, if_neg Bool.false_ne_true,
            if_neg Bool.false_ne_true, ← hread.number hkind, hnumber, he]
          cases hv with
          | found _ hbelow _ _ => exact absurd (he.symm.trans hbelow) (by simp)
          | failed _ hfail hfail' =>
              cases he.symm.trans hfail
              rw [hfail']
              rfl
  | case6 highest usesIt v stack hkind number hnumber below hbelow _ ih =>
      intro stack' h
      cases h with
      | @cons _ v' _ rest' hv hrest =>
          have hread := hv.sameRead
          have hkind := Bool.eq_false_iff.mpr hkind
          rw [searchFrom_cons, searchFrom_cons, ← hread.block, hkind, if_neg Bool.false_ne_true,
            if_neg Bool.false_ne_true, ← hread.number hkind, ← hread.it hkind, hnumber, hbelow]
          cases hv with
          | found _ hfound hfound' hsame =>
              cases hbelow.symm.trans hfound
              rw [hfound']
              exact ih (List.rel_append hsame hrest)
          | failed _ hfail _ => exact absurd (hbelow.symm.trans hfail) (by simp)

theorem implicitParameter_of_similar {body body' : Option Node} (h : Option.Rel Similar body body') :
    implicitParameter body = implicitParameter body' := by
  cases h with
  | none => rfl
  | some h =>
      show (searchFrom 0 false [_] >>= _) = (searchFrom 0 false [_] >>= _)
      rw [searchFrom_of_similar (.cons h .nil)]

/-! ## Nodes with similar children -/

/-- Two children are similar: both are nodes that are, or neither is a node. -/
def SimilarValue (v v' : Value) : Prop := Option.Rel Similar v.node? v'.node?

theorem similar_filterMap {vs vs' : List Value} (h : List.Forall₂ SimilarValue vs vs') :
    List.Forall₂ Similar (vs.filterMap Value.node?) (vs'.filterMap Value.node?) :=
  List.rel_filterMap (fun _ _ hv => hv) h

theorem similarValue_toValue {vs vs' : List Node} (h : List.Forall₂ Similar vs vs') :
    List.Forall₂ SimilarValue (vs.map Node.toValue) (vs'.map Node.toValue) := by
  rw [List.forall₂_map_left_iff, List.forall₂_map_right_iff]
  exact h.imp fun _ _ hv => .some hv

theorem forall₂_toList {v v' : Option Node} (h : Option.Rel Similar v v') :
    List.Forall₂ Similar v.toList v'.toList := by
  cases h with
  | none => exact .nil
  | some h => exact .cons h .nil

/-- Nodes that are no blocks are similar when their children are and they read the same. -/
theorem similar_of_children {v v' : Node} (hkind : isBlockKind v.kind = false) (hread : SameRead v v')
    (h : List.Forall₂ SimilarValue v.children v'.children) : Similar v v' := by
  have hkind' := hread.block.symm.trans hkind
  refine @Similar.found v v' v.childNodes.reverse v'.childNodes.reverse hread ?_ ?_ ?_
  · rw [searchBelow, hkind, if_neg Bool.false_ne_true]
  · rw [searchBelow, hkind', if_neg Bool.false_ne_true]
  · exact List.rel_reverse (similar_filterMap h)

theorem sameRead_of_blocks {v v' : Node} (hkind : isBlockKind v.kind = true)
    (hkind' : isBlockKind v'.kind = true) : SameRead v v' := by
  have hne : isBlockKind v.kind ≠ false := by
    rw [hkind]
    decide
  exact ⟨hkind.trans hkind'.symm, fun h => absurd h hne, fun h => absurd h hne⟩

/-- Blocks are similar when the children of their calls are, whatever stands in their bodies. -/
theorem similar_of_operands {v v' call call' : Node} {rest rest' : List Value}
    (hkind : isBlockKind v.kind = true) (hkind' : isBlockKind v'.kind = true)
    (hcall : v.children = call.toValue :: rest) (hcall' : v'.children = call'.toValue :: rest')
    (h : List.Forall₂ SimilarValue call.children call'.children) : Similar v v' := by
  have hread := sameRead_of_blocks hkind hkind'
  have hbelow : searchBelow v = callOperands call := by
    rw [searchBelow, hkind, if_pos rfl, hcall]
    rfl
  have hbelow' : searchBelow v' = callOperands call' := by
    rw [searchBelow, hkind', if_pos rfl, hcall']
    rfl
  rw [callOperands] at hbelow hbelow'
  cases hchildren : call.children with
  | nil =>
      rw [hchildren] at h hbelow
      have hchildren' := List.forall₂_nil_left_iff.mp h
      rw [hchildren'] at hbelow'
      exact .failed hread hbelow hbelow'
  | cons receiver operands =>
      rw [hchildren] at h hbelow
      cases hchildren' : call'.children with
      | nil =>
          rw [hchildren'] at h
          exact absurd h (by simp)
      | cons receiver' operands' =>
          rw [hchildren'] at h hbelow'
          obtain ⟨hreceiver, hoperands⟩ := List.forall₂_cons.mp h
          refine .found hread hbelow hbelow' ?_
          apply List.rel_append (forall₂_toList hreceiver)
          exact List.rel_reverse (similar_filterMap (List.forall₂_drop 1 hoperands))

/-- Below a block whose first child is no node nothing is searched. -/
theorem searchBelow_of_literal {v : Node} {w : Value} {rest : List Value} (hkind : isBlockKind v.kind = true)
    (hchildren : v.children = w :: rest) (hw : w.node? = none) : searchBelow v = .ok [] := by
  rw [searchBelow, hkind, if_pos rfl, hchildren]
  cases w with
  | node kind children layout => exact absurd hw (by simp [Value.node?])
  | nil | bool _ | int _ | float _ | text _ | tuple _ => rfl

/-- Blocks that come from no call are similar when their children are, and the children of the first
child, which the search takes for a call. -/
theorem similar_of_blocks {v v' : Node} (hkind : isBlockKind v.kind = true)
    (hkind' : isBlockKind v'.kind = true) (h : List.Forall₂ SimilarValue v.children v'.children)
    (hfirst : ∀ c c' : Node, v.children.head? = some c.toValue → v'.children.head? = some c'.toValue →
      List.Forall₂ SimilarValue c.children c'.children) : Similar v v' := by
  have hread := sameRead_of_blocks hkind hkind'
  generalize hchildren : v.children = ws at h hfirst
  generalize hchildren' : v'.children = ws' at h hfirst
  cases h with
  | nil =>
      refine @Similar.failed v v' .missingChild hread ?_ ?_
      · rw [searchBelow, hkind, if_pos rfl, hchildren]
      · rw [searchBelow, hkind', if_pos rfl, hchildren']
  | @cons w w' rest rest' hw _ =>
      unfold SimilarValue at hw
      generalize hnode : w.node? = c at hw
      generalize hnode' : w'.node? = c' at hw
      cases hw with
      | none =>
          exact .found hread (searchBelow_of_literal hkind hchildren hnode)
            (searchBelow_of_literal hkind' hchildren' hnode') .nil
      | @some c c' _ =>
          have hc := Value.eq_toValue_of_node? hnode
          have hc' := Value.eq_toValue_of_node? hnode'
          rw [hc] at hchildren hfirst
          rw [hc'] at hchildren' hfirst
          exact similar_of_operands hkind hkind' hchildren hchildren' (hfirst c c' rfl rfl)

end IdiomLint.Ruby
