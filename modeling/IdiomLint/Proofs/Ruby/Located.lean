import IdiomLint.Proofs.Idiom.Detection
import IdiomLint.Proofs.Ruby.Framing
import IdiomLint.Proofs.Syntax.Walk

/-!
# Places of converted nodes

Whatever a grammar makes of a source, a converted node has a stretch of the source or no place at all
(`located_of_convert`): the ends of stretches are offsets from the beginning of the source, and so are those of what
is detected in the tree (`offsets_of_idiom`).
-/

namespace IdiomLint.Ruby

variable {source : List UInt8} {n : ConcreteNode}

/-- A literal, or a node that has a stretch of the source or no place, as have all nodes below it. -/
inductive Located (source : List UInt8) : Value → Prop
  | literal {v : Value} : IsLiteral v → Located source v
  | node {kind : String} {children : List Value} {layout : Layout} :
      (∀ s ∈ layout.extent, ∃ first last : Nat, s = spanBetween source first last) →
      (∀ c ∈ children, Located source c) → Located source (.node kind children layout)

/-! ## One node over located ones -/

theorem located_over {kind : String} {children : List Value} {layout : Layout} {first last : Nat}
    (hextent : layout.extent = some (spanBetween source first last)) (h : ∀ c ∈ children, Located source c) :
    Located source (.node kind children layout) := by
  refine .node (fun s hs => ?_) h
  rw [hextent] at hs
  cases hs
  exact ⟨first, last, rfl⟩

theorem located_build {kind : String} {values : List Value} (h : ∀ c ∈ values, Located source c) :
    Located source (n.build source kind values).toValue := located_over rfl h

theorem located_values {vs : List Node} (h : ∀ v ∈ vs, Located source v.toValue) :
    ∀ c ∈ vs.map Node.toValue, Located source c := List.forall_mem_map.mpr h

theorem located_valueOf {part : Option Node} (h : ∀ v ∈ part, Located source v.toValue) :
    Located source (valueOf part) := by
  cases part with
  | none => exact .literal .nil
  | some v => exact h v rfl

theorem located_nodeOver {kind : String} {first : Node} {rest : List Node}
    (h : ∀ v ∈ first :: rest, Located source v.toValue) : Located source (nodeOver source kind first rest).toValue :=
  located_over rfl (located_values h)

theorem located_gatherPairs {vs : List Node} (h : ∀ v ∈ vs, Located source v.toValue) :
    ∀ v ∈ gatherPairs source [] vs, Located source v.toValue := by
  intro v hv
  rcases mem_gatherPairs vs hv with hv | ⟨first, rest, rfl, hsub⟩
  · exact h v hv
  · exact located_nodeOver fun u hu => h u (hsub.subset hu)

theorem located_joinStatements {vs : List Node} (h : ∀ v ∈ vs, Located source v.toValue) :
    Located source (valueOf (joinStatements source vs)) := by
  match vs with
  | [] => exact .literal .nil
  | [one] => exact h one List.mem_cons_self
  | _ :: _ :: _ => exact located_nodeOver h

theorem located_callNode {receiver : Option Node} {arguments : List Node}
    (hreceiver : ∀ v ∈ receiver, Located source v.toValue) (harguments : ∀ v ∈ arguments, Located source v.toValue) :
    Located source (callNode source n receiver arguments).toValue := by
  obtain ⟨method, hchildren⟩ := @callNode_children source n receiver arguments
  refine located_over rfl ?_
  rw [hchildren, List.forall_mem_cons, List.forall_mem_cons]
  exact ⟨located_valueOf hreceiver, .literal (.text _), located_values (located_gatherPairs harguments)⟩

theorem located_argsNode {parameters : Option (ConcreteNode × List Node)}
    (h : ∀ found ∈ parameters, ∀ p ∈ found.2, Located source p.toValue) :
    Located source (argsNode source parameters).toValue := by
  cases parameters with
  | none => exact .node nofun (List.forall_mem_nil _)
  | some found => exact located_build (located_values (h found rfl))

/-! ## Conversions -/

/-- Whatever the nodes inside a concrete node become is located. -/
def LocatedBelow (source : List UInt8) (n : ConcreteNode) : Prop :=
  ∀ m, Inner m n → ∀ v, Shape source m v → Located source v.toValue

namespace LocatedBelow

variable (h : LocatedBelow source n)

include h

theorem all {ns : List ConcreteNode} {vs : List Node} (hvs : List.Forall₂ (Shape source) ns vs)
    (hinner : ∀ m ∈ ns, Inner m n) : ∀ v ∈ vs, Located source v.toValue := by
  intro v hv
  obtain ⟨m, hm, hshape⟩ := exists_mem_of_forall₂ hvs v hv
  exact h m (hinner m hm) v hshape

theorem convertAll {ns : List ConcreteNode} {vs : List Node} (hvs : convertAll source ns = .ok vs)
    (hinner : ∀ m ∈ ns, Inner m n) : ∀ v ∈ vs, Located source v.toValue :=
  h.all ((forall₂_of_convertAll hvs).imp fun _ _ => shape_of_convert) hinner

theorem part {field : String} {part : Option Node} (hpart : convertPart source (n.childFor? field) = .ok part) :
    ∀ v ∈ part, Located source v.toValue := by
  intro v hv
  obtain ⟨m, hm, hconvert⟩ := exists_of_convertPart hpart hv
  exact h m (inner_childFor? (Option.mem_toList.mpr hm)) v (shape_of_convert hconvert)

theorem args {block : ConcreteNode} {parameters : Option (ConcreteNode × List Node)}
    (hblock : n.childFor? "block" = some block)
    (hparameters : convertParameterList source (blockParameters? block) = .ok parameters) :
    Located source (argsNode source parameters).toValue := by
  refine located_argsNode fun found hfound => ?_
  cases hwritten : blockParameters? block with
  | none =>
      rw [hwritten] at hparameters
      cases hparameters
      exact absurd hfound (by simp)
  | some written =>
      rw [hwritten] at hparameters
      obtain ⟨ps, hps, rfl⟩ := map_eq_ok.mp hparameters
      cases hfound
      have hmem := block.parts_sublist.subset (ConcreteNode.mem_blockParameters? hwritten).1
      have hinner : Inner written n := .tail (.single hmem) (ConcreteNode.childFor?_eq_some hblock).1
      exact h.all (shape_of_convertParameters hps) fun m hm => (inner_part hm).trans hinner

/-- A node of any shape is located if whatever the nodes inside it become is. -/
theorem of_shape {v : Node} (hv : Shape source n v) : Located source v.toValue := by
  cases hv with
  | leaf hliteral _ _ _ => exact located_build fun c hc => .literal (hliteral c hc)
  | parts hvs _ _ => exact located_build (located_values (h.convertAll hvs fun m hm => inner_part hm))
  | @scope c parent name hscope hparent =>
      have hlocated := h c (inner_childFor? (Option.mem_toList.mpr hscope)) parent (shape_of_convert hparent)
      exact located_build (by simpa using ⟨hlocated, .literal (.text name)⟩)
  | @top name _ _ =>
      have hcolons : Located source
          (.node "cbase" [] { extent := some (spanBetween source n.start (n.start + 2)) }) :=
        located_over rfl (List.forall_mem_nil _)
      exact located_build (by simpa using ⟨hcolons, .literal (.text name)⟩)
  | pair hkey hvalue =>
      exact located_build (by simpa using ⟨located_valueOf (h.part hkey), located_valueOf (h.part hvalue)⟩)
  | call hreceiver harguments =>
      exact located_callNode (h.part hreceiver)
        (h.convertAll harguments fun m hm => inner_callParts (List.mem_append_right _ hm))
  | @block receiver arguments statements block parameters _ hreceiver harguments hblock hparameters hstatements hv =>
      obtain ⟨kind, second, rfl, _, hsecond⟩ := of_blockNode hv
      have hcall : Located source (callNode source n receiver arguments).toValue := located_callNode (h.part hreceiver)
        (h.convertAll harguments fun m hm => inner_callParts (List.mem_append_right _ hm))
      have hbody := located_joinStatements (h.convertAll hstatements fun s hs =>
        (inner_blockExpressions (List.mem_append_right _ hs)).tail (ConcreteNode.childFor?_eq_some hblock).1)
      have hsecond : Located source second := by
        cases hsecond with
        | it _ => exact .literal (.text _)
        | numbered _ _ => exact .literal (.int _)
        | written => exact h.args hblock hparameters
      exact located_build (by simpa using ⟨hcall, hsecond, hbody⟩)

end LocatedBelow

theorem located_of_shape {n : ConcreteNode} {v : Node} (hv : Shape source n v) : Located source v.toValue := by
  have hbelow : LocatedBelow source n := fun m hm u hu => located_of_shape hu
  exact hbelow.of_shape hv
termination_by n.weight
decreasing_by exact weight_lt_of_inner hm

theorem located_of_convert {v : Node} (h : convert source n = .ok v) : Located source v.toValue :=
  located_of_shape (shape_of_convert h)

/-! ## Offsets -/

/-- A located node begins and ends at offsets from the beginning of the source. -/
theorem Located.offsets {v : Node} (h : Located source v.toValue) : 0 ≤ v.start ∧ 0 ≤ v.stop := by
  obtain ⟨kind, children, layout⟩ := v
  change Located source (.node kind children layout) at h
  cases h with
  | literal hv => exact nomatch hv
  | node hextent _ =>
      rw [Node.start, Node.stop]
      cases hplace : layout.extent with
      | none => exact ⟨Int.le_refl 0, Int.le_refl 0⟩
      | some s =>
          obtain ⟨first, last, rfl⟩ := hextent s hplace
          exact ⟨Int.natCast_nonneg first, Int.natCast_nonneg last⟩

/-- The nodes in a located value are located. -/
theorem Located.of_mem_preorder {v : Value} (h : Located source v) : ∀ w ∈ v.preorder, Located source w.toValue := by
  induction h with
  | literal hv =>
      intro w hw
      cases hv <;> exact absurd hw List.not_mem_nil
  | @node kind children layout hextent hchildren ih =>
      intro w hw
      rw [Value.preorder, List.mem_cons, Value.mem_preorderAll] at hw
      rcases hw with rfl | ⟨c, hc, hw⟩
      · exact .node hextent hchildren
      · exact ih c hc w hw

end IdiomLint.Ruby
