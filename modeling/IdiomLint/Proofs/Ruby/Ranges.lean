import IdiomLint.Proofs.Idiom.Completeness
import IdiomLint.Proofs.Ruby.Framing
import IdiomLint.Proofs.Ruby.Repeats
import IdiomLint.Proofs.Syntax.Walk

/-!
# The ranges of a converted tree

Where a concrete tree is laid out as a grammar makes it, the nodes of the syntax tree are laid out likewise:
a node has the text of its stretch of the source, its delimiters in it, and lies in the stretch of the nearest
node above it (`Nested`). That holds too of the nodes that no concrete node stands for: the call in front of a
block, the statements of a block, the pairs among the arguments of a call and the top of a rooted constant.
Only the parameters of a block in which none are written have no place. Main statement:
`ranges_of_convert`.
-/

namespace IdiomLint

/-- The node `u` is the nearest one above another node that has a place in the source. -/
inductive Node.Surrounds (u : Node) : Node → Prop
  | child {w : Node} : u.layout.extent.isSome → w.toValue ∈ u.children → Surrounds u w
  /-- What lies between has no place. -/
  | through {v w : Node} : Surrounds u v → v.layout.extent = none → w.toValue ∈ v.children → Surrounds u w

theorem Node.Surrounds.isSome_extent {u w : Node} (h : u.Surrounds w) : u.layout.extent.isSome := by
  induction h with
  | child hu _ => exact hu
  | through _ _ _ ih => exact ih

namespace Ruby

open ConcreteNode (Within WellFormed LaidOut)

variable {source : List UInt8} {Open : Node → Prop} {n : ConcreteNode} {low high first last : Nat}

/-! ## Stretches inside each other -/

/-- A place in the source from `first` to `last`: the text is that of the stretch, and the delimiters lie in
it. -/
structure Covers (source : List UInt8) (layout : Layout) (first last : Nat) : Prop where
  extent : layout.extent = some (spanBetween source first last)
  ordered : first ≤ last
  delimiters : ∀ s, s ∈ layout.opening ∨ s ∈ layout.closing →
    (first : Int) ≤ s.start ∧ s.start ≤ s.stop ∧ s.stop ≤ (last : Int)

/-- The parameters of a block in which none are written. -/
def noParameters : Node := { kind := "args" }

/-- A value lies between two offsets: it is a literal, or a node with a place between the offsets in which
all its children lie. `Open` holds of the nodes that have parameters without a place among their children. -/
inductive Nested (source : List UInt8) (Open : Node → Prop) : Nat → Nat → Value → Prop
  | literal {low high : Nat} {v : Value} : IsLiteral v → Nested source Open low high v
  | node {low high first last : Nat} {kind : String} {children : List Value} {layout : Layout} :
      Covers source layout first last → low ≤ first → last ≤ high →
      (∀ c ∈ children, c ≠ noParameters.toValue → Nested source Open first last c) →
      (noParameters.toValue ∈ children → Open ⟨kind, children, layout⟩) →
      Nested source Open low high (.node kind children layout)

theorem Nested.mono {v : Value} {low' high' : Nat} (h : Nested source Open low high v) (hlow : low' ≤ low)
    (hhigh : high ≤ high') : Nested source Open low' high' v := by
  cases h with
  | literal hv => exact .literal hv
  | node hcovers hfirst hlast hchildren hopen =>
      exact .node hcovers (Nat.le_trans hlow hfirst) (Nat.le_trans hlast hhigh) hchildren hopen

/-- A node lies between its own ends. -/
theorem Nested.exists_covers {v : Node} (h : Nested source Open low high v.toValue) :
    ∃ first last, Covers source v.layout first last ∧ low ≤ first ∧ last ≤ high ∧
      Nested source Open first last v.toValue := by
  obtain ⟨kind, children, layout⟩ := v
  change Nested source Open low high (.node kind children layout) at h
  cases h with
  | literal hv => exact nomatch hv
  | node hcovers hfirst hlast hchildren hopen =>
      exact ⟨_, _, hcovers, hfirst, hlast, .node hcovers (Nat.le_refl _) (Nat.le_refl _) hchildren hopen⟩

theorem not_nested_noParameters : ¬Nested source Open low high noParameters.toValue := by
  intro h
  obtain ⟨_, _, hcovers, _⟩ := h.exists_covers
  exact nomatch hcovers.extent

/-- A node with a place in which all its children lie. -/
theorem nested_node {v : Node} (h : Covers source v.layout first last)
    (hchildren : ∀ c ∈ v.children, Nested source Open first last c) :
    Nested source Open first last v.toValue := by
  refine .node h (Nat.le_refl _) (Nat.le_refl _) (fun c hc _ => hchildren c hc) fun hmem => ?_
  exact absurd (hchildren _ hmem) not_nested_noParameters

theorem covers_of_extent {layout : Layout} (h : layout = { extent := some (spanBetween source first last) })
    (hordered : first ≤ last) : Covers source layout first last := by
  subst h
  refine ⟨rfl, hordered, ?_⟩
  rintro s (hs | hs)
  · exact nomatch hs
  · exact nomatch hs

theorem Covers.start_eq {v : Node} (h : Covers source v.layout first last) : v.start = first := by
  rw [Node.start, h.extent]
  rfl

theorem Covers.stop_eq {v : Node} (h : Covers source v.layout first last) : v.stop = last := by
  rw [Node.stop, h.extent]
  rfl

theorem nested_build (hn : n.LaidOut) {kind : String} {values : List Value}
    (h : ∀ c ∈ values, Nested source Open n.start n.stop c) :
    Nested source Open n.start n.stop (n.build source kind values).toValue :=
  nested_node (covers_of_extent rfl hn.here.ordered) h

theorem nested_valueOf {v : Option Node} (h : ∀ u ∈ v, Nested source Open low high u.toValue) :
    Nested source Open low high (valueOf v) := by
  cases v with
  | none => exact .literal .nil
  | some u => exact h u rfl

/-! ## Nodes in order -/

/-- Nodes between two offsets, one after the other. -/
structure NestedAll (source : List UInt8) (Open : Node → Prop) (low high : Nat) (vs : List Node) : Prop where
  nested : ∀ v ∈ vs, Nested source Open low high v.toValue
  ordered : vs.Pairwise fun u v => u.stop ≤ v.start

theorem NestedAll.values {vs : List Node} (h : NestedAll source Open low high vs) :
    ∀ c ∈ vs.map Node.toValue, Nested source Open low high c := by
  intro c hc
  obtain ⟨v, hv, rfl⟩ := List.mem_map.mp hc
  exact h.nested v hv

theorem NestedAll.sublist {us vs : List Node} (h : NestedAll source Open low high vs) (hsub : us.Sublist vs) :
    NestedAll source Open low high us :=
  ⟨fun v hv => h.nested v (hsub.subset hv), h.ordered.sublist hsub⟩

/-- What nodes in order became lies in order. -/
theorem nestedAll_of_forall₂ {ns : List ConcreteNode} {vs : List Node}
    (h : List.Forall₂ (fun m v => Nested source Open m.start m.stop v.toValue) ns vs)
    (hwithin : ∀ m ∈ ns, low ≤ m.start ∧ m.stop ≤ high) (horder : ns.Pairwise fun a b => a.stop ≤ b.start) :
    NestedAll source Open low high vs := by
  induction h with
  | nil => exact ⟨List.forall_mem_nil _, List.Pairwise.nil⟩
  | @cons m v ns vs hv hvs ih =>
      rw [List.forall_mem_cons] at hwithin
      obtain ⟨hbefore, horder⟩ := List.pairwise_cons.mp horder
      obtain ⟨hnested, hordered⟩ := ih hwithin.2 horder
      refine ⟨List.forall_mem_cons.mpr ⟨hv.mono hwithin.1.1 hwithin.1.2, hnested⟩,
        List.pairwise_cons.mpr ⟨fun u hu => ?_, hordered⟩⟩
      -- The later node comes from a later concrete node.
      obtain ⟨c, hc, hu⟩ := exists_mem_of_forall₂ hvs u hu
      obtain ⟨_, _, hcovers, _, hlast, _⟩ := hv.exists_covers
      obtain ⟨_, _, hcovers', hfirst, _⟩ := hu.exists_covers
      have hmc := hbefore c hc
      rw [hcovers.stop_eq, hcovers'.start_eq]
      omega

/-- A node over nodes in order reaches from the first one to the last one. -/
theorem nested_nodeOver {kind : String} {head : Node} {rest : List Node}
    (h : NestedAll source Open low high (head :: rest)) :
    Nested source Open low high (nodeOver source kind head rest).toValue := by
  have hcovers : ∀ v ∈ head :: rest, ∃ first last, Covers source v.layout first last ∧ low ≤ first ∧
      last ≤ high ∧ Nested source Open first last v.toValue := fun v hv => (h.nested v hv).exists_covers
  have hends := ends_of_pairwise (fun v hv => ?_) h.ordered
  · obtain ⟨first, _, hhead, hlow, _⟩ := hcovers head List.mem_cons_self
    obtain ⟨_, last, htail, _, hhigh, _⟩ := hcovers _ (List.getLast_mem (List.cons_ne_nil head rest))
    have hbetween : ∀ v ∈ head :: rest, Nested source Open first last v.toValue ∧ first ≤ last := by
      intro v hv
      obtain ⟨_, _, hv', _, _, hnested⟩ := hcovers v hv
      have hplace := hends v hv
      have hordered := hv'.ordered
      rw [hhead.start_eq, htail.stop_eq, hv'.start_eq, hv'.stop_eq] at hplace
      exact ⟨hnested.mono (by omega) (by omega), by omega⟩
    have hover : Nested source Open first last (nodeOver source kind head rest).toValue := by
      refine nested_node (covers_of_extent ?_ (hbetween head List.mem_cons_self).2) fun c hc => ?_
      · simp only [nodeOver, hhead.start_eq, htail.stop_eq, Int.toNat_natCast]
      · obtain ⟨v, hv, rfl⟩ := List.mem_map.mp hc
        exact (hbetween v hv).1
    exact hover.mono hlow hhigh
  · obtain ⟨_, _, hv', _⟩ := hcovers v hv
    rw [hv'.start_eq, hv'.stop_eq]
    exact Int.ofNat_le.mpr hv'.ordered

theorem nested_gatherPairs {vs : List Node} (h : NestedAll source Open low high vs) :
    ∀ c ∈ (gatherPairs source [] vs).map Node.toValue, Nested source Open low high c := by
  intro c hc
  obtain ⟨v, hv, rfl⟩ := List.mem_map.mp hc
  rcases mem_gatherPairs vs hv with hv | ⟨first, rest, rfl, hsub⟩
  · exact h.nested v hv
  · exact nested_nodeOver (h.sublist hsub)

theorem nested_joinStatements {vs : List Node} (h : NestedAll source Open low high vs) :
    ∀ u ∈ joinStatements source vs, Nested source Open low high u.toValue := by
  intro u hu
  match vs, hu with
  | [one], hu => exact Option.some.inj hu ▸ h.nested one List.mem_cons_self
  | _ :: _ :: _, hu => exact Option.some.inj hu ▸ nested_nodeOver h

/-! ## Where the parts lie -/

theorem inner_within {m : ConcreteNode} (hn : n.LaidOut) (h : Inner m n) : n.start ≤ m.start ∧ m.stop ≤ n.stop :=
  within_of_inner (hn.wellFormed (Nat.le_refl _)) h

theorem of_parentheses? {arguments : ConcreteNode} {s t : Span}
    (h : parentheses? source arguments = some (s, t)) :
    ∃ head ∈ arguments.children, ∃ last ∈ arguments.children, s = head.span source ∧ t = last.span source := by
  unfold parentheses? at h
  split at h
  · exact absurd h (by simp)
  · next head rest hchildren =>
      simp only [Option.ite_none_right_eq_some, Option.some.injEq, Prod.mk.injEq] at h
      obtain ⟨_, rfl, rfl⟩ := h
      rw [hchildren]
      exact ⟨head, List.mem_cons_self, _, List.getLast_mem _, rfl, rfl⟩

/-- A call ends after its arguments, so after the parentheses around them. -/
theorem covers_callNode (hn : n.LaidOut) (receiver : Option Node) (arguments : List Node) :
    Covers source (callNode source n receiver arguments).layout n.start (callEnd n) := by
  refine ⟨rfl, start_le_callEnd (hn.wellFormed (Nat.le_refl _)), fun s hs => ?_⟩
  obtain ⟨a, ha, c, hc, rfl⟩ : ∃ a, n.childFor? "arguments" = some a ∧
      ∃ c ∈ a.children, s = c.span source := by
    rcases hs with hs | hs
    · obtain ⟨⟨_, _⟩, hparentheses, rfl⟩ := Option.map_eq_some_iff.mp hs
      obtain ⟨a, ha, hparentheses⟩ := Option.bind_eq_some_iff.mp hparentheses
      obtain ⟨c, hc, _, _, hspan, _⟩ := of_parentheses? hparentheses
      exact ⟨a, ha, c, hc, hspan⟩
    · obtain ⟨⟨_, _⟩, hparentheses, rfl⟩ := Option.map_eq_some_iff.mp hs
      obtain ⟨a, ha, hparentheses⟩ := Option.bind_eq_some_iff.mp hparentheses
      obtain ⟨_, _, c, hc, _, hspan⟩ := of_parentheses? hparentheses
      exact ⟨a, ha, c, hc, hspan⟩
  have hmem := (ConcreteNode.childFor?_eq_some ha).1
  have harguments := ConcreteNode.Everywhere.of_child hn hmem
  have hdelimiter := (harguments.of_child hc).here.ordered
  have hfirst := (inner_within hn (.tail (.single hc) hmem)).1
  have hlast := (harguments.here.children c hc).2
  have hend := (callEnd_spec n).2 "arguments" (by decide) a ha
  simp only [ConcreteNode.span, spanBetween, Int.ofNat_le]
  exact ⟨hfirst, hdelimiter, Nat.le_trans hlast hend⟩

theorem ordered_blockStatements {block : ConcreteNode} (hblock : block.LaidOut) :
    (blockStatements block).Pairwise fun a b => a.stop ≤ b.start := by
  have hparts : ∀ p ∈ block.parts, p.LaidOut :=
    fun p hp => ConcreteNode.Everywhere.of_child hblock (block.parts_sublist.subset hp)
  have hwithin : ∀ {p s : ConcreteNode}, p ∈ block.parts → s ∈ statementsOf p → Within s p := by
    intro p s hp hs
    exact (ConcreteNode.statementsOf_within ((hparts p hp).wellFormed (Nat.le_refl _)) hs).2
  refine List.Pairwise.sublist List.filter_sublist (List.pairwise_flatMap.mpr ⟨?_, ?_⟩)
  · intro p hp
    unfold statementsOf
    split
    · exact (hparts p (List.mem_filter.mp hp).1).here.siblings.sublist p.namedChildren_sublist
    · exact List.pairwise_singleton _ _
  · have hordered := (hblock.here.siblings.sublist block.parts_sublist).sublist
      (List.filter_sublist : (block.parts.filter (·.kind != "block_parameters")).Sublist block.parts)
    -- Statements of different parts stand one after the other as the parts do.
    apply hordered.imp_of_mem
    intro a b ha hb hab s hs t ht
    have hfirst := (hwithin (List.mem_filter.mp ha).1 hs).2
    have hlast := (hwithin (List.mem_filter.mp hb).1 ht).1
    omega

/-- A constant at the top has room for the two colons before its name. -/
def ConcreteNode.RootFits (n : ConcreteNode) : Prop :=
  n.kind = "scope_resolution" → n.childFor? "scope" = none → n.start + 2 ≤ n.stop

instance : DecidablePred ConcreteNode.RootFits := fun n =>
  decidable_of_iff (n.kind = "scope_resolution" → (n.childFor? "scope").isNone → n.start + 2 ≤ n.stop)
    (by rw [ConcreteNode.RootFits]; simp only [Option.isNone_iff_eq_none])

theorem kind_of_form_scope (h : n.form = .scope) : n.kind = "scope_resolution" := by
  have htable : ∀ entry ∈ forms, entry.2 = .scope → entry.1 = "scope_resolution" := by decide
  exact htable _ (mem_forms_of_form h (by decide)) rfl

/-! ## One node over nested ones -/

/-- Whatever the nodes inside a concrete node become lies where they do. -/
def NestedBelow (source : List UInt8) (Open : Node → Prop) (n : ConcreteNode) : Prop :=
  ∀ m, Inner m n → ∀ v, Shape source m v → Nested source Open m.start m.stop v.toValue

namespace NestedBelow

variable (h : NestedBelow source Open n)

include h

theorem all {ns : List ConcreteNode} {vs : List Node} (hvs : List.Forall₂ (Shape source) ns vs)
    (hinner : ∀ m ∈ ns, Inner m n) (hwithin : ∀ m ∈ ns, low ≤ m.start ∧ m.stop ≤ high)
    (horder : ns.Pairwise fun a b => a.stop ≤ b.start) : NestedAll source Open low high vs := by
  apply nestedAll_of_forall₂ ?_ hwithin horder
  clear hwithin horder
  induction hvs with
  | nil => exact .nil
  | @cons m v ns vs hv _ ih =>
      rw [List.forall_mem_cons] at hinner
      exact .cons (h m hinner.1 v hv) (ih hinner.2)

theorem convertAll {ns : List ConcreteNode} {vs : List Node} (hvs : convertAll source ns = .ok vs)
    (hinner : ∀ m ∈ ns, Inner m n) (hwithin : ∀ m ∈ ns, low ≤ m.start ∧ m.stop ≤ high)
    (horder : ns.Pairwise fun a b => a.stop ≤ b.start) : NestedAll source Open low high vs :=
  h.all ((forall₂_of_convertAll hvs).imp fun _ _ => shape_of_convert) hinner hwithin horder

theorem part {field : String} {u : Option Node} (hu : convertPart source (n.childFor? field) = .ok u)
    (hwithin : ∀ m ∈ n.childFor? field, low ≤ m.start ∧ m.stop ≤ high) :
    Nested source Open low high (valueOf u) := by
  refine nested_valueOf fun w hw => ?_
  obtain ⟨m, hm, hconvert⟩ := exists_of_convertPart hu hw
  have hbounds := hwithin m hm
  exact (h m (inner_childFor? (Option.mem_toList.mpr hm)) w (shape_of_convert hconvert)).mono hbounds.1 hbounds.2

theorem field (hn : n.LaidOut) {field : String} {u : Option Node}
    (hu : convertPart source (n.childFor? field) = .ok u) : Nested source Open n.start n.stop (valueOf u) :=
  h.part hu fun _ hm => inner_within hn (inner_childFor? (Option.mem_toList.mpr hm))

theorem call (hn : n.LaidOut) {receiver : Option Node} {arguments : List Node}
    (hreceiver : convertPart source (n.childFor? "receiver") = .ok receiver)
    (harguments : Ruby.convertAll source (argumentParts n) = .ok arguments) :
    Nested source Open n.start n.stop (callNode source n receiver arguments).toValue := by
  have hwf := hn.wellFormed (Nat.le_refl _)
  have hbounds : ∀ {m}, m ∈ callParts n → n.start ≤ m.start ∧ m.stop ≤ callEnd n := stop_le_callEnd hwf
  obtain ⟨method, hchildren⟩ := @callNode_children source n receiver arguments
  have hoperands := h.convertAll harguments (fun m hm => inner_callParts (List.mem_append_right _ hm))
    (fun m hm => hbounds (List.mem_append_right _ hm)) (ordered_argumentParts hwf)
  have hcall : Nested source Open n.start (callEnd n) (callNode source n receiver arguments).toValue := by
    refine nested_node (covers_callNode hn receiver arguments) ?_
    rw [hchildren, List.forall_mem_cons, List.forall_mem_cons]
    refine ⟨?_, .literal (.text _), nested_gatherPairs hoperands⟩
    exact h.part hreceiver fun m hm => hbounds (List.mem_append_left _ (Option.mem_toList.mpr hm))
  exact hcall.mono (Nat.le_refl _) (callEnd_le hwf).1

/-- The parameters of a block lie in the block, unless none are written. -/
theorem args (hn : n.LaidOut) {block : ConcreteNode} {parameters : Option (ConcreteNode × List Node)}
    (hblock : n.childFor? "block" = some block)
    (hparameters : convertParameterList source (blockParameters? block) = .ok parameters) :
    (blockParameters? block = none ∧ argsNode source parameters = noParameters) ∨
      Nested source Open n.start n.stop (argsNode source parameters).toValue := by
  cases hwritten : blockParameters? block with
  | none =>
      rw [hwritten] at hparameters
      cases hparameters
      exact Or.inl ⟨rfl, rfl⟩
  | some written =>
      rw [hwritten] at hparameters
      obtain ⟨ps, hps, rfl⟩ := map_eq_ok.mp hparameters
      have hmem := block.parts_sublist.subset (ConcreteNode.mem_blockParameters? hwritten).1
      have hinner : Inner written n := .tail (.single hmem) (ConcreteNode.childFor?_eq_some hblock).1
      have hlaid : written.LaidOut := ConcreteNode.Everywhere.of_inner hn hinner
      have hnested := h.all (shape_of_convertParameters hps) (fun m hm => (inner_part hm).trans hinner)
        (fun m hm => inner_within hlaid (inner_part hm)) (hlaid.here.siblings.sublist written.parts_sublist)
      have hplace := inner_within hn hinner
      exact Or.inr ((nested_build hlaid hnested.values).mono hplace.1 hplace.2)

theorem block (hn : n.LaidOut) {receiver : Option Node} {arguments statements : List Node}
    {block : ConcreteNode} {parameters : Option (ConcreteNode × List Node)} {v : Node}
    (hopen : ∀ call body, blockParameters? block = none →
      Open (n.build source "block" [call, noParameters.toValue, body]))
    (hreceiver : convertPart source (n.childFor? "receiver") = .ok receiver)
    (harguments : Ruby.convertAll source (argumentParts n) = .ok arguments)
    (hblock : n.childFor? "block" = some block)
    (hparameters : convertParameterList source (blockParameters? block) = .ok parameters)
    (hstatements : Ruby.convertAll source (blockStatements block) = .ok statements)
    (hv : blockNode source n (callNode source n receiver arguments) parameters
      (joinStatements source statements) = .ok v) :
    Nested source Open n.start n.stop v.toValue := by
  obtain ⟨kind, second, rfl, _, hsecond⟩ := of_blockNode hv
  have hcall := h.call hn hreceiver harguments
  have hinner : ∀ s ∈ blockStatements block, Inner s n := fun s hs =>
    (inner_blockExpressions (List.mem_append_right _ hs)).tail (ConcreteNode.childFor?_eq_some hblock).1
  have hbody : Nested source Open n.start n.stop (valueOf (joinStatements source statements)) :=
    nested_valueOf (nested_joinStatements (h.convertAll hstatements hinner
      (fun s hs => inner_within hn (hinner s hs)) (ordered_blockStatements
        (ConcreteNode.Everywhere.of_child hn (ConcreteNode.childFor?_eq_some hblock).1))))
  have hplaced : Nested source Open n.start n.stop second → Nested source Open n.start n.stop
      (n.build source kind [(callNode source n receiver arguments).toValue, second,
        valueOf (joinStatements source statements)]).toValue :=
    fun hsecond => nested_build hn (by simpa using ⟨hcall, hsecond, hbody⟩)
  cases hsecond with
  | it _ => exact hplaced (.literal (.text _))
  | numbered _ _ => exact hplaced (.literal (.int _))
  | written =>
      rcases h.args hn hblock hparameters with ⟨hnone, hargs⟩ | hargs
      · -- Here the node has a child without a place.
        rw [hargs]
        refine .node (covers_of_extent rfl hn.here.ordered) (Nat.le_refl _) (Nat.le_refl _) ?_
          fun _ => hopen _ _ hnone
        intro c hc hne
        rcases List.mem_cons.mp hc with rfl | hc
        · exact hcall
        · rcases List.mem_pair.mp hc with rfl | rfl
          · exact absurd rfl hne
          · exact hbody
      · exact hplaced hargs

/-- A node of any shape is nested if whatever the nodes inside it become is. -/
theorem of_shape (hn : n.LaidOut) (hroot : n.RootFits)
    (hopen : ∀ block call body, n.childFor? "block" = some block → blockParameters? block = none →
      Open (n.build source "block" [call, noParameters.toValue, body])) {v : Node} (hv : Shape source n v) :
    Nested source Open n.start n.stop v.toValue := by
  cases hv with
  | leaf hliteral _ _ _ => exact nested_build hn fun c hc => .literal (hliteral c hc)
  | parts hvs _ _ =>
      exact nested_build hn (h.convertAll hvs (fun m hm => inner_part hm)
        (fun m hm => inner_within hn (inner_part hm)) (hn.here.siblings.sublist n.parts_sublist)).values
  | @scope c parent name hscope hparent =>
      have hpart : convertPart source (n.childFor? "scope") = .ok (some parent) := by
        rw [hscope, convertPart, hparent]
        rfl
      exact nested_build hn (by simpa using ⟨h.field hn hpart, .literal (.text name)⟩)
  | @top name hform hscope =>
      have hcolons : Nested source Open n.start (n.start + 2)
          (Node.toValue ⟨"cbase", [], { extent := some (spanBetween source n.start (n.start + 2)) }⟩) :=
        nested_node (covers_of_extent rfl (Nat.le_add_right _ _)) (List.forall_mem_nil _)
      have hnested := hcolons.mono (Nat.le_refl _) (hroot (kind_of_form_scope hform) hscope)
      exact nested_build hn (by simpa using ⟨hnested, .literal (.text name)⟩)
  | pair hkey hvalue => exact nested_build hn (by simpa using ⟨h.field hn hkey, h.field hn hvalue⟩)
  | call hreceiver harguments => exact h.call hn hreceiver harguments
  | block hreceiver harguments hblock hparameters hstatements hv =>
      exact h.block hn (fun call body => hopen _ call body hblock) hreceiver harguments hblock hparameters
        hstatements hv

end NestedBelow

/-! ## The whole tree -/

/-- A node of the syntax tree of `n` for a call with a block in which no parameters are written. -/
def WithoutParameters (source : List UInt8) (n : ConcreteNode) (v : Node) : Prop :=
  ∃ m block call body, (m = n ∨ Inner m n) ∧ m.childFor? "block" = some block ∧
    blockParameters? block = none ∧ v = m.build source "block" [call, noParameters.toValue, body]

/-- The nodes in `n` become nested ones. -/
theorem nested_of_shape {m : ConcreteNode} (hn : n.LaidOut) (hroots : n.Everywhere ConcreteNode.RootFits)
    (hm : m = n ∨ Inner m n) {v : Node} (hv : Shape source m v) :
    Nested source (WithoutParameters source n) m.start m.stop v.toValue := by
  obtain ⟨hlaid, hroots'⟩ : m.LaidOut ∧ m.Everywhere ConcreteNode.RootFits := by
    rcases hm with rfl | hm
    · exact ⟨hn, hroots⟩
    · exact ⟨hn.of_inner hm, hroots.of_inner hm⟩
  have hbelow : NestedBelow source (WithoutParameters source n) m := by
    intro e he u hu
    have hinner : Inner e n := by
      rcases hm with rfl | hm
      · exact he
      · exact he.trans hm
    exact nested_of_shape hn hroots (Or.inr hinner) hu
  exact hbelow.of_shape hlaid hroots'.here
    (fun block call body hblock hnone => ⟨m, block, call, body, hm, hblock, hnone, rfl⟩) hv
termination_by m.weight
decreasing_by exact weight_lt_of_inner he

theorem nested_of_convert (hn : n.LaidOut) (hroots : n.Everywhere ConcreteNode.RootFits) {v : Node}
    (h : convert source n = .ok v) :
    Nested source (WithoutParameters source n) n.start n.stop v.toValue :=
  nested_of_shape hn hroots (Or.inl rfl) (shape_of_convert h)

/-- The nodes in a nested value are nested, or parameters without a place. -/
theorem Nested.of_mem_preorder {v : Value} (h : Nested source Open low high v) : ∀ w ∈ v.preorder,
    (∃ first last, Nested source Open first last w.toValue) ∨
      w = noParameters ∧ ∃ u ∈ v.preorder, Open u ∧ noParameters.toValue ∈ u.children := by
  induction h with
  | literal hv =>
      intro w hw
      cases hv <;> exact absurd hw List.not_mem_nil
  | @node low high first last kind children layout hcovers hfirst hlast hchildren hopen ih =>
      intro w hw
      rw [Value.preorder, List.mem_cons, Value.mem_preorderAll] at hw
      rcases hw with rfl | ⟨c, hc, hw⟩
      · exact Or.inl ⟨low, high, .node hcovers hfirst hlast hchildren hopen⟩
      · by_cases hnone : c = noParameters.toValue
        · subst hnone
          obtain rfl : w = noParameters := List.mem_singleton.mp hw
          exact Or.inr ⟨rfl, _, List.mem_cons_self, hopen hc, hc⟩
        · rcases ih c hc hnone w hw with hnested | ⟨rfl, u, hu, hopen⟩
          · exact Or.inl hnested
          · exact Or.inr ⟨rfl, u, List.mem_cons_of_mem _ (Value.mem_preorderAll.mpr ⟨c, hc, hu⟩), hopen⟩

/-- What a node with a place surrounds lies in it, or is parameters without a place. -/
theorem nested_of_surrounds {u w : Node} {low high : Nat} (hu : Nested source Open low high u.toValue)
    (h : u.Surrounds w) : w = noParameters ∨ ∃ first last, Covers source u.layout first last ∧
      Nested source Open first last w.toValue := by
  induction h with
  | @child w _ hw =>
      obtain ⟨kind, children, layout⟩ := u
      change Nested source Open low high (.node kind children layout) at hu
      cases hu with
      | literal hv => exact nomatch hv
      | node hcovers _ _ hchildren _ =>
          by_cases hnone : w = noParameters
          · exact Or.inl hnone
          · exact Or.inr ⟨_, _, hcovers, hchildren _ hw fun h => hnone (toValue_injective h)⟩
  | @through v w _ hextent hw ih =>
      -- Parameters without a place have no children.
      rcases ih with rfl | ⟨_, _, _, hv⟩
      · exact absurd hw List.not_mem_nil
      · obtain ⟨_, _, hcovers, _⟩ := hv.exists_covers
        exact nomatch hextent.symm.trans hcovers.extent

/-- Every node of a converted tree, but for the parameters of a block in which none are written, lies on a
stretch of the source: its text is that of the stretch, and its delimiters are in it. The stretch lies in
that of the nearest node above that has one. -/
theorem ranges_of_convert (hn : n.LaidOut) (hroots : n.Everywhere ConcreteNode.RootFits) {v : Node}
    (h : convert source n = .ok v) :
    (∀ w ∈ v.walk, (∃ first last, Covers source w.layout first last) ∨
      w = noParameters ∧ ∃ u ∈ v.walk, WithoutParameters source n u ∧ w.toValue ∈ u.children) ∧
    ∀ u ∈ v.walk, ∀ w : Node, u.Surrounds w → w.layout.extent.isSome → u.start ≤ w.start ∧ w.stop ≤ u.stop := by
  have hnested := nested_of_convert hn hroots h
  rw [Node.walk_eq_preorder, Node.preorder]
  constructor
  · intro w hw
    rcases hnested.of_mem_preorder w hw with ⟨_, _, hw⟩ | ⟨rfl, u, hu, hopen, hmem⟩
    · obtain ⟨first, last, hcovers, _⟩ := hw.exists_covers
      exact Or.inl ⟨first, last, hcovers⟩
    · exact Or.inr ⟨rfl, u, hu, hopen, hmem⟩
  · intro u hu w hsurrounds hplace
    rcases hnested.of_mem_preorder u hu with ⟨_, _, hu⟩ | ⟨rfl, _⟩
    · rcases nested_of_surrounds hu hsurrounds with rfl | ⟨first, last, hcovers, hw⟩
      · exact absurd hplace (by decide)
      · obtain ⟨_, _, hcovers', hfirst, hlast, _⟩ := hw.exists_covers
        rw [hcovers.start_eq, hcovers.stop_eq, hcovers'.start_eq, hcovers'.stop_eq]
        exact ⟨Int.ofNat_le.mpr hfirst, Int.ofNat_le.mpr hlast⟩
    · exact absurd hsurrounds.isSome_extent (by decide)

/-- A source with a block and a rooted constant. -/
def rootedText : String := "3.times \x7b create :user \x7d\n::A\n"

def rootedConstant : ConcreteNode :=
  ⟨"scope_resolution", true, 25, 28, none, [⟨"::", false, 25, 27, none, []⟩, leaf "constant" 27 28 (some "name")]⟩

def rootedProgram : ConcreteNode := ⟨"program", true, 0, 29, none, [blockRepeat, rootedConstant]⟩

theorem exists_convert_rootedProgram (source : List UInt8) : ∃ v, convert source rootedProgram = .ok v := by
  obtain ⟨w, hw⟩ : ∃ w, convert source rootedConstant = .ok w := by
    rw [convert, show rootedConstant.form = .scope by decide]
    exact ⟨_, rfl⟩
  exact ⟨_, convert_two (by decide) rfl (convert_blockRepeat source) hw⟩

theorem ranges_of_convert_rooted : rootedProgram.LaidOut ∧ rootedProgram.Everywhere ConcreteNode.RootFits ∧
    ∃ v, convert (Utf8.encode rootedText) rootedProgram = .ok v ∧
      (∀ w ∈ v.walk, (∃ first last, Covers (Utf8.encode rootedText) w.layout first last) ∨
        w = noParameters ∧ ∃ u ∈ v.walk, WithoutParameters (Utf8.encode rootedText) rootedProgram u ∧
          w.toValue ∈ u.children) ∧
      ∀ u ∈ v.walk, ∀ w : Node, u.Surrounds w → w.layout.extent.isSome → u.start ≤ w.start ∧ w.stop ≤ u.stop := by
  have hlaid : rootedProgram.LaidOut := by decide
  have hroots : rootedProgram.Everywhere ConcreteNode.RootFits := by decide
  obtain ⟨v, hv⟩ := exists_convert_rootedProgram (Utf8.encode rootedText)
  exact ⟨hlaid, hroots, v, hv, ranges_of_convert hlaid hroots hv⟩

end Ruby

end IdiomLint
