import IdiomLint.Proofs.Idiom.Copying
import IdiomLint.Proofs.Ruby.Expressions

/-!
# What a replacement takes along

In a converted tree the text of a node is a stretch of the source with all blocks detected in the node
(`framed_of_convert`). An edit of a detected block copies the texts of the options of its call, and a block
detected in the call is in one of the options, as a factory name and a count have none. So of two detected
blocks one lies apart from the other or is taken along by it (`pairwise_apart_or_takesAlong`).
-/

namespace IdiomLint.Ruby

open ConcreteNode (Beside Within WellFormed IntegersFit)

variable {cs : List Char} {source : List UInt8} {n : ConcreteNode}

/-! ## Stretches of the source -/

/-- A stretch inside another one. -/
theorem infix_slice {low high first last : Nat} (hfirst : low ≤ first) (hlast : last ≤ high) :
    slice source first last <:+: slice source low high := by
  have hcut : slice source first last = ((slice source low high).drop (first - low)).take (last - first) := by
    rw [slice, slice, List.drop_take, List.drop_drop, List.take_take, Nat.add_sub_cancel' hfirst]
    congr 1
    omega
  rw [hcut]
  exact (List.take_prefix _ _).isInfix.trans (List.drop_suffix _ _).isInfix

/-- Between characters, the text of a stretch has the bytes of the stretch. -/
theorem encode_textBetween {text : String} {low high : Nat} (h : low ≤ high)
    (hlow : Utf8.Boundary text.toList low) (hhigh : Utf8.Boundary text.toList high) :
    Utf8.encode (textBetween (Utf8.encode text) low high) = slice (Utf8.encode text) low high := by
  obtain ⟨before, middle, after, htext, rfl, rfl⟩ := hlow.split hhigh h
  have hwidth : ∀ cs, (Utf8.encodeChars cs).length = Utf8.width cs := fun _ => rfl
  have hslice : slice (Utf8.encode text) (Utf8.width before) (Utf8.width before + Utf8.width middle) =
      Utf8.encodeChars middle := by
    rw [slice, Nat.add_sub_cancel_left, Utf8.encode, htext, Utf8.encodeChars_append, Utf8.encodeChars_append,
      List.append_assoc, List.drop_left' (hwidth before), List.take_left' (hwidth middle)]
  rw [textBetween, hslice, Utf8.decodeLossy_encodeChars, Utf8.encode, String.toList_ofList]

/-- The text of a node is that of a stretch of the source, which holds all blocks detected in the node. -/
structure Framed (cs : List Char) (source : List UInt8) (v : Node) : Prop where
  ordered : 0 ≤ v.start ∧ v.start ≤ v.stop
  boundaries : Utf8.Boundary cs v.start.toNat ∧ Utf8.Boundary cs v.stop.toNat
  source_eq : v.source = textBetween source v.start.toNat v.stop.toNat
  inside : ∀ i ∈ Nest.idiomsAll v.toValue.nests, v.start ≤ i.start ∧ i.stop ≤ v.stop

theorem framed_of_extent {v : Node} {low high : Nat} (hextent : v.layout.extent = some (spanBetween source low high))
    (h : low ≤ high) (hlow : Utf8.Boundary cs low) (hhigh : Utf8.Boundary cs high)
    (hinside : ∀ i ∈ Nest.idiomsAll v.toValue.nests, (low : Int) ≤ i.start ∧ i.stop ≤ (high : Int)) :
    Framed cs source v := by
  have hstart : v.start = low := by rw [Node.start, hextent]; rfl
  have hstop : v.stop = high := by rw [Node.stop, hextent]; rfl
  refine ⟨by omega, ?_, ?_, ?_⟩
  · rw [hstart, hstop]
    exact ⟨hlow, hhigh⟩
  · rw [hstart, hstop, Node.source, hextent]
    rfl
  · rw [hstart, hstop]
    exact hinside

/-! ## Where a call ends -/

/-- The fields of the parts of a call without its block. -/
def callFields : List String := ["receiver", "method", "arguments"]

theorem max?_eq_foldl {ns : List Nat} (h : ns ≠ []) : ns.max? = some (ns.foldl max 0) := by
  cases ns with
  | nil => exact absurd rfl h
  | cons k ns => rw [List.max?, List.foldl_cons, Nat.zero_max]

/-- A call ends where one of its parts does, and after all others; without any parts it ends where the node
does. -/
theorem callEnd_spec (n : ConcreteNode) :
    (callEnd n = n.stop ∨ ∃ c ∈ n.children, callEnd n = c.stop) ∧
      ∀ field ∈ callFields, ∀ c ∈ n.childFor? field, c.stop ≤ callEnd n := by
  have hmem : ∀ c, c ∈ (callFields.map n.childFor?).filterMap id ↔
      ∃ field ∈ callFields, n.childFor? field = some c := by
    intro c
    rw [List.mem_filterMap]
    simp only [List.mem_map, id_eq, exists_exists_and_eq_and]
  change ∀ c, c ∈ [n.childFor? "receiver", n.childFor? "method", n.childFor? "arguments"].filterMap id ↔ _ at hmem
  unfold callEnd
  simp only
  split
  · next hnone =>
      refine ⟨Or.inl rfl, fun field hfield c hc => ?_⟩
      have hc := (hmem c).mpr ⟨field, hfield, hc⟩
      rw [List.isEmpty_iff.mp hnone] at hc
      exact absurd hc List.not_mem_nil
  · next hsome =>
      obtain ⟨hmax, hle⟩ := List.max?_eq_some_iff.mp (max?_eq_foldl fun hnil =>
        hsome (List.isEmpty_iff.mpr (List.map_eq_nil_iff.mp hnil)))
      constructor
      · obtain ⟨c, hc, hstop⟩ := List.mem_map.mp hmax
        obtain ⟨field, _, hc⟩ := (hmem c).mp hc
        exact Or.inr ⟨c, (ConcreteNode.childFor?_eq_some hc).1, hstop.symm⟩
      · intro field hfield c hc
        exact hle _ (List.mem_map_of_mem ((hmem c).mpr ⟨field, hfield, hc⟩))

/-! ## Converted nodes -/

theorem framed_build (hn : n.WellFormed cs) {kind : String} {values : List Value}
    (h : Sound cs n (n.build source kind values)) : Framed cs source (n.build source kind values) := by
  have hplaced := hn.here
  refine framed_of_extent rfl hplaced.ordered hplaced.first hplaced.last fun i hi => ?_
  have hinside := h.settled.inside i hi
  exact ⟨hinside.first, hinside.last⟩

theorem start_le_callEnd (hn : n.WellFormed cs) : n.start ≤ callEnd n := by
  rcases (callEnd_spec n).1 with heq | ⟨c, hc, heq⟩
  · rw [heq]
    exact hn.here.ordered
  · obtain ⟨hwf, hwithin⟩ := hn.of_child hc
    rw [heq]
    exact Nat.le_trans hwithin.1 hwf.here.ordered

theorem callEnd_le (hn : n.WellFormed cs) : callEnd n ≤ n.stop ∧ Utf8.Boundary cs (callEnd n) := by
  rcases (callEnd_spec n).1 with heq | ⟨c, hc, heq⟩
  · rw [heq]
    exact ⟨Nat.le_refl _, hn.here.last⟩
  · obtain ⟨hwf, hwithin⟩ := hn.of_child hc
    rw [heq]
    exact ⟨hwithin.2, hwf.here.last⟩

/-- The parts of a call lie before its end. -/
theorem stop_le_callEnd (hn : n.WellFormed cs) {m : ConcreteNode} (hm : m ∈ callParts n) :
    n.start ≤ m.start ∧ m.stop ≤ callEnd n := by
  refine ⟨(callParts_within hn hm).1.1, ?_⟩
  rcases List.mem_append.mp hm with hm | hm
  · exact (callEnd_spec n).2 "receiver" (by decide) m (Option.mem_toList.mp hm)
  · rw [argumentParts] at hm
    split at hm
    · next a ha =>
        have hwf := (hn.of_child (ConcreteNode.childFor?_eq_some ha).1).1
        have hwithin := (hwf.of_child (a.parts_sublist.subset hm)).2
        exact Nat.le_trans hwithin.2 ((callEnd_spec n).2 "arguments" (by decide) a ha)
    · exact absurd hm List.not_mem_nil

theorem framed_callNode (hn : n.WellFormed cs) {receiver : Option Node} {arguments : List Node}
    (h : Over cs (callParts n) (callNode source n receiver arguments).toValue.nests) :
    Framed cs source (callNode source n receiver arguments) := by
  refine framed_of_extent rfl (start_le_callEnd hn) hn.here.first (callEnd_le hn).2 fun i hi => ?_
  obtain ⟨m, hm, hinside⟩ := h.inside i hi
  have hfirst := hinside.first
  have hlast := hinside.last
  have hbounds := stop_le_callEnd hn hm
  omega

/-- A converted node has its text from where the concrete node begins, up to a place inside it. -/
theorem framed_of_convert (hn : n.WellFormed cs) (hfit : n.IntegersFit source) {v : Node}
    (h : convert source n = .ok v) :
    Framed cs source v ∧ v.start = n.start ∧ v.stop ≤ n.stop := by
  have hsound := sound_of_convert hn hfit h
  cases shape_of_convert h with
  | leaf _ _ _ _ | parts _ _ _ | scope _ _ | top _ _ | pair _ _ =>
      exact ⟨framed_build hn hsound, rfl, Int.le_refl _⟩
  | @call receiver arguments hreceiver harguments =>
      refine ⟨framed_callNode hn ?_, rfl, Int.ofNat_le.mpr (callEnd_le hn).1⟩
      apply over_callNode hn
      · refine soundAll_of_convertPart hreceiver fun c hc u hu => ?_
        have hbelow := below_childFor? hn hfit hc
        exact hu.sound hbelow.wellFormed hbelow.integersFit
      · refine soundAll_of_convertAll harguments (fun m hm u hu => ?_) (beside_argumentParts hn)
        have hbelow := below_argumentParts hn hfit hm
        exact hu.sound hbelow.wellFormed hbelow.integersFit
  | block _ _ _ _ _ hblock =>
      obtain ⟨kind, second, rfl, _, _⟩ := of_blockNode hblock
      exact ⟨framed_build hn hsound, rfl, Int.le_refl _⟩

/-! ## Gathered nodes -/

/-- What gathering pairs leaves are nodes that were there before and hashes over some of them. -/
theorem mem_gatherPairs {v : Node} (ns : List Node) : ∀ {pairs : List Node}, v ∈ gatherPairs source pairs ns →
    v ∈ ns ∨ ∃ first rest, v = nodeOver source "hash" first rest ∧
      (first :: rest).Sublist (pairs.reverse ++ ns) := by
  have hrun : ∀ {pairs : List Node} {first : Node} {rest ns : List Node}, pairs.reverse = first :: rest →
      (first :: rest).Sublist (pairs.reverse ++ ns) := fun h => h ▸ List.sublist_append_left _ _
  induction ns with
  | nil =>
      intro pairs h
      rw [gatherPairs] at h
      split at h
      · exact absurd h List.not_mem_nil
      · next first rest heq => exact Or.inr ⟨first, rest, List.mem_singleton.mp h, hrun heq⟩
  | cons n ns ih =>
      intro pairs h
      rw [gatherPairs] at h
      split at h
      · rcases ih h with hmem | ⟨first, rest, hv, hsub⟩
        · exact Or.inl (List.mem_cons_of_mem n hmem)
        · rw [List.reverse_cons, List.append_assoc, List.singleton_append] at hsub
          exact Or.inr ⟨first, rest, hv, hsub⟩
      · -- What follows the node is gathered anew.
        have hrest : v ∈ gatherPairs source [] ns → v ∈ n :: ns ∨ ∃ first rest,
            v = nodeOver source "hash" first rest ∧ (first :: rest).Sublist (pairs.reverse ++ n :: ns) := by
          intro h
          rcases ih h with hmem | ⟨first, rest, hv, hsub⟩
          · exact Or.inl (List.mem_cons_of_mem n hmem)
          · refine Or.inr ⟨first, rest, hv, hsub.trans ?_⟩
            exact (List.sublist_cons_self n ns).trans (List.sublist_append_right _ _)
        split at h
        · rcases List.mem_cons.mp h with rfl | h
          · exact Or.inl List.mem_cons_self
          · exact hrest h
        · next first rest heq =>
            rcases List.mem_cons.mp h with rfl | h
            · exact Or.inr ⟨first, rest, rfl, hrun heq⟩
            · rcases List.mem_cons.mp h with rfl | h
              · exact Or.inl List.mem_cons_self
              · exact hrest h

theorem mem_idiomsAll_nestsAll {vs : List Value} {i : Idiom} :
    i ∈ Nest.idiomsAll (Value.nestsAll vs) ↔ ∃ v ∈ vs, i ∈ Nest.idiomsAll v.nests := by
  induction vs with
  | nil => simp [Value.nestsAll, Nest.idiomsAll]
  | cons v vs ih =>
      rw [Value.nestsAll, Nest.idiomsAll_append, List.mem_append, ih]
      simp

/-- Nodes in order lie between where the first one begins and where the last one ends. -/
theorem ends_of_pairwise {first : Node} {rest : List Node} (hordered : ∀ v ∈ first :: rest, v.start ≤ v.stop)
    (horder : (first :: rest).Pairwise fun u v => u.stop ≤ v.start) : ∀ v ∈ first :: rest,
      first.start ≤ v.start ∧ v.stop ≤ ((first :: rest).getLast (List.cons_ne_nil first rest)).stop := by
  have hlast := hordered _ (List.getLast_mem (List.cons_ne_nil first rest))
  intro v hv
  constructor
  · rcases List.mem_cons.mp hv with rfl | hv
    · exact Int.le_refl _
    · exact Int.le_trans (hordered first List.mem_cons_self) ((List.pairwise_cons.mp horder).1 v hv)
  · rw [← List.dropLast_append_getLast (List.cons_ne_nil first rest)] at hv horder
    rcases List.mem_append.mp hv with hv | hv
    · have hbefore := (List.pairwise_append.mp horder).2.2 v hv _ (List.mem_singleton_self _)
      exact Int.le_trans hbefore hlast
    · exact Int.le_of_eq (congrArg Node.stop (List.mem_singleton.mp hv))

/-- A node over framed nodes in order is framed: its text reaches from the first one to the last one. -/
theorem framed_nodeOver {kind : String} (hkind : kind ≠ "block") {first : Node} {rest : List Node}
    (hframed : ∀ v ∈ first :: rest, Framed cs source v)
    (horder : (first :: rest).Pairwise fun u v => u.stop ≤ v.start) :
    Framed cs source (nodeOver source kind first rest) := by
  have hfirst := hframed first List.mem_cons_self
  have hlast := hframed _ (List.getLast_mem (List.cons_ne_nil first rest))
  have hends := ends_of_pairwise (fun v hv => (hframed v hv).ordered.2) horder
  have hbounds := hends first List.mem_cons_self
  have hpositive := hfirst.ordered
  refine framed_of_extent rfl (by omega) hfirst.boundaries.1 hlast.boundaries.2 fun i hi => ?_
  rw [nests_nodeOver hkind, mem_idiomsAll_nestsAll] at hi
  obtain ⟨_, hmem, hi⟩ := hi
  obtain ⟨v, hv, rfl⟩ := List.mem_map.mp hmem
  have hinside := (hframed v hv).inside i hi
  have hstretch := hends v hv
  omega

theorem framed_gatherPairs {vs : List Node} (hframed : ∀ v ∈ vs, Framed cs source v)
    (horder : vs.Pairwise fun u v => u.stop ≤ v.start) :
    ∀ v ∈ gatherPairs source [] vs, Framed cs source v := by
  intro v hv
  rcases mem_gatherPairs vs hv with hv | ⟨first, rest, rfl, hsub⟩
  · exact hframed v hv
  · exact framed_nodeOver (by decide) (fun v hv => hframed v (hsub.subset hv)) (horder.sublist hsub)

/-- Nodes that were converted one after the other have their texts in this order. -/
theorem framed_of_convertAll {ns : List ConcreteNode} {vs : List Node} (h : convertAll source ns = .ok vs)
    (hbelow : ∀ m ∈ ns, Below cs source m n) (horder : ns.Pairwise fun a b => a.stop ≤ b.start) :
    (∀ v ∈ vs, Framed cs source v) ∧ vs.Pairwise fun u v => u.stop ≤ v.start := by
  have hconverted := forall₂_of_convertAll h
  clear h
  induction hconverted with
  | nil => exact ⟨List.forall_mem_nil _, List.Pairwise.nil⟩
  | @cons m v ns vs hv hvs ih =>
      rw [List.forall_mem_cons] at hbelow
      obtain ⟨hbefore, horder⟩ := List.pairwise_cons.mp horder
      obtain ⟨hframed, hvs'⟩ := ih hbelow.2 horder
      obtain ⟨hv, _, hstop⟩ := framed_of_convert hbelow.1.wellFormed hbelow.1.integersFit hv
      refine ⟨List.forall_mem_cons.mpr ⟨hv, hframed⟩, List.pairwise_cons.mpr ⟨fun u hu => ?_, hvs'⟩⟩
      -- The node of the later text stands after the first node.
      obtain ⟨c, hc, hu⟩ := exists_mem_of_forall₂ hvs u hu
      obtain ⟨_, hstart, _⟩ := framed_of_convert (hbelow.2 c hc).wellFormed (hbelow.2 c hc).integersFit hu
      have hmc := hbefore c hc
      omega

/-! ## Inside a detected block -/

theorem of_convertAll_singleton {ns : List ConcreteNode} {u : Node} (h : convertAll source ns = .ok [u]) :
    ∃ m, ns = [m] ∧ convert source m = .ok u := by
  cases forall₂_of_convertAll h with
  | cons hu hrest =>
      cases hrest
      exact ⟨_, rfl, hu⟩

/-- The body of a detected block is the conversion of its only statement. -/
theorem statement_of_detect {v : Node} {i : Idiom} (h : convert source n = .ok v)
    (hi : detect v.toValue = some i) : ∃ block s u place layout, n.childFor? "block" = some block ∧
      blockStatements block = [s] ∧ convert source s = .ok u ∧
      u.toValue =
        .node "send" (i.receiver :: .text "create" :: .node "sym" [i.factory] place :: i.options) layout := by
  have hform := ((complete_of_convert h).here i hi).1
  obtain ⟨countPlace, callLayout, argsPlace, place, layout, _, hvalue, hparts⟩ := block_of_detect hi
  rw [convert_call hform] at h
  obtain ⟨receiver, _, h⟩ := bind_eq_ok.mp h
  obtain ⟨arguments, _, h⟩ := bind_eq_ok.mp h
  rw [hparts] at hvalue
  cases hblock : n.childFor? "block" with
  | none =>
      rw [hblock] at h
      cases h
      have hkind := @callNode_kind source n receiver arguments
      injection hvalue with hblockKind _ _
      rw [show (callNode source n receiver arguments).kind = "block" from hblockKind] at hkind
      exact absurd hkind (by decide)
  | some block =>
      rw [hblock] at h
      obtain ⟨parameters, _, h⟩ := bind_eq_ok.mp h
      obtain ⟨statements, hstatements, h⟩ := bind_eq_ok.mp h
      obtain ⟨kind, second, rfl, _, _⟩ := of_blockNode h
      injection hvalue with _ hchildren _
      injection hchildren with _ hchildren
      injection hchildren with _ hchildren
      injection hchildren with hbody _
      -- Only a single statement is the body itself.
      match statements, hstatements, hbody with
      | [], _, hbody => exact nomatch hbody
      | _ :: _ :: _, _, hbody =>
          injection hbody with hkind _ _
          exact absurd hkind (by simp [nodeOver])
      | [u], hstatements, hbody =>
          obtain ⟨s, hs, hu⟩ := of_convertAll_singleton hstatements
          exact ⟨block, s, u, place, layout, rfl, hs, hu, hbody⟩

/-- A call with a symbol as its first argument takes all operands from converted parts of the node. -/
theorem operands_of_call {v : Node} {receiver operand : Value} {operands : List Value} {name : String}
    {place layout : Layout} (h : convert source n = .ok v)
    (hv : v.toValue = .node "send" (receiver :: .text name :: .node "sym" [operand] place :: operands) layout) :
    ∃ part arguments, convertPart source (n.childFor? "receiver") = .ok part ∧
      convertAll source (argumentParts n) = .ok arguments ∧ valueOf part = receiver ∧
      (gatherPairs source [] arguments).map Node.toValue = .node "sym" [operand] place :: operands := by
  cases shape_of_convert h with
  | @leaf kind values hliteral _ _ _ =>
      injection hv with _ hchildren _
      change values = _ at hchildren
      exact nomatch hliteral (.node "sym" [operand] place) (by simp [hchildren])
  | @parts kind vs _ _ _ =>
      injection hv with _ hchildren _
      change vs.map Node.toValue = _ at hchildren
      have hname : .text name ∈ vs.map Node.toValue := by simp [hchildren]
      obtain ⟨w, _, hw⟩ := List.mem_map.mp hname
      exact nomatch hw
  | scope _ _ | top _ _ | pair _ _ =>
      injection hv with hkind _ _
      exact absurd hkind (by simp [ConcreteNode.build])
  | block _ _ _ _ _ hblock =>
      obtain ⟨kind, second, rfl, hkinds, _⟩ := of_blockNode hblock
      injection hv with hkind _ _
      rw [show kind = "send" from hkind] at hkinds
      exact absurd hkinds (by decide)
  | @call part arguments hpart harguments =>
      obtain ⟨method, hmethod⟩ := @callNode_children source n part arguments
      injection hv with _ hchildren _
      rw [hmethod] at hchildren
      injection hchildren with hreceiver hchildren
      injection hchildren with _ hoperands
      exact ⟨part, arguments, hpart, harguments, hreceiver, hoperands⟩

/-- Nothing is detected in a symbol, unless the concrete node calls itself one. -/
theorem nestsAll_of_symbol {v : Node} (h : convert source n = .ok v) (hkind : v.kind = "sym")
    (hn : n.kind ≠ "sym") : Value.nestsAll v.children = [] := by
  cases shape_of_convert h with
  | leaf hliteral _ _ _ => exact nestsAll_of_isLiteral hliteral
  | @parts kind vs _ hkinds _ =>
      rw [show kind = "sym" from hkind] at hkinds
      exact absurd hkinds (by simp [Ne.symm hn])
  | scope _ _ | top _ _ | pair _ _ => exact absurd hkind (by simp [ConcreteNode.build])
  | @call receiver arguments _ _ =>
      have hkinds := @callNode_kind source n receiver arguments
      rw [hkind] at hkinds
      exact absurd hkinds (by decide)
  | block _ _ _ _ _ hblock =>
      obtain ⟨kind, second, rfl, hkinds, _⟩ := of_blockNode hblock
      rw [show kind = "sym" from hkind] at hkinds
      exact absurd hkinds (by decide)

/-- No node of the concrete tree has the kind that the conversion gives to symbols. -/
def ConcreteNode.Ordinary (n : ConcreteNode) : Prop := n.Everywhere fun m => m.kind ≠ "sym"

instance (n : ConcreteNode) : Decidable n.Ordinary :=
  inferInstanceAs (Decidable (n.Everywhere fun m => m.kind ≠ "sym"))

/-- A block lies in another one, inside a part that the replacement of that one copies. -/
structure TakesAlong (cs : List Char) (source : List UInt8) (i j : Idiom) : Prop where
  holds : i.Holds j
  copied : ∃ w : Node, w.toValue ∈ i.copied ∧ Framed cs source w ∧ w.start ≤ j.start ∧ j.stop ≤ w.stop

theorem toValue_injective : Function.Injective Node.toValue := by
  intro v w h
  exact Option.some.inj (congrArg Value.node? h)

theorem ordered_argumentParts (hn : n.WellFormed cs) :
    (argumentParts n).Pairwise fun a b => a.stop ≤ b.start := by
  unfold argumentParts
  split
  · next a ha =>
      have hwf := (hn.of_child (ConcreteNode.childFor?_eq_some ha).1).1
      exact hwf.here.siblings.sublist a.parts_sublist
  · exact List.Pairwise.nil

/-- The parts of a call are framed. -/
theorem framed_operands (hn : n.WellFormed cs) (hfit : n.IntegersFit source) {part : Option Node}
    {arguments : List Node} (hpart : convertPart source (n.childFor? "receiver") = .ok part)
    (harguments : convertAll source (argumentParts n) = .ok arguments) {w : Node}
    (hw : w.toValue ∈ valueOf part :: (gatherPairs source [] arguments).map Node.toValue) :
    Framed cs source w := by
  rcases List.mem_cons.mp hw with hreceiver | hargument
  · cases part with
    | none => exact nomatch hreceiver
    | some u =>
        obtain rfl := toValue_injective hreceiver
        obtain ⟨c, hc, hu⟩ := exists_of_convertPart hpart rfl
        have hbelow := below_childFor? hn hfit hc
        exact (framed_of_convert hbelow.wellFormed hbelow.integersFit hu).1
  · obtain ⟨u, hu, heq⟩ := List.mem_map.mp hargument
    obtain rfl := toValue_injective heq
    obtain ⟨hframed, horder⟩ := framed_of_convertAll harguments
      (fun m hm => below_argumentParts hn hfit hm) (ordered_argumentParts hn)
    exact framed_gatherPairs hframed horder u hu

/-- The name of a factory is no place for a block. -/
theorem nests_factory (hn : n.Ordinary) {arguments : List Node}
    (harguments : convertAll source (argumentParts n) = .ok arguments) {operand : Value} {place : Layout}
    (h : .node "sym" [operand] place ∈ (gatherPairs source [] arguments).map Node.toValue) :
    operand.nests = [] := by
  obtain ⟨w, hw, hvalue⟩ := List.mem_map.mp h
  injection hvalue with hkind hchildren _
  rcases mem_gatherPairs arguments hw with hw | ⟨first, rest, rfl, _⟩
  · obtain ⟨m, hm, hw⟩ := exists_mem_of_forall₂ (forall₂_of_convertAll harguments) w hw
    have hnone := nestsAll_of_symbol hw hkind (hn.of_inner (inner_callParts (List.mem_append_right _ hm))).here
    rw [hchildren, Value.nestsAll, Value.nestsAll, List.append_nil] at hnone
    exact hnone
  · exact absurd hkind (by simp [nodeOver])

/-- The blocks inside a detected block are taken along when it is replaced. -/
theorem takesAlong_of_detect (hn : n.WellFormed cs) (hfit : n.IntegersFit source) (hordinary : n.Ordinary)
    {v : Node} (h : convert source n = .ok v) {i j : Idiom} (hi : detect v.toValue = some i)
    (hj : j ∈ Nest.idiomsAll (Value.nestsAll v.children)) : TakesAlong cs source i j := by
  obtain ⟨block, s, u, place, layout, hblock, hs, hu, hbody⟩ := statement_of_detect h hi
  obtain ⟨part, arguments, hpart, harguments, hreceiver, hoperands⟩ := operands_of_call hu hbody
  have hinner : Inner s n := by
    have hmem : s ∈ blockExpressions (some block) := List.mem_append_right _ (hs ▸ List.mem_singleton_self s)
    exact (inner_blockExpressions hmem).tail (ConcreteNode.childFor?_eq_some hblock).1
  have hbelow := below_of_inner hinner hn hfit
  have hfactory : i.factory.nests = [] :=
    nests_factory (hordinary.of_inner hinner) harguments (hoperands ▸ List.mem_cons_self)
  have hchildren : v.children = i.block.children := by
    obtain ⟨hvalue, _⟩ := detected_of_detect hi
    rw [toValue_injective hvalue]
  have hholds : i.Holds j := by
    obtain ⟨hstart, hstop⟩ := Prod.mk.inj ((complete_of_convert h).here i hi).2.1
    have hsettled := (sound_of_convert hn hfit h).settled
    have hinside := hsettled.inside j (by rw [idiomsAll_nests_eq]; exact List.mem_append_right _ hj)
    have hfirst := hinside.first
    have hlast := hinside.last
    unfold Idiom.Holds
    omega
  rw [hchildren, Idiom.nestsAll_of_detect hi, hfactory, List.nil_append] at hj
  -- So the block is detected in a part that is copied.
  change j ∈ Nest.idiomsAll (Value.nestsAll i.copied) at hj
  obtain ⟨copy, hcopy, hj⟩ := mem_idiomsAll_nestsAll.mp hj
  cases copy with
  | node kind children place =>
      have hframed : Framed cs source ⟨kind, children, place⟩ := by
        apply framed_operands hbelow.wellFormed hbelow.integersFit hpart harguments
        rw [hreceiver, hoperands]
        rcases List.mem_cons.mp hcopy with hcopy | hcopy
        · exact List.mem_cons.mpr (Or.inl hcopy)
        · exact List.mem_cons_of_mem _ (List.mem_cons_of_mem _ hcopy)
      exact ⟨hholds, ⟨kind, children, place⟩, hcopy, hframed, hframed.inside j hj⟩
  | nil | bool _ | int _ | float _ | text _ | tuple _ => exact absurd hj List.not_mem_nil

/-- Of two blocks that are detected in a converted tree, the first one lies apart from the second one, or
takes it along when it is replaced. -/
theorem pairwise_apart_or_takesAlong (hn : n.WellFormed cs) (hfit : n.IntegersFit source)
    (hordinary : n.Ordinary) {v : Node} (h : convert source n = .ok v) :
    (Nest.idiomsAll v.toValue.nests).Pairwise fun i j => i.Apart j ∨ TakesAlong cs source i j := by
  refine pairwise_of_convert (fun _ h => Or.inl h) n hn hfit (fun m hm u i j hu hi hj => Or.inr ?_) h
  exact takesAlong_of_detect (hn.of_standing hm) (hfit.of_standing hm) (hordinary.of_standing hm) hu hi hj

end IdiomLint.Ruby
