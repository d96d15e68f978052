import IdiomLint.Proofs.Idiom.Writing
import IdiomLint.Proofs.Ruby.Shape

/-!
# Where the detected blocks of a converted tree lie

The one invariant of the conversion is `Sound`: the detected blocks of what a concrete node becomes lie
inside the node as `Settled` demands, and all their replacements can be written. Forests over nodes beside
each other make one forest (`Over.append`), so a node that is no detected block itself is sound when the
nodes that its children come from are (`sound_node`), and gathering children into nodes of their own
changes nothing about that.
-/

namespace IdiomLint.Ruby

open ConcreteNode (Beside Within WellFormed IntegersFit)

variable {cs : List Char} {source : List UInt8}

/-! ## Forests over several nodes -/

/-- The blocks of the forest lie in the given nodes, the roots apart, all others inside their root. -/
structure Over (cs : List Char) (ns : List ConcreteNode) (ts : List Nest) : Prop where
  inside : ∀ i ∈ Nest.idiomsAll ts, ∃ n ∈ ns, i.Inside cs n.start n.stop
  within : ∀ t ∈ ts, ∀ j ∈ Nest.idiomsAll t.inner, t.idiom.start ≤ j.start ∧ j.stop ≤ t.idiom.stop
  apart : ts.Pairwise fun s t => s.idiom.Apart t.idiom

theorem Over.nil (ns : List ConcreteNode) : Over cs ns [] :=
  ⟨by simp [Nest.idiomsAll], by simp, List.Pairwise.nil⟩

theorem Over.of_settled {n : ConcreteNode} {ts : List Nest} (h : Settled cs n.start n.stop ts) :
    Over cs [n] ts :=
  ⟨fun i hi => ⟨n, by simp, h.inside i hi⟩, h.within, h.apart⟩

theorem Over.settled {n : ConcreteNode} {ns : List ConcreteNode} {ts : List Nest}
    (h : Over cs ns ts) (hns : ∀ m ∈ ns, Within m n) : Settled cs n.start n.stop ts := by
  refine ⟨?_, h.within, h.apart⟩
  intro i hi
  obtain ⟨m, hm, hi⟩ := h.inside i hi
  exact hi.mono (hns m hm).1 (hns m hm).2

/-- Forests over nodes beside each other make one forest. -/
theorem Over.append {ns ms : List ConcreteNode} {ss ts : List Nest} (hs : Over cs ns ss)
    (ht : Over cs ms ts) (hbeside : ∀ n ∈ ns, ∀ m ∈ ms, Beside n m) :
    Over cs (ns ++ ms) (ss ++ ts) := by
  refine ⟨?_, ?_, List.pairwise_append.mpr ⟨hs.apart, ht.apart, ?_⟩⟩
  · intro i hi
    rw [Nest.idiomsAll_append, List.mem_append] at hi
    rcases hi with hi | hi
    · obtain ⟨n, hn, hi⟩ := hs.inside i hi
      exact ⟨n, List.mem_append_left _ hn, hi⟩
    · obtain ⟨m, hm, hi⟩ := ht.inside i hi
      exact ⟨m, List.mem_append_right _ hm, hi⟩
  · intro t hmem
    rcases List.mem_append.mp hmem with hmem | hmem
    · exact hs.within t hmem
    · exact ht.within t hmem
  · intro s hsmem t htmem
    obtain ⟨n, hn, hs⟩ := hs.inside s.idiom (Nest.mem_idiomsAll.mpr ⟨s, hsmem, Or.inl rfl⟩)
    obtain ⟨m, hm, ht⟩ := ht.inside t.idiom (Nest.mem_idiomsAll.mpr ⟨t, htmem, Or.inl rfl⟩)
    have hnm := hbeside n hn m hm
    obtain ⟨hs1, _, hs2, _⟩ := hs
    obtain ⟨ht1, _, ht2, _⟩ := ht
    unfold Beside at hnm
    unfold Idiom.Apart
    omega

/-! ## The invariant -/

/-- What holds of the syntax node that a concrete node becomes. -/
structure Sound (cs : List Char) (n : ConcreteNode) (v : Node) : Prop where
  settled : Settled cs n.start n.stop v.toValue.nests
  fits : v.toValue.Fits
  /-- No conversion gives an empty parameter list, so only a block without written parameters has one. -/
  parameters : v.kind = "args" → v.children ≠ []
  /-- The text of an integer literal is not empty. -/
  integer : ∀ k, v.kind = "int" → v.children = [.int k] → n.start < n.stop

/-- What holds of the children that several concrete nodes become. -/
structure SoundAll (cs : List Char) (ns : List ConcreteNode) (vs : List Node) : Prop where
  spread : Over cs ns (Value.nestsAll (vs.map Node.toValue))
  fits : ∀ v ∈ vs, v.toValue.Fits
  parameters : ∀ v ∈ vs, v.kind = "args" → v.children ≠ []

theorem soundAll_of_forall₂ {r : ConcreteNode → Node → Prop} {ns : List ConcreteNode}
    {vs : List Node} (h : List.Forall₂ r ns vs) (hr : ∀ n ∈ ns, ∀ v, r n v → Sound cs n v)
    (hbeside : ns.Pairwise Beside) : SoundAll cs ns vs := by
  induction h with
  | nil => exact ⟨Over.nil _, by simp, by simp⟩
  | @cons n v ns vs hv _ ih =>
      rw [List.forall_mem_cons] at hr
      obtain ⟨hfirst, hbeside⟩ := List.pairwise_cons.mp hbeside
      obtain ⟨hover, hfits, hparameters⟩ := ih hr.2 hbeside
      have hv := hr.1 v hv
      refine ⟨?_, ?_, ?_⟩
      · rw [List.map_cons, Value.nestsAll]
        apply (Over.of_settled hv.settled).append hover
        intro m hm
        rw [List.mem_singleton.mp hm]
        exact hfirst
      · exact List.forall_mem_cons.mpr ⟨hv.fits, hfits⟩
      · exact List.forall_mem_cons.mpr ⟨hv.parameters, hparameters⟩

theorem soundAll_of_convertAll {ns : List ConcreteNode} {vs : List Node}
    (h : convertAll source ns = .ok vs) (hns : ∀ n ∈ ns, ∀ v, Shape source n v → Sound cs n v)
    (hbeside : ns.Pairwise Beside) : SoundAll cs ns vs :=
  soundAll_of_forall₂ (forall₂_of_convertAll h) (fun n hn v hv => hns n hn v (shape_of_convert hv))
    hbeside

theorem soundAll_of_convertPart {c : Option ConcreteNode} {v : Option Node}
    (h : convertPart source c = .ok v) (hc : ∀ n ∈ c, ∀ v, Shape source n v → Sound cs n v) :
    SoundAll cs c.toList v.toList := by
  cases c with
  | none =>
      cases h
      exact ⟨Over.nil _, by simp, by simp⟩
  | some n =>
      obtain ⟨w, hw, rfl⟩ := map_eq_ok.mp h
      have hforall : List.Forall₂ (fun n v => convert source n = .ok v) [n] [w] := .cons hw .nil
      exact soundAll_of_forall₂ hforall
        (fun m hm v hv => hc m (by simpa [eq_comm] using hm) v (shape_of_convert hv))
        (List.pairwise_singleton _ _)

/-! ## Literals -/

theorem nests_of_isLiteral {v : Value} (h : IsLiteral v) : v.nests = [] := by
  cases h <;> rfl

theorem nestsAll_of_isLiteral {vs : List Value} (h : ∀ v ∈ vs, IsLiteral v) :
    Value.nestsAll vs = [] := by
  induction vs with
  | nil => rfl
  | cons v vs ih =>
      rw [List.forall_mem_cons] at h
      rw [Value.nestsAll, nests_of_isLiteral h.1, ih h.2]
      rfl

/-- An integer literal has a text, so it takes up at least one byte. -/
theorem start_lt_stop_of_integerLiteral? {n : ConcreteNode} {k : Int}
    (h : integerLiteral? (n.text source) = some k) : n.start < n.stop := by
  rw [← Nat.not_le]
  intro hle
  have hempty : n.text source = "" := by
    rw [ConcreteNode.text, textBetween, slice, Nat.sub_eq_zero_of_le hle, List.take_zero]
    rfl
  have hnone : integerLiteral? "" = none := by decide
  rw [hempty, hnone] at h
  exact absurd h (by simp)

theorem LiteralIn.start_lt_stop {n : ConcreteNode} {k : Int} (h : LiteralIn source n k)
    (hn : n.WellFormed cs) : n.start < n.stop := by
  obtain ⟨m, hm, _, j, hj, _⟩ := h
  have hlt := start_lt_stop_of_integerLiteral? hj
  rcases hm with rfl | hm
  · exact hlt
  · obtain ⟨hfirst, hlast⟩ := (hn.of_child hm).2
    omega

theorem LiteralIn.fits {n : ConcreteNode} {k : Int} (h : LiteralIn source n k)
    (hn : n.IntegersFit source) : Value.Fits (.int k) := by
  obtain ⟨m, hm, hform, j, hj, habs⟩ := h
  have hm : m.IntegersFit source := by
    rcases hm with rfl | hm
    · exact hn
    · exact hn.of_child hm
  rw [Value.Fits, habs]
  exact hm.here hform j hj

/-! ## One node -/

/-- Only a block with an empty parameter list is detected. -/
theorem detect_eq_none_of_plain {kind : String} {values : List Value} {layout : Layout}
    (hplain : kind = "block" → ∀ call place rest, values ≠ call :: .node "args" [] place :: rest) :
    detect (.node kind values layout) = none := by
  rw [Option.eq_none_iff_forall_ne_some]
  intro i hi
  obtain ⟨hvalue, hblock⟩ := detected_of_detect hi
  rw [hblock] at hvalue
  cases hvalue
  exact hplain rfl _ _ _ rfl

/-- A node is sound when its children are and it is not itself a detected block. -/
theorem sound_node {n : ConcreteNode} {kind : String} {values : List Value} {layout : Layout}
    (hsettled : Settled cs n.start n.stop (Value.nestsAll values)) (hfits : ∀ v ∈ values, v.Fits)
    (hnodes : kind = "send" → ∀ argument ∈ values.drop 2, argument.isNode = true)
    (hplain : kind = "block" → ∀ call place rest, values ≠ call :: .node "args" [] place :: rest)
    (hparameters : kind = "args" → values ≠ [])
    (hinteger : ∀ k, kind = "int" → values = [.int k] → n.start < n.stop) :
    Sound cs n ⟨kind, values, layout⟩ := by
  refine ⟨?_, ⟨hnodes, Value.fitsAll_iff.mpr hfits⟩, hparameters, hinteger⟩
  rw [Node.toValue, Value.nests_of_detect_eq_none (detect_eq_none_of_plain hplain)]
  exact hsettled

/-- A block that is detected at a node is the node itself. -/
theorem start_stop_of_detect {n : ConcreteNode} {kind : String} {values : List Value} {i : Idiom}
    (h : detect (n.build source kind values).toValue = some i) : i.start = n.start ∧ i.stop = n.stop := by
  obtain ⟨hvalue, _⟩ := detected_of_detect h
  injection hvalue with _ _ hlayout
  constructor
  · rw [Idiom.start, Node.start, ← hlayout]
    rfl
  · rw [Idiom.stop, Node.stop, ← hlayout]
    rfl

/-- A detected block takes up all of the concrete node. -/
theorem settled_detected {n : ConcreteNode} (hn : n.WellFormed cs) {kind : String}
    {values : List Value} {i : Idiom} (hdetect : detect (n.build source kind values).toValue = some i)
    (hsettled : Settled cs n.start n.stop (Value.nestsAll values)) (hlt : n.start < n.stop) :
    Settled cs n.start n.stop (n.build source kind values).toValue.nests := by
  rw [Node.toValue, Value.nests_of_detect hdetect]
  obtain ⟨hstart, hstop⟩ := start_stop_of_detect hdetect
  have hplaced := hn.here
  refine hsettled.around hstart hstop ⟨Int.le_of_eq hstart.symm, ?_, Int.le_of_eq hstop, ?_⟩
  · rw [hstart, hstop]
    exact Int.ofNat_lt.mpr hlt
  · rw [hstart, hstop]
    exact ⟨hplaced.first, hplaced.last⟩

/-! ## Nodes gathered into one -/

theorem nests_valueOf (part : Option Node) :
    (valueOf part).nests = Value.nestsAll (part.toList.map Node.toValue) := by
  cases part with
  | none => rfl
  | some v => rw [valueOf, Option.toList_some, List.map_singleton, Value.nestsAll, Value.nestsAll,
      List.append_nil]

theorem fits_valueOf {part : Option Node} (h : ∀ v ∈ part.toList, v.toValue.Fits) :
    (valueOf part).Fits := by
  cases part with
  | none => trivial
  | some v => exact h v (by simp)

/-- A node over others holds their detected blocks, unless it is a block itself. -/
theorem nests_nodeOver {kind : String} (hkind : kind ≠ "block") (first : Node) (rest : List Node) :
    (nodeOver source kind first rest).toValue.nests =
      Value.nestsAll ((first :: rest).map Node.toValue) := by
  exact Value.nests_of_detect_eq_none (detect_eq_none (n := nodeOver source kind first rest) hkind)

theorem fits_nodeOver {kind : String} (hkind : kind ≠ "send") {first : Node} {rest : List Node}
    (h : ∀ v ∈ first :: rest, v.toValue.Fits) : (nodeOver source kind first rest).toValue.Fits := by
  refine ⟨fun hsend => absurd hsend hkind, Value.fitsAll_iff.mpr ?_⟩
  intro v hv
  obtain ⟨w, hw, rfl⟩ := List.mem_map.mp hv
  exact h w hw

/-- Gathering pairs leaves the detected blocks where they are. -/
theorem nestsAll_gatherPairs (ns : List Node) : ∀ pairs : List Node,
    Value.nestsAll ((gatherPairs source pairs ns).map Node.toValue) =
      Value.nestsAll ((pairs.reverse ++ ns).map Node.toValue) := by
  induction ns with
  | nil =>
      intro pairs
      rw [gatherPairs, List.append_nil]
      cases pairs.reverse with
      | nil => rfl
      | cons first rest =>
          show Value.nestsAll [(nodeOver source "hash" first rest).toValue] = _
          rw [Value.nestsAll, nests_nodeOver (by decide), Value.nestsAll, List.append_nil]
  | cons n ns ih =>
      intro pairs
      have hrest : Value.nestsAll ((gatherPairs source [] ns).map Node.toValue) =
          Value.nestsAll (ns.map Node.toValue) := ih []
      rw [gatherPairs]
      split
      · rw [ih, List.reverse_cons, List.append_assoc, List.singleton_append]
      · cases pairs.reverse with
        | nil =>
            show Value.nestsAll (n.toValue :: (gatherPairs source [] ns).map Node.toValue) = _
            rw [Value.nestsAll, hrest]
            rfl
        | cons first rest =>
            show Value.nestsAll ((nodeOver source "hash" first rest).toValue :: n.toValue ::
              (gatherPairs source [] ns).map Node.toValue) = _
            rw [Value.nestsAll, Value.nestsAll, nests_nodeOver (by decide), hrest, List.map_append,
              Value.nestsAll_append]
            rfl

theorem fits_gatherPairs (ns : List Node) : ∀ pairs : List Node,
    (∀ v ∈ pairs.reverse ++ ns, v.toValue.Fits) →
      ∀ v ∈ gatherPairs source pairs ns, v.toValue.Fits := by
  induction ns with
  | nil =>
      intro pairs h
      rw [gatherPairs]
      cases hpairs : pairs.reverse with
      | nil => simp
      | cons first rest =>
          rw [hpairs, List.append_nil] at h
          exact List.forall_mem_singleton.mpr (fits_nodeOver (by decide) h)
  | cons n ns ih =>
      intro pairs h
      rw [gatherPairs]
      split
      · exact ih (n :: pairs) (by simpa using h)
      · obtain ⟨hpairs, hns⟩ := List.forall_mem_append.mp h
        obtain ⟨hn, hns⟩ := List.forall_mem_cons.mp hns
        have hrest := ih [] hns
        cases hreverse : pairs.reverse with
        | nil => exact List.forall_mem_cons.mpr ⟨hn, hrest⟩
        | cons first rest =>
            rw [hreverse] at hpairs
            exact List.forall_mem_cons.mpr ⟨fits_nodeOver (by decide) hpairs,
              List.forall_mem_cons.mpr ⟨hn, hrest⟩⟩

/-- Joining statements leaves the detected blocks where they are. -/
theorem nests_joinStatements (statements : List Node) :
    (valueOf (joinStatements source statements)).nests =
      Value.nestsAll (statements.map Node.toValue) := by
  match statements with
  | [] => rfl
  | [one] => rw [joinStatements, nests_valueOf]; rfl
  | first :: second :: rest => exact nests_nodeOver (by decide) first (second :: rest)

theorem fits_joinStatements {statements : List Node} (h : ∀ v ∈ statements, v.toValue.Fits) :
    (valueOf (joinStatements source statements)).Fits := by
  match statements with
  | [] => trivial
  | [one] => exact h one (by simp)
  | first :: second :: rest => exact fits_nodeOver (by decide) h

/-! ## The nodes below a node -/

/-- A node below another one, in a tree that is well formed and has integers that fit. -/
structure Below (cs : List Char) (source : List UInt8) (m n : ConcreteNode) : Prop where
  weight : m.weight < n.weight
  wellFormed : m.WellFormed cs
  integersFit : m.IntegersFit source
  within : Within m n

theorem below_child {n c : ConcreteNode} (hn : n.WellFormed cs) (hfit : n.IntegersFit source)
    (hc : c ∈ n.children) : Below cs source c n := by
  have hweight := ConcreteNode.weight_le_weights hc
  obtain ⟨hwf, hwithin⟩ := hn.of_child hc
  refine ⟨?_, hwf, hfit.of_child hc, hwithin⟩
  rw [n.weight_eq]
  omega

theorem Below.trans {m n p : ConcreteNode} (hmn : Below cs source m n) (hnp : Below cs source n p) :
    Below cs source m p :=
  ⟨Nat.lt_trans hmn.weight hnp.weight, hmn.wellFormed, hmn.integersFit, hmn.within.trans hnp.within⟩

theorem Below.child {m n c : ConcreteNode} (h : Below cs source m n) (hc : c ∈ m.children) :
    Below cs source c n :=
  (below_child h.wellFormed h.integersFit hc).trans h

theorem below_childFor? {n c : ConcreteNode} {field : String} (hn : n.WellFormed cs)
    (hfit : n.IntegersFit source) (hc : n.childFor? field = some c) : Below cs source c n :=
  below_child hn hfit (ConcreteNode.childFor?_eq_some hc).1

theorem below_argumentParts {n m : ConcreteNode} (hn : n.WellFormed cs)
    (hfit : n.IntegersFit source) (hm : m ∈ argumentParts n) : Below cs source m n := by
  rw [argumentParts] at hm
  split at hm
  · next a ha => exact (below_childFor? hn hfit ha).child (a.parts_sublist.subset hm)
  · exact absurd hm List.not_mem_nil

theorem below_statement {b s p : ConcreteNode} (hp : Below cs source p b) (hs : s ∈ statementsOf p) :
    Below cs source s b := by
  rw [statementsOf] at hs
  split at hs
  · exact hp.child (p.namedChildren_sublist.subset hs)
  · rw [List.mem_singleton.mp hs]
    exact hp

end IdiomLint.Ruby
