import Mathlib.Logic.Relation
import IdiomLint.Proofs.Ruby.Soundness

/-!
# Expression positions

`expressions` lists the nodes that stand in the expression positions right below a node, `standing` the
nodes that stand in such positions at any depth. The default value of a block parameter is in no such
position, as a parameter is known by its name alone.

The conversion passes over no expression and makes up none: what is detected in a converted tree are, in
order, the blocks that are detected in the conversions of the standing nodes one by one
(`idiomsAll_of_convert`).
-/

namespace IdiomLint.Ruby

open ConcreteNode (Beside Within WellFormed IntegersFit)

variable {cs : List Char} {source : List UInt8} {n e : ConcreteNode}

/-! ## The positions -/

/-- The parameters of a block that are known by more than a name. -/
def unnamedParameters (block : ConcreteNode) : List ConcreteNode :=
  match blockParameters? block with
  | some written => written.parts.filter fun p => (parameterKinds.lookup p.kind).isNone
  | none => []

/-- The expressions of a block. -/
def blockExpressions : Option ConcreteNode → List ConcreteNode
  | some block => unnamedParameters block ++ blockStatements block
  | none => []

/-- The nodes that stand in the expression positions right below a node. -/
def expressions (source : List UInt8) (n : ConcreteNode) : List ConcreteNode :=
  match n.form with
  | .statements | .other => n.parts
  | .string => if (plainString? source n).isSome then [] else n.parts
  | .unary => if (negativeLiteral? source n).isSome then [] else n.parts
  | .scope => (n.childFor? "scope").toList
  | .pair => (n.childFor? "key").toList ++ (n.childFor? "value").toList
  | .call => callParts n ++ blockExpressions (n.childFor? "block")
  | .integer | .float | .symbol | .key | .constant | .identifier | .keyword | .variableOf _ => []

theorem expressions_cases (source : List UInt8) (n : ConcreteNode) :
    expressions source n = [] ∨ expressions source n = n.parts ∨
      expressions source n = (n.childFor? "scope").toList ∨
      expressions source n = (n.childFor? "key").toList ++ (n.childFor? "value").toList ∨
      expressions source n = callParts n ++ blockExpressions (n.childFor? "block") := by
  rw [expressions]
  cases n.form with
  | string | unary =>
      simp only
      split
      · exact Or.inl rfl
      · exact Or.inr (Or.inl rfl)
  | _ => simp

/-! ## Where they stand -/

/-- A node is a child of another one, or a child of a child, and so on. -/
abbrev Inner : ConcreteNode → ConcreteNode → Prop := Relation.TransGen fun c n => c ∈ n.children

theorem inner_childFor? {field : String} (h : e ∈ (n.childFor? field).toList) : Inner e n :=
  .single (ConcreteNode.childFor?_eq_some (Option.mem_toList.mp h)).1

theorem inner_part (h : e ∈ n.parts) : Inner e n := .single (n.parts_sublist.subset h)

theorem inner_callParts (h : e ∈ callParts n) : Inner e n := by
  rcases List.mem_append.mp h with h | h
  · exact inner_childFor? h
  · rw [argumentParts] at h
    split at h
    · next a ha => exact (inner_part h).tail (ConcreteNode.childFor?_eq_some ha).1
    · exact absurd h List.not_mem_nil

theorem mem_unnamedParameters {block : ConcreteNode} (h : e ∈ unnamedParameters block) :
    ∃ written, blockParameters? block = some written ∧ e ∈ written.parts := by
  rw [unnamedParameters] at h
  split at h
  · next written hwritten => exact ⟨written, hwritten, (List.mem_filter.mp h).1⟩
  · exact absurd h List.not_mem_nil

theorem inner_blockExpressions {block : ConcreteNode} (h : e ∈ blockExpressions (some block)) :
    Inner e block := by
  rcases List.mem_append.mp h with h | h
  · obtain ⟨written, hwritten, h⟩ := mem_unnamedParameters h
    have hmem := (ConcreteNode.mem_blockParameters? hwritten).1
    exact (inner_part h).tail (block.parts_sublist.subset hmem)
  · obtain ⟨p, hp, _, h⟩ := ConcreteNode.mem_blockStatements h
    rw [statementsOf] at h
    split at h
    · exact Relation.TransGen.tail (.single (p.namedChildren_sublist.subset h))
        (block.parts_sublist.subset hp)
    · rw [List.mem_singleton.mp h]
      exact inner_part hp

theorem inner_expressions (h : e ∈ expressions source n) : Inner e n := by
  rcases expressions_cases source n with heq | heq | heq | heq | heq <;> rw [heq] at h
  · exact absurd h List.not_mem_nil
  · exact inner_part h
  · exact inner_childFor? h
  · rcases List.mem_append.mp h with h | h
    · exact inner_childFor? h
    · exact inner_childFor? h
  · rcases List.mem_append.mp h with h | h
    · exact inner_callParts h
    · cases hblock : n.childFor? "block" with
      | none =>
          rw [hblock] at h
          exact absurd h List.not_mem_nil
      | some block =>
          rw [hblock] at h
          exact (inner_blockExpressions h).tail (ConcreteNode.childFor?_eq_some hblock).1

theorem weight_lt_of_inner (h : Inner e n) : e.weight < n.weight := by
  have hchild : ∀ {c m : ConcreteNode}, c ∈ m.children → c.weight < m.weight := by
    intro c m hc
    have hle := ConcreteNode.weight_le_weights hc
    rw [m.weight_eq]
    omega
  induction h with
  | single h => exact hchild h
  | tail _ h ih => exact Nat.lt_trans ih (hchild h)

/-- What holds of all nodes of a tree holds of all nodes of the trees in it. -/
theorem ConcreteNode.Everywhere.of_inner {p : ConcreteNode → Prop} (hn : n.Everywhere p) (h : Inner e n) :
    e.Everywhere p := by
  induction h with
  | single h => exact hn.of_child h
  | tail _ h ih => exact ih (hn.of_child h)

theorem below_of_inner (h : Inner e n) (hn : n.WellFormed cs) (hfit : n.IntegersFit source) :
    Below cs source e n := by
  induction h with
  | single h => exact below_child hn hfit h
  | tail _ h ih =>
      have hbelow := below_child hn hfit h
      exact (ih hbelow.wellFormed hbelow.integersFit).trans hbelow

theorem within_of_inner (hn : n.WellFormed cs) (h : Inner e n) : Within e n := by
  induction h with
  | single h => exact (hn.of_child h).2
  | tail _ h ih =>
      obtain ⟨hwf, hwithin⟩ := hn.of_child h
      exact (ih hwf).trans hwithin

theorem beside_toList (c : Option ConcreteNode) : c.toList.Pairwise Beside := by
  cases c with
  | none => exact List.Pairwise.nil
  | some c => exact List.pairwise_singleton _ _

theorem beside_callParts (hn : n.WellFormed cs) : (callParts n).Pairwise Beside := by
  refine List.pairwise_append.mpr ⟨beside_toList _, beside_argumentParts hn, ?_⟩
  intro r hr m hm
  exact beside_receiver hn (Option.mem_toList.mp hr) hm

theorem beside_blockExpressions {block : ConcreteNode} (hblock : block.WellFormed cs) :
    (blockExpressions (some block)).Pairwise Beside := by
  refine List.pairwise_append.mpr ⟨?_, hblock.beside_blockStatements, ?_⟩
  · rw [unnamedParameters]
    split
    · next written hwritten =>
        have hmem := (ConcreteNode.mem_blockParameters? hwritten).1
        have hwf := (hblock.of_child (block.parts_sublist.subset hmem)).1
        exact hwf.beside.sublist (List.filter_sublist.trans written.parts_sublist)
    · exact List.Pairwise.nil
  · intro p hp s hs
    obtain ⟨written, hwritten, hp⟩ := mem_unnamedParameters hp
    have hmem := (ConcreteNode.mem_blockParameters? hwritten).1
    have hwf := (hblock.of_child (block.parts_sublist.subset hmem)).1
    have hwithin := (hwf.of_child (written.parts_sublist.subset hp)).2
    exact (beside_statement hblock hwritten hs).of_within hwithin Within.rfl

/-- The expressions right below a node lie beside each other. -/
theorem beside_expressions (hn : n.WellFormed cs) : (expressions source n).Pairwise Beside := by
  rcases expressions_cases source n with heq | heq | heq | heq | heq <;> rw [heq]
  · exact List.Pairwise.nil
  · exact hn.beside.sublist n.parts_sublist
  · exact beside_toList _
  · refine List.pairwise_append.mpr ⟨beside_toList _, beside_toList _, ?_⟩
    intro k hk v hv
    exact hn.beside_childFor? (by decide) (Option.mem_toList.mp hk) (Option.mem_toList.mp hv)
  · cases hblock : n.childFor? "block" with
    | none =>
        rw [blockExpressions, List.append_nil]
        exact beside_callParts hn
    | some block =>
        have hwf := (hn.of_child (ConcreteNode.childFor?_eq_some hblock).1).1
        refine List.pairwise_append.mpr ⟨beside_callParts hn, beside_blockExpressions hwf, ?_⟩
        intro m hm x hx
        obtain ⟨_, c, field, hfield, hc, hmc⟩ := callParts_within hn hm
        -- The block lies beside the child that the part of the call is in.
        have hbeside := hn.beside_childFor? hfield hc hblock
        exact hbeside.of_within hmc (within_of_inner hwf (inner_blockExpressions hx))

/-! ## At any depth -/

/-- A node and all nodes that stand in expression positions below it, in the order of the walk. -/
def standing (source : List UInt8) (n : ConcreteNode) : List ConcreteNode :=
  n :: (expressions source n).attach.flatMap fun e => standing source e.1
termination_by n.weight
decreasing_by exact weight_lt_of_inner (inner_expressions e.2)

theorem standing_eq (source : List UInt8) (n : ConcreteNode) :
    standing source n = n :: (expressions source n).flatMap (standing source) := by
  rw [standing]
  simp

theorem eq_or_inner_of_mem_standing (h : e ∈ standing source n) : e = n ∨ Inner e n := by
  induction n using standing.induct source with
  | case1 n ih =>
      rw [standing_eq, List.mem_cons, List.mem_flatMap] at h
      rcases h with rfl | ⟨m, hm, h⟩
      · exact Or.inl rfl
      · have hinner : Inner m n := inner_expressions hm
        rcases ih ⟨m, hm⟩ h with rfl | h
        · exact Or.inr hinner
        · exact Or.inr (h.trans hinner)

theorem ConcreteNode.Everywhere.of_standing {p : ConcreteNode → Prop} (hn : n.Everywhere p)
    (h : e ∈ standing source n) : e.Everywhere p := by
  rcases eq_or_inner_of_mem_standing h with rfl | h
  · exact hn
  · exact hn.of_inner h

/-! ## What the conversion makes of them -/

/-- The nodes can be converted, and the forest is that of their conversions one after the other. -/
def Yields (source : List UInt8) (ns : List ConcreteNode) (ts : List Nest) : Prop :=
  ∃ vs, convertAll source ns = .ok vs ∧ Value.nestsAll (vs.map Node.toValue) = ts

theorem convertAll_append {ns ms : List ConcreteNode} {ws : List Node} (hms : convertAll source ms = .ok ws) :
    ∀ {vs : List Node}, convertAll source ns = .ok vs → convertAll source (ns ++ ms) = .ok (vs ++ ws) := by
  induction ns with
  | nil =>
      intro vs hns
      rw [convertAll_nil] at hns
      cases hns
      exact hms
  | cons n ns ih =>
      intro vs hns
      rw [convertAll] at hns
      obtain ⟨head, hhead, hns⟩ := bind_eq_ok.mp hns
      obtain ⟨tail, htail, hns⟩ := bind_eq_ok.mp hns
      cases hns
      rw [List.cons_append, convertAll, hhead, ih htail]
      rfl

theorem yields_nil : Yields source [] [] := ⟨[], convertAll_nil, rfl⟩

theorem Yields.append {ns ms : List ConcreteNode} {ss ts : List Nest} (hns : Yields source ns ss)
    (hms : Yields source ms ts) : Yields source (ns ++ ms) (ss ++ ts) := by
  obtain ⟨vs, hvs, rfl⟩ := hns
  obtain ⟨ws, hws, rfl⟩ := hms
  refine ⟨vs ++ ws, convertAll_append hws hvs, ?_⟩
  rw [List.map_append, Value.nestsAll_append]

theorem yields_convertAll {ns : List ConcreteNode} {vs : List Node} (h : convertAll source ns = .ok vs) :
    Yields source ns (Value.nestsAll (vs.map Node.toValue)) := ⟨vs, h, rfl⟩

theorem yields_convertPart {c : Option ConcreteNode} {v : Option Node}
    (h : convertPart source c = .ok v) : Yields source c.toList (valueOf v).nests := by
  cases c with
  | none =>
      cases h
      exact yields_nil
  | some c =>
      obtain ⟨w, hw, rfl⟩ := map_eq_ok.mp h
      refine ⟨[w], ?_, (nests_valueOf (some w)).symm⟩
      rw [Option.toList_some, convertAll, hw, convertAll_nil]
      rfl

theorem detect_of_literals {kind : String} {values : List Value} (h : ∀ v ∈ values, IsLiteral v) :
    detect (n.build source kind values).toValue = none := by
  apply detect_eq_none_of_plain
  rintro - call place rest rfl
  exact nomatch h (.node "args" [] place) (by simp)

theorem nests_of_literals {kind : String} {values : List Value} (h : ∀ v ∈ values, IsLiteral v) :
    (n.build source kind values).toValue.nests = [] := by
  rw [Node.toValue, Value.nests_of_detect_eq_none (detect_of_literals h)]
  exact nestsAll_of_isLiteral h

/-- A parameter that is known by its name has no expressions. -/
theorem yields_convertParameters {ns : List ConcreteNode} :
    ∀ {vs : List Node}, convertParameters source ns = .ok vs →
      Yields source (ns.filter fun p => (parameterKinds.lookup p.kind).isNone)
        (Value.nestsAll (vs.map Node.toValue)) := by
  induction ns with
  | nil =>
      intro vs h
      rw [convertParameters] at h
      cases h
      exact yields_nil
  | cons n ns ih =>
      intro vs h
      rw [convertParameters] at h
      simp only at h
      split at h
      · next kind hkind =>
          obtain ⟨head, hhead, h⟩ := bind_eq_ok.mp h
          obtain ⟨tail, htail, h⟩ := bind_eq_ok.mp h
          cases hhead
          cases h
          rw [List.filter_cons_of_neg (by simp [hkind]), List.map_cons, Value.nestsAll]
          rw [nests_of_literals (List.forall_mem_singleton.mpr (.text _))]
          exact ih htail
      · next hkind =>
          obtain ⟨head, hhead, h⟩ := bind_eq_ok.mp h
          obtain ⟨tail, htail, h⟩ := bind_eq_ok.mp h
          cases h
          rw [List.filter_cons_of_pos (by simp [hkind]), List.map_cons, Value.nestsAll]
          obtain ⟨ws, hws, hnests⟩ := ih htail
          refine ⟨head :: ws, ?_, ?_⟩
          · rw [convertAll, hhead, hws]
            rfl
          · rw [List.map_cons, Value.nestsAll, hnests]

theorem yields_parameters {block : ConcreteNode} {parameters : Option (ConcreteNode × List Node)}
    (h : convertParameterList source (blockParameters? block) = .ok parameters) :
    Yields source (unnamedParameters block) (argsNode source parameters).toValue.nests := by
  rw [nests_argsNode, unnamedParameters]
  cases hwritten : blockParameters? block with
  | none =>
      rw [hwritten] at h
      cases h
      exact yields_nil
  | some written =>
      rw [hwritten] at h
      obtain ⟨ps, hps, rfl⟩ := map_eq_ok.mp h
      exact yields_convertParameters hps

/-! ## Form by form -/

/-- Where a node begins and ends. -/
def ConcreteNode.place (n : ConcreteNode) : Int × Int := (n.start, n.stop)

/-- What a conversion makes of a node and its expressions. -/
structure Complete (source : List UInt8) (n : ConcreteNode) (v : Node) : Prop where
  /-- What is detected below the syntax node is detected in the expressions. -/
  below : Yields source (expressions source n) (Value.nestsAll v.children)
  /-- Only a call is detected, on an integer literal, and it takes up all of the node. -/
  here : ∀ i, detect v.toValue = some i → n.form = .call ∧ i.place = n.place ∧
    ∃ c rest u k, expressions source n = c :: rest ∧ convert source c = .ok u ∧ u.kind = "int" ∧
      u.children = [.int k]

variable {v : Node}

theorem complete_leaf {kind : String} {values : List Value} (hnone : expressions source n = [])
    (h : ∀ w ∈ values, IsLiteral w) : Complete source n (n.build source kind values) := by
  refine ⟨?_, fun i hi => absurd ((detect_of_literals h).symm.trans hi) (by simp)⟩
  rw [hnone, ConcreteNode.build, nestsAll_of_isLiteral h]
  exact yields_nil

/-- No conversion gives an empty parameter list. -/
theorem children_ne_nil_of_convert (h : convert source n = .ok v) : v.kind = "args" → v.children ≠ [] := by
  cases shape_of_convert h with
  | leaf _ _ hargs _ => exact hargs
  | parts _ _ hargs => exact fun hkind hempty => hargs hkind (List.map_eq_nil_iff.mp hempty)
  | scope _ _ | top _ _ | pair _ _ => exact fun hkind => absurd hkind (by simp [ConcreteNode.build])
  | @call receiver arguments _ _ =>
      have hcall := @callNode_kind source n receiver arguments
      intro hkind
      rw [hkind] at hcall
      exact absurd hcall (by decide)
  | block _ _ _ _ _ hblock =>
      obtain ⟨kind, second, rfl, hkinds, _⟩ := of_blockNode hblock
      intro hkind
      change kind = "args" at hkind
      rw [hkind] at hkinds
      exact absurd hkinds (by decide)

theorem complete_parts {kind : String} {vs : List Node} (hparts : expressions source n = n.parts)
    (hvs : convertAll source n.parts = .ok vs) :
    Complete source n (n.build source kind (vs.map Node.toValue)) := by
  have hargs : ∀ w ∈ vs, w.kind = "args" → w.children ≠ [] := by
    intro w hw
    obtain ⟨m, _, hm⟩ := exists_mem_of_forall₂ (forall₂_of_convertAll hvs) w hw
    exact children_ne_nil_of_convert hm
  have hnone : detect (n.build source kind (vs.map Node.toValue)).toValue = none :=
    detect_eq_none_of_plain fun _ => plain_of_parts hargs
  refine ⟨?_, fun i hi => absurd (hnone.symm.trans hi) (by simp)⟩
  rw [hparts]
  exact yields_convertAll hvs

theorem complete_convertOther (hparts : expressions source n = n.parts)
    (h : convertOther source n = .ok v) : Complete source n v := by
  rw [convertOther] at h
  split at h
  · next hempty =>
      cases h
      exact complete_leaf (hparts.trans (List.isEmpty_iff.mp hempty))
        (List.forall_mem_singleton.mpr (.text _))
  · obtain ⟨vs, hvs, h⟩ := bind_eq_ok.mp h
    cases h
    exact complete_parts hparts hvs

/-- A node of a kind that is never detected. -/
theorem complete_of_kind (hkind : v.kind ≠ "block")
    (h : Yields source (expressions source n) (Value.nestsAll v.children)) : Complete source n v :=
  ⟨h, fun i hi => absurd ((detect_eq_none hkind).symm.trans hi) (by simp)⟩

/-- A detected call has an integer literal as its receiver. -/
theorem exists_literal_of_detect {receiver : Option Node} {arguments : List Node} {kind : String}
    {second third : Value} {i : Idiom} (hreceiver : convertPart source (n.childFor? "receiver") = .ok receiver)
    (h : detect (n.build source kind
      [(callNode source n receiver arguments).toValue, second, third]).toValue = some i) :
    ∃ c u k, n.childFor? "receiver" = some c ∧ convert source c = .ok u ∧ u.kind = "int" ∧
      u.children = [.int k] := by
  obtain ⟨hvalue, hblock⟩ := detected_of_detect h
  injection hvalue with _ hchildren _
  rw [hblock] at hchildren
  injection hchildren with hcallee _
  obtain ⟨method, hoperands⟩ := @callNode_children source n receiver arguments
  rw [Node.toValue, hoperands] at hcallee
  injection hcallee with _ hoperands _
  injection hoperands with hliteral _
  cases receiver with
  | none => exact absurd hliteral (by simp [valueOf])
  | some u =>
      injection hliteral with hkind hvalues _
      obtain ⟨c, hc, hu⟩ := exists_of_convertPart hreceiver rfl
      exact ⟨c, u, i.count, hc, hu, hkind, hvalues⟩

theorem complete_call (hform : n.form = .call) (h : convert source n = .ok v) : Complete source n v := by
  rw [convert_call hform] at h
  obtain ⟨receiver, hreceiver, h⟩ := bind_eq_ok.mp h
  obtain ⟨arguments, harguments, h⟩ := bind_eq_ok.mp h
  have hcall : Yields source (callParts n)
      (Value.nestsAll (callNode source n receiver arguments).children) := by
    rw [nestsAll_callNode, ← nests_valueOf]
    exact (yields_convertPart hreceiver).append (yields_convertAll harguments)
  cases hblock : n.childFor? "block" with
  | none =>
      rw [hblock] at h
      cases h
      apply complete_of_kind
      · intro hkind
        have hcall := @callNode_kind source n receiver arguments
        rw [hkind] at hcall
        exact absurd hcall (by decide)
      · rw [expressions, hform, hblock]
        simp only [blockExpressions, List.append_nil]
        exact hcall
  | some block =>
      rw [hblock] at h
      obtain ⟨parameters, hparameters, h⟩ := bind_eq_ok.mp h
      obtain ⟨statements, hstatements, h⟩ := bind_eq_ok.mp h
      obtain ⟨kind, second, rfl, hkind, hsecond⟩ := of_blockNode h
      refine ⟨?_, ?_⟩
      · have hcontent := (yields_parameters hparameters).append (yields_convertAll hstatements)
        rw [expressions, hform, hblock]
        show Yields source (callParts n ++ blockExpressions (some block)) (Value.nestsAll [_, _, _])
        rw [Value.nestsAll, Value.nestsAll, Value.nestsAll, Value.nestsAll, List.append_nil,
          hsecond.nests_eq, nests_joinStatements, nests_callNode, ← nestsAll_callNode]
        exact hcall.append hcontent
      · intro i hi
        obtain ⟨hstart, hstop⟩ := start_stop_of_detect hi
        refine ⟨hform, by rw [Idiom.place, hstart, hstop]; rfl, ?_⟩
        obtain ⟨c, u, k, hc, hu, hint⟩ := exists_literal_of_detect hreceiver hi
        refine ⟨c, argumentParts n ++ blockExpressions (some block), u, k, ?_, hu, hint⟩
        rw [expressions, hform, hblock]
        simp [callParts, hc]

theorem exists_of_negativeLiteral? (h : negativeLiteral? source n = some v) :
    ∃ kind w, kind ∈ ["int", "float"] ∧ IsLiteral w ∧ v = n.build source kind [w] := by
  simp only [negativeLiteral?, Option.bind_eq_bind, Option.bind_eq_some_iff] at h
  obtain ⟨operator, _, operand, _, h⟩ := h
  rw [Option.ite_none_right_eq_some] at h
  obtain ⟨_, h⟩ := h
  split at h
  · exact ⟨_, _, by simp, isLiteral_negate _, (Option.some.inj h).symm⟩
  · exact ⟨_, _, by simp, isLiteral_negate _, (Option.some.inj h).symm⟩
  · exact absurd h (by simp)

theorem nests_cbase (extent : Option Span) :
    (Node.toValue { kind := "cbase", layout := { extent } }).nests = [] := by
  rw [Node.toValue, Value.nests_of_detect_eq_none ?_]
  · rfl
  · exact @detect_eq_none ⟨"cbase", [], { extent }⟩ (by simp)

/-- Whatever the form of a node is, its conversion is complete. -/
theorem complete_of_convert (h : convert source n = .ok v) : Complete source n v := by
  cases hform : n.form with
  | call => exact complete_call hform h
  | pair =>
      rw [convert_pair hform] at h
      obtain ⟨key, hkey, h⟩ := bind_eq_ok.mp h
      obtain ⟨value, hvalue, h⟩ := bind_eq_ok.mp h
      cases h
      refine complete_of_kind (by simp [ConcreteNode.build]) ?_
      have hboth := (yields_convertPart hkey).append (yields_convertPart hvalue)
      rw [expressions, hform]
      show Yields source _ (Value.nestsAll [_, _])
      rw [Value.nestsAll, Value.nestsAll, Value.nestsAll, List.append_nil]
      exact hboth
  | scope =>
      rw [convert, hform] at h
      simp only at h
      split at h
      · next c hscope =>
          obtain ⟨parent, hparent, h⟩ := bind_eq_ok.mp h
          cases h
          refine complete_of_kind (by simp [ConcreteNode.build]) ⟨[parent], ?_, rfl⟩
          rw [expressions, hform, hscope]
          show convertAll source [c] = _
          rw [convertAll, hparent, convertAll_nil]
          rfl
      · next hscope =>
          cases h
          refine complete_of_kind (by simp [ConcreteNode.build]) ⟨[], ?_, ?_⟩
          · rw [expressions, hform, hscope]
            exact convertAll_nil
          · rw [ConcreteNode.build, Value.nestsAll, nests_cbase]
            rfl
  | statements =>
      rw [convert, hform] at h
      obtain ⟨vs, hvs, h⟩ := bind_eq_ok.mp h
      cases h
      exact complete_parts (by rw [expressions, hform]) hvs
  | string =>
      rw [convert, hform] at h
      simp only at h
      split at h
      · next hplain =>
          cases h
          exact complete_leaf (by rw [expressions, hform, hplain]; rfl)
            (List.forall_mem_singleton.mpr (.text _))
      · next hplain =>
          obtain ⟨vs, hvs, h⟩ := bind_eq_ok.mp h
          cases h
          exact complete_parts (by rw [expressions, hform, hplain]; rfl) hvs
  | unary =>
      rw [convert, hform] at h
      simp only at h
      split at h
      · next hliteral =>
          cases h
          obtain ⟨kind, w, _, hw, rfl⟩ := exists_of_negativeLiteral? hliteral
          exact complete_leaf (by rw [expressions, hform, hliteral]; rfl) (List.forall_mem_singleton.mpr hw)
      · next hother => exact complete_convertOther (by rw [expressions, hform, hother]; rfl) h
  | other =>
      rw [convert, hform] at h
      exact complete_convertOther (by rw [expressions, hform]) h
  | identifier =>
      rw [convert, hform] at h
      cases h
      rw [nameNode]
      split
      · exact complete_leaf (by rw [expressions, hform]) (List.forall_mem_singleton.mpr (.text _))
      · exact complete_leaf (by rw [expressions, hform]) (by simp [IsLiteral.text, IsLiteral.nil])
  | integer =>
      rw [convert, hform] at h
      cases h
      exact complete_leaf (by rw [expressions, hform])
        (List.forall_mem_singleton.mpr (isLiteral_integerValue _))
  | float =>
      rw [convert, hform] at h
      cases h
      exact complete_leaf (by rw [expressions, hform])
        (List.forall_mem_singleton.mpr (isLiteral_floatLiteral _))
  | constant =>
      rw [convert, hform] at h
      cases h
      exact complete_leaf (by rw [expressions, hform]) (by simp [IsLiteral.text, IsLiteral.nil])
  | keyword =>
      rw [convert, hform] at h
      cases h
      exact complete_leaf (by rw [expressions, hform]) (by simp)
  | symbol | key | variableOf _ =>
      rw [convert, hform] at h
      cases h
      exact complete_leaf (by rw [expressions, hform]) (List.forall_mem_singleton.mpr (.text _))

/-! ## What is detected -/

/-- The block that is detected in the conversion of a node by itself. -/
def idiomAt? (source : List UInt8) (n : ConcreteNode) : Option Idiom :=
  (convert source n).toOption.bind fun v => detect v.toValue

theorem idiomAt?_of_convert (h : convert source n = .ok v) : idiomAt? source n = detect v.toValue := by
  rw [idiomAt?, h]
  rfl

/-- The blocks of a tree are the one that it is, if it is one, and those below. -/
theorem idiomsAll_nests_eq (v : Node) :
    Nest.idiomsAll v.toValue.nests =
      (detect v.toValue).toList ++ Nest.idiomsAll (Value.nestsAll v.children) := by
  cases hdetect : detect v.toValue with
  | none =>
      rw [Node.toValue, Value.nests_of_detect_eq_none hdetect]
      rfl
  | some i =>
      rw [Node.toValue, Value.nests_of_detect hdetect]
      simp [Nest.idiomsAll, Nest.idioms]

theorem idiomsAll_of_forall₂ {ns : List ConcreteNode} {vs : List Node}
    (h : List.Forall₂ (fun m u => Nest.idiomsAll u.toValue.nests =
      (standing source m).filterMap (idiomAt? source)) ns vs) :
    Nest.idiomsAll (Value.nestsAll (vs.map Node.toValue)) =
      (ns.flatMap (standing source)).filterMap (idiomAt? source) := by
  induction h with
  | nil => rfl
  | cons hu _ ih =>
      rw [List.map_cons, Value.nestsAll, Nest.idiomsAll_append, hu, ih, List.flatMap_cons,
        List.filterMap_append]

/-- What is detected in a converted tree are, in order, the blocks that are detected in the conversions of
the nodes in expression positions. -/
theorem idiomsAll_of_convert (n : ConcreteNode) : ∀ {v : Node}, convert source n = .ok v →
    Nest.idiomsAll v.toValue.nests = (standing source n).filterMap (idiomAt? source) := by
  induction n using standing.induct source with
  | case1 n ih =>
      intro v h
      obtain ⟨vs, hvs, hbelow⟩ := (complete_of_convert h).below
      have hexpressions := (List.forall₂_and_left (expressions source n) vs).mpr
        ⟨fun e he => he, forall₂_of_convertAll hvs⟩
      have hstanding := idiomsAll_of_forall₂ (hexpressions.imp fun e u he => ih ⟨e, he.1⟩ he.2)
      rw [idiomsAll_nests_eq, ← hbelow, hstanding, standing_eq, List.filterMap_cons,
        idiomAt?_of_convert h]
      cases detect v.toValue <;> rfl

/-! ## Relations between detected blocks -/

/-- Blocks in nodes beside each other are related if blocks that lie apart are, and if those in each of the
nodes are. -/
theorem pairwise_of_forall₂ {r : Idiom → Idiom → Prop}
    (hapart : ∀ {i j : Idiom}, j.start < j.stop → i.Apart j → r i j)
    {ns : List ConcreteNode} {vs : List Node}
    (h : List.Forall₂ (fun e u => Sound cs e u ∧ (Nest.idiomsAll u.toValue.nests).Pairwise r) ns vs)
    (hbeside : ns.Pairwise Beside) :
    (Nest.idiomsAll (Value.nestsAll (vs.map Node.toValue))).Pairwise r := by
  induction h with
  | nil => exact List.Pairwise.nil
  | @cons e u ns vs hu hrest ih =>
      obtain ⟨hfirst, hbeside⟩ := List.pairwise_cons.mp hbeside
      have hsound := soundAll_of_forall₂ hrest (fun _ _ _ hw => hw.1) hbeside
      rw [List.map_cons, Value.nestsAll, Nest.idiomsAll_append]
      refine List.pairwise_append.mpr ⟨hu.2, ih hbeside, ?_⟩
      intro i hi j hj
      obtain ⟨m, hm, hj⟩ := hsound.spread.inside j hj
      have hem := hfirst m hm
      obtain ⟨hi₁, _, hi₂, _⟩ := hu.1.settled.inside i hi
      obtain ⟨hj₁, hnonempty, hj₂, _⟩ := hj
      refine hapart hnonempty ?_
      unfold Beside at hem
      unfold Idiom.Apart
      omega

theorem sound_expression (hn : n.WellFormed cs) (hfit : n.IntegersFit source)
    (he : e ∈ expressions source n) {u : Node} (hu : convert source e = .ok u) : Sound cs e u := by
  have hbelow := below_of_inner (inner_expressions he) hn hfit
  exact sound_of_convert hbelow.wellFormed hbelow.integersFit hu

/-- All blocks that are detected in a converted tree are related, each one to those after it, if blocks that
lie apart are and if each block is related to those inside it. -/
theorem pairwise_of_convert {r : Idiom → Idiom → Prop}
    (hapart : ∀ {i j : Idiom}, j.start < j.stop → i.Apart j → r i j) (n : ConcreteNode) :
    n.WellFormed cs → n.IntegersFit source →
      (∀ m ∈ standing source n, ∀ {u : Node} {i j : Idiom}, convert source m = .ok u →
        detect u.toValue = some i → j ∈ Nest.idiomsAll (Value.nestsAll u.children) → r i j) →
      ∀ {v : Node}, convert source n = .ok v → (Nest.idiomsAll v.toValue.nests).Pairwise r := by
  induction n using standing.induct source with
  | case1 n ih =>
      intro hn hfit hinside v h
      obtain ⟨vs, hvs, hbelow⟩ := (complete_of_convert h).below
      rw [standing_eq] at hinside
      rw [idiomsAll_nests_eq]
      refine List.pairwise_append.mpr ⟨?_, ?_, ?_⟩
      · cases detect v.toValue with
        | none => exact List.Pairwise.nil
        | some i => exact List.pairwise_singleton _ _
      · have hexpressions := (List.forall₂_and_left (expressions source n) vs).mpr
          ⟨fun e he => he, forall₂_of_convertAll hvs⟩
        have heach : List.Forall₂ (fun e u => Sound cs e u ∧ (Nest.idiomsAll u.toValue.nests).Pairwise r)
            (expressions source n) vs := by
          refine hexpressions.imp ?_
          intro e u ⟨he, hu⟩
          have hinner := inner_expressions he
          refine ⟨sound_expression hn hfit he hu, ih ⟨e, he⟩ (hn.of_inner hinner) (hfit.of_inner hinner) ?_ hu⟩
          intro m hm
          exact hinside m (List.mem_cons_of_mem n (List.mem_flatMap.mpr ⟨e, he, hm⟩))
        rw [← hbelow]
        exact pairwise_of_forall₂ hapart heach (beside_expressions hn)
      · intro i hi j hj
        exact hinside n List.mem_cons_self h (Option.mem_toList.mp hi) hj

end IdiomLint.Ruby
