import IdiomLint.Proofs.Number.Decimal
import IdiomLint.Proofs.Ruby.Settling

/-!
# Conversions are sound

Every shape that a conversion can give keeps `Sound`, as the parts that go into a syntax node come from
concrete nodes beside each other (`sound_of_shape`). Main statement: what a well-formed tree is converted
to is sound (`sound_of_convert`).
-/

namespace IdiomLint.Ruby

open ConcreteNode (Beside Within WellFormed IntegersFit)

variable {cs : List Char} {source : List UInt8} {n : ConcreteNode}

/-! ## Implicit parameters -/

theorem parameterNumber_le (name : String) : parameterNumber name ≤ 9 := by
  unfold parameterNumber
  split
  · next c _ =>
      split
      · next hdigit =>
          have hle : c.toNat ≤ '9'.toNat := by
            rw [Char.isDigit, Bool.and_eq_true, decide_eq_true_eq, decide_eq_true_eq] at hdigit
            exact hdigit.2
          have hzero : '0'.toNat = 48 := rfl
          have hnine : '9'.toNat = 57 := rfl
          omega
      · exact Nat.zero_le _
  · exact Nat.zero_le _

theorem numberRead_le {v : Node} {k : Nat} (h : numberRead v = .ok k) : k ≤ 9 := by
  rw [numberRead] at h
  split at h
  · split at h
    · exact absurd h (by simp)
    · cases h
      exact parameterNumber_le _
    · exact absurd h (by simp)
  · cases h
    exact Nat.zero_le _

/-- A search never finds a higher number than 9. -/
theorem searchFrom_le {highest : Nat} {usesIt : Bool} {stack : List Node} {found : Nat × Bool}
    (hhighest : highest ≤ 9) (h : searchFrom highest usesIt stack = .ok found) : found.1 ≤ 9 := by
  induction highest, usesIt, stack using searchFrom.induct with
  | case1 highest usesIt =>
      rw [searchFrom] at h
      cases h
      exact hhighest
  | case2 highest usesIt v stack hkind e he =>
      rw [searchFrom, if_pos hkind] at h
      split at h
      · exact absurd h (by simp)
      · next below hbelow =>
          rw [hbelow] at he
          exact absurd he (by simp)
  | case3 highest usesIt v stack hkind below hbelow _ ih =>
      rw [searchFrom, if_pos hkind] at h
      split at h
      · exact absurd h (by simp)
      · next below' hbelow' =>
          obtain rfl := Except.ok.inj (hbelow.symm.trans hbelow')
          exact ih hhighest h
  | case4 highest usesIt v stack hkind e he =>
      rw [searchFrom, if_neg hkind, he] at h
      exact absurd h (by simp)
  | case5 highest usesIt v stack hkind k hk e he =>
      rw [searchFrom, if_neg hkind, hk] at h
      simp only at h
      split at h
      · exact absurd h (by simp)
      · next below hbelow =>
          rw [hbelow] at he
          exact absurd he (by simp)
  | case6 highest usesIt v stack hkind k hk below hbelow _ ih =>
      rw [searchFrom, if_neg hkind, hk] at h
      simp only at h
      split at h
      · exact absurd h (by simp)
      · next below' hbelow' =>
          obtain rfl := Except.ok.inj (hbelow.symm.trans hbelow')
          exact ih (Nat.max_le.mpr ⟨hhighest, numberRead_le hk⟩) h

theorem implicitParameter_le {body : Option Node} {k : Nat}
    (h : implicitParameter body = .ok (some (.numbered k))) : k ≤ 9 := by
  obtain ⟨found, hfound, h⟩ := bind_eq_ok.mp h
  have hle := searchFrom_le (Nat.zero_le 9) hfound
  simp only [Except.ok.injEq] at h
  split at h
  · cases h
    exact hle
  · split at h <;> exact absurd h (by simp)

/-! ## Calls -/

/-- A call without its block is a plain call or one with safe navigation. -/
theorem callNode_kind (receiver : Option Node) (arguments : List Node) :
    (callNode source n receiver arguments).kind ∈ ["send", "csend"] := by
  unfold callNode
  simp only
  split
  · split <;> simp
  · simp

theorem callNode_children (receiver : Option Node) (arguments : List Node) :
    ∃ method, (callNode source n receiver arguments).children =
      valueOf receiver :: .text method :: (gatherPairs source [] arguments).map Node.toValue :=
  ⟨_, rfl⟩

theorem nestsAll_callNode (receiver : Option Node) (arguments : List Node) :
    Value.nestsAll (callNode source n receiver arguments).children =
      Value.nestsAll (receiver.toList.map Node.toValue) ++
        Value.nestsAll (arguments.map Node.toValue) := by
  obtain ⟨method, hchildren⟩ := @callNode_children source n receiver arguments
  rw [hchildren, Value.nestsAll, Value.nestsAll, nests_valueOf, nestsAll_gatherPairs]
  rfl

theorem nests_callNode (receiver : Option Node) (arguments : List Node) :
    (callNode source n receiver arguments).toValue.nests =
      Value.nestsAll (receiver.toList.map Node.toValue) ++
        Value.nestsAll (arguments.map Node.toValue) := by
  have hkind := @callNode_kind source n receiver arguments
  rw [← @nestsAll_callNode source n]
  refine Value.nests_of_detect_eq_none (detect_eq_none ?_)
  intro hblock
  rw [hblock] at hkind
  exact absurd hkind (by decide)

theorem fits_callNode {receiver : Option Node} {arguments : List Node}
    (hreceiver : ∀ v ∈ receiver.toList, v.toValue.Fits) (harguments : ∀ v ∈ arguments, v.toValue.Fits) :
    (callNode source n receiver arguments).toValue.Fits := by
  obtain ⟨method, hchildren⟩ := @callNode_children source n receiver arguments
  have hgathered := @fits_gatherPairs source arguments [] harguments
  rw [Node.toValue, hchildren]
  refine ⟨?_, fits_valueOf hreceiver, trivial, ?_⟩
  · intro _ argument hargument
    obtain ⟨v, _, rfl⟩ := List.mem_map.mp hargument
    rfl
  · rw [Value.fitsAll_iff]
    intro argument hargument
    obtain ⟨v, hv, rfl⟩ := List.mem_map.mp hargument
    exact hgathered v hv

/-- The parts of a call without its block: the receiver and the arguments. -/
def callParts (n : ConcreteNode) : List ConcreteNode :=
  (n.childFor? "receiver").toList ++ argumentParts n

/-- The receiver of a call lies beside its arguments. -/
theorem beside_receiver (hn : n.WellFormed cs) {r m : ConcreteNode} (hr : n.childFor? "receiver" = some r)
    (hm : m ∈ argumentParts n) : Beside r m := by
  rw [argumentParts] at hm
  split at hm
  · next a ha =>
      have hbeside := hn.beside_childFor? (by decide) hr ha
      have hwf := (hn.of_child (ConcreteNode.childFor?_eq_some ha).1).1
      exact hbeside.of_within Within.rfl (hwf.of_child (a.parts_sublist.subset hm)).2
  · exact absurd hm List.not_mem_nil

/-- The detected blocks of a call without its block. -/
theorem over_callNode (hn : n.WellFormed cs) {receiver : Option Node} {arguments : List Node}
    (hreceiver : SoundAll cs (n.childFor? "receiver").toList receiver.toList)
    (harguments : SoundAll cs (argumentParts n) arguments) :
    Over cs (callParts n) (callNode source n receiver arguments).toValue.nests := by
  rw [nests_callNode]
  exact hreceiver.spread.append harguments.spread fun r hr m hm =>
    beside_receiver hn (Option.mem_toList.mp hr) hm

/-! ## Blocks -/

/-- The node of the parameters of a block. -/
def argsNode (source : List UInt8) : Option (ConcreteNode × List Node) → Node
  | some (written, ps) => written.build source "args" (ps.map Node.toValue)
  | none => { kind := "args" }

theorem nests_argsNode (parameters : Option (ConcreteNode × List Node)) :
    (argsNode source parameters).toValue.nests =
      Value.nestsAll (argsNode source parameters).children := by
  refine Value.nests_of_detect_eq_none (detect_eq_none ?_)
  cases parameters <;> exact (by decide : "args" ≠ "block")

/-- What stands for the parameters of a block: those written, or an implicit one if none are. The kind of the
block says which. -/
inductive IsParameters (written : Node) : String → Value → Prop
  | written : IsParameters written "block" written.toValue
  | it : written.children = [] → IsParameters written "itblock" (.text "it")
  | numbered {k : Nat} : written.children = [] → k ≤ 9 → IsParameters written "numblock" (.int k)

/-- A block has a call, parameters and a body. -/
theorem of_blockNode {call v : Node} {parameters : Option (ConcreteNode × List Node)}
    {body : Option Node} (h : blockNode source n call parameters body = .ok v) :
    ∃ kind second, v = n.build source kind [call.toValue, second, valueOf body] ∧
      kind ∈ ["block", "numblock", "itblock"] ∧ IsParameters (argsNode source parameters) kind second := by
  unfold blockNode at h
  change (if (argsNode source parameters).children.isEmpty then _ else _) = _ at h
  split at h
  · next hempty =>
      have hempty := List.isEmpty_iff.mp hempty
      obtain ⟨implicit, himplicit, h⟩ := bind_eq_ok.mp h
      cases implicit with
      | none =>
          cases h
          exact ⟨_, _, rfl, by simp, .written⟩
      | some parameter =>
          cases parameter with
          | it =>
              cases h
              exact ⟨_, _, rfl, by simp, .it hempty⟩
          | numbered k =>
              cases h
              exact ⟨_, _, rfl, by simp, .numbered hempty (implicitParameter_le himplicit)⟩
  · cases h
    exact ⟨_, _, rfl, by simp, .written⟩

theorem IsParameters.nests_eq {parameters : Option (ConcreteNode × List Node)} {kind : String}
    {second : Value} (h : IsParameters (argsNode source parameters) kind second) :
    second.nests = (argsNode source parameters).toValue.nests := by
  have hnone : (argsNode source parameters).children = [] →
      (argsNode source parameters).toValue.nests = [] := by
    intro hempty
    rw [nests_argsNode, hempty]
    rfl
  cases h with
  | written => rfl
  | it hempty => exact (hnone hempty).symm
  | numbered hempty _ => exact (hnone hempty).symm

theorem IsParameters.fits {written : Node} {kind : String} {second : Value}
    (h : IsParameters written kind second) (hwritten : written.toValue.Fits) : second.Fits := by
  cases h with
  | written => exact hwritten
  | it _ => trivial
  | numbered _ hk =>
      -- The number of an implicit parameter is one digit.
      exact Integer.lt_limit_of_lt_ten (Nat.lt_succ_of_le hk)

/-- The written parameters of a block, with what they became. -/
def ParametersSound (cs : List Char) (block : ConcreteNode) :
    Option (ConcreteNode × List Node) → Prop
  | some (written, ps) => blockParameters? block = some written ∧ SoundAll cs written.parts ps
  | none => True

theorem fits_argsNode {block : ConcreteNode} {parameters : Option (ConcreteNode × List Node)}
    (h : ParametersSound cs block parameters) : (argsNode source parameters).toValue.Fits := by
  cases parameters with
  | none => exact ⟨fun hsend => absurd hsend (by simp [argsNode]), trivial⟩
  | some found =>
      obtain ⟨_, hps⟩ := h
      refine ⟨fun hsend => absurd hsend (by simp [argsNode, ConcreteNode.build]),
        Value.fitsAll_iff.mpr ?_⟩
      intro v hv
      obtain ⟨p, hp, rfl⟩ := List.mem_map.mp hv
      exact hps.fits p hp

theorem statement_within {block s : ConcreteNode} (hblock : block.WellFormed cs)
    (hs : s ∈ blockStatements block) : Within s block := by
  obtain ⟨p, hp, _, hs⟩ := ConcreteNode.mem_blockStatements hs
  obtain ⟨hwf, hwithin⟩ := hblock.of_child (block.parts_sublist.subset hp)
  exact (ConcreteNode.statementsOf_within hwf hs).2.trans hwithin

/-- The written parameters of a block are no statements, so these lie in another part. -/
theorem beside_statement {block written s : ConcreteNode} (hblock : block.WellFormed cs)
    (hwritten : blockParameters? block = some written) (hs : s ∈ blockStatements block) :
    Beside written s := by
  obtain ⟨hmem, hkind⟩ := ConcreteNode.mem_blockParameters? hwritten
  obtain ⟨p, hp, hother, hs⟩ := ConcreteNode.mem_blockStatements hs
  have hne : written ≠ p := fun h => hother (h ▸ hkind)
  have hbeside := hblock.beside.forall (block.parts_sublist.subset hmem)
    (block.parts_sublist.subset hp) hne
  have hwf := (hblock.of_child (block.parts_sublist.subset hp)).1
  exact hbeside.of_within Within.rfl (ConcreteNode.statementsOf_within hwf hs).2

/-- The detected blocks inside a block: those of its parameters and those of its statements. -/
theorem over_block {block : ConcreteNode} (hblock : block.WellFormed cs)
    {parameters : Option (ConcreteNode × List Node)} {statements : List Node}
    (hparameters : ParametersSound cs block parameters)
    (hstatements : SoundAll cs (blockStatements block) statements) :
    Over cs [block] ((argsNode source parameters).toValue.nests ++
      (valueOf (joinStatements source statements)).nests) := by
  rw [nests_argsNode, nests_joinStatements]
  apply Over.of_settled
  cases parameters with
  | none => exact hstatements.spread.settled fun s hs => statement_within hblock hs
  | some found =>
      obtain ⟨written, ps⟩ := found
      obtain ⟨hwritten, hps⟩ := hparameters
      obtain ⟨hmem, _⟩ := ConcreteNode.mem_blockParameters? hwritten
      obtain ⟨hwf, hwithin⟩ := hblock.of_child (block.parts_sublist.subset hmem)
      have hps := hps.spread.settled fun m hm => (hwf.of_child (written.parts_sublist.subset hm)).2
      have hboth := (Over.of_settled hps).append hstatements.spread ?_
      · apply hboth.settled
        intro m hm
        rcases List.mem_append.mp hm with hm | hm
        · rw [List.mem_singleton.mp hm]
          exact hwithin
        · exact statement_within hblock hm
      · intro m hm s hs
        rw [List.mem_singleton.mp hm]
        exact beside_statement hblock hwritten hs

theorem callParts_within (hn : n.WellFormed cs) {m : ConcreteNode} (hm : m ∈ callParts n) :
    Within m n ∧ ∃ c field, field ≠ "block" ∧ n.childFor? field = some c ∧ Within m c := by
  rcases List.mem_append.mp hm with hm | hm
  · have hm : n.childFor? "receiver" = some m := Option.mem_toList.mp hm
    exact ⟨(hn.of_child (ConcreteNode.childFor?_eq_some hm).1).2, m, _, by decide, hm, Within.rfl⟩
  · rw [argumentParts] at hm
    split at hm
    · next a ha =>
        obtain ⟨hwf, hwithin⟩ := hn.of_child (ConcreteNode.childFor?_eq_some ha).1
        have hma := (hwf.of_child (a.parts_sublist.subset hm)).2
        exact ⟨hma.trans hwithin, a, _, by decide, ha, hma⟩
    · exact absurd hm List.not_mem_nil

/-- A call on an integer literal takes up at least the literal. -/
theorem start_lt_stop_of_callNode {receiver : Option Node} {arguments : List Node}
    (hint : ∀ v ∈ receiver, ∀ k, v.kind = "int" → v.children = [.int k] → n.start < n.stop)
    {kind : String} {k : Int} {rest : List Value} {place layout : Layout}
    (h : (callNode source n receiver arguments).toValue =
      .node kind (.node "int" [.int k] place :: rest) layout) : n.start < n.stop := by
  obtain ⟨method, hchildren⟩ := @callNode_children source n receiver arguments
  rw [Node.toValue, hchildren] at h
  injection h with _ h _
  injection h with h _
  cases receiver with
  | none => exact absurd h (by simp [valueOf])
  | some v =>
      injection h with hkind hvalue _
      exact hint v rfl k hkind hvalue

/-- What is detected in a call with a block is the call with the block itself or lies inside it. -/
theorem sound_block (hn : n.WellFormed cs) {block : ConcreteNode} {receiver : Option Node}
    {arguments : List Node} {kind : String} {second third : Value}
    (hreceiver : SoundAll cs (n.childFor? "receiver").toList receiver.toList)
    (hint : ∀ v ∈ receiver, ∀ k, v.kind = "int" → v.children = [.int k] → n.start < n.stop)
    (harguments : SoundAll cs (argumentParts n) arguments)
    (hblock : n.childFor? "block" = some block) (hkind : kind ∈ ["block", "numblock", "itblock"])
    (hcontent : Over cs [block] (second.nests ++ third.nests)) (hsecond : second.Fits)
    (hthird : third.Fits) :
    Sound cs n (n.build source kind
      [(callNode source n receiver arguments).toValue, second, third]) := by
  set call := callNode source n receiver arguments with hcall
  -- What is in the call lies beside what is in the block.
  have hover : Over cs (callParts n ++ [block]) (Value.nestsAll [call.toValue, second, third]) := by
    have hcalls := @over_callNode cs source n hn _ _ hreceiver harguments
    rw [Value.nestsAll, Value.nestsAll, Value.nestsAll, Value.nestsAll, List.append_nil]
    apply hcalls.append hcontent
    intro m hm b hb
    rw [List.mem_singleton.mp hb]
    obtain ⟨_, c, field, hfield, hc, hmc⟩ := callParts_within hn hm
    exact (hn.beside_childFor? hfield hc hblock).of_within hmc Within.rfl
  have hsettled : Settled cs n.start n.stop (Value.nestsAll [call.toValue, second, third]) := by
    apply hover.settled
    intro m hm
    rcases List.mem_append.mp hm with hm | hm
    · exact (callParts_within hn hm).1
    · rw [List.mem_singleton.mp hm]
      exact (hn.of_child (ConcreteNode.childFor?_eq_some hblock).1).2
  have hnot : kind ≠ "send" ∧ kind ≠ "args" ∧ kind ≠ "int" := by
    rcases List.mem_cons.mp hkind with rfl | hkind
    · decide
    · rcases List.mem_pair.mp hkind with rfl | rfl <;> decide
  refine ⟨?_, ⟨?_, ?_⟩, ?_, ?_⟩
  · cases hdetect : detect (n.build source kind [call.toValue, second, third]).toValue with
    | none =>
        rw [Node.toValue, Value.nests_of_detect_eq_none hdetect]
        exact hsettled
    | some i =>
        -- The block repeats a call on an integer literal, so the concrete node is not empty.
        obtain ⟨hvalue, hform⟩ := detected_of_detect hdetect
        injection hvalue with _ hchildren _
        rw [hform] at hchildren
        injection hchildren with hcallee _
        exact settled_detected hn hdetect hsettled (start_lt_stop_of_callNode hint hcallee)
  · exact fun hsend => absurd hsend hnot.1
  · exact ⟨fits_callNode hreceiver.fits harguments.fits, hsecond, hthird, trivial⟩
  · exact fun hargs => absurd hargs hnot.2.1
  · exact fun k hkindInt => absurd hkindInt hnot.2.2

/-! ## All shapes -/

theorem settled_nil {low high : Nat} : Settled cs low high [] :=
  ⟨by simp [Nest.idiomsAll], by simp, List.Pairwise.nil⟩

/-- A node of literals holds no block. -/
theorem sound_leaf (hn : n.WellFormed cs) (hfit : n.IntegersFit source) {kind : String}
    {values : List Value} (hliteral : ∀ v ∈ values, IsLiteral v) (hlength : values.length ≤ 2)
    (hargs : kind = "args" → values ≠ []) (hint : ∀ k, .int k ∈ values → LiteralIn source n k) :
    Sound cs n (n.build source kind values) := by
  refine sound_node ?_ ?_ ?_ ?_ hargs ?_
  · rw [nestsAll_of_isLiteral hliteral]
    exact settled_nil
  · intro v hv
    cases hliteral v hv with
    | int k => exact (hint k hv).fits hfit
    | nil | bool _ | float _ | text _ => trivial
  · rw [List.drop_eq_nil_of_le hlength]
    simp
  · rintro - call place rest rfl
    exact nomatch hliteral (.node "args" [] place) (by simp)
  · rintro k - rfl
    exact (hint k (by simp)).start_lt_stop hn

theorem plain_of_parts {vs : List Node} (h : ∀ v ∈ vs, v.kind = "args" → v.children ≠ [])
    (call : Value) (place : Layout) (rest : List Value) :
    vs.map Node.toValue ≠ call :: .node "args" [] place :: rest := by
  intro hvalues
  have hmem : .node "args" [] place ∈ vs.map Node.toValue := by simp [hvalues]
  obtain ⟨v, hv, hvalue⟩ := List.mem_map.mp hmem
  injection hvalue with hkind hchildren _
  exact h v hv hkind hchildren

/-- A node over the nodes that its parts became. -/
theorem sound_parts {ns : List ConcreteNode} {kind : String} {vs : List Node} (h : SoundAll cs ns vs)
    (hns : ∀ m ∈ ns, Within m n) (hargs : kind = "args" → vs ≠ []) :
    Sound cs n (n.build source kind (vs.map Node.toValue)) := by
  refine sound_node (h.spread.settled hns) ?_ ?_ (fun _ => plain_of_parts h.parameters) ?_ ?_
  · intro value hvalue
    obtain ⟨v, hv, rfl⟩ := List.mem_map.mp hvalue
    exact h.fits v hv
  · intro _ argument hargument
    obtain ⟨v, _, rfl⟩ := List.mem_map.mp (List.mem_of_mem_drop hargument)
    rfl
  · intro hkind hempty
    exact hargs hkind (List.map_eq_nil_iff.mp hempty)
  · intro k _ hvalues
    cases vs with
    | nil => exact absurd hvalues (by simp)
    | cons v vs => exact absurd hvalues (by simp [Node.toValue])

/-- A pair holds what its key and its value hold. -/
theorem sound_pair (hn : n.WellFormed cs) {key value : Option Node}
    (hkey : SoundAll cs (n.childFor? "key").toList key.toList)
    (hvalue : SoundAll cs (n.childFor? "value").toList value.toList) :
    Sound cs n (n.build source "pair" [valueOf key, valueOf value]) := by
  have hboth := hkey.spread.append hvalue.spread fun a ha b hb =>
    hn.beside_childFor? (by decide) (Option.mem_toList.mp ha) (Option.mem_toList.mp hb)
  refine sound_node ?_ ?_ (by simp) (by simp) (by simp) (by simp)
  · rw [Value.nestsAll, Value.nestsAll, Value.nestsAll, List.append_nil, nests_valueOf, nests_valueOf]
    apply hboth.settled
    intro m hm
    rcases List.mem_append.mp hm with hm | hm
    · exact (hn.of_child (ConcreteNode.childFor?_eq_some (Option.mem_toList.mp hm)).1).2
    · exact (hn.of_child (ConcreteNode.childFor?_eq_some (Option.mem_toList.mp hm)).1).2
  · intro v hv
    rcases List.mem_pair.mp hv with rfl | rfl
    · exact fits_valueOf hkey.fits
    · exact fits_valueOf hvalue.fits

theorem beside_argumentParts (hn : n.WellFormed cs) : (argumentParts n).Pairwise Beside := by
  unfold argumentParts
  split
  · next a ha =>
      have hwf := (hn.of_child (ConcreteNode.childFor?_eq_some ha).1).1
      exact hwf.beside.sublist a.parts_sublist
  · exact List.Pairwise.nil

theorem sound_callNode (hn : n.WellFormed cs) {receiver : Option Node} {arguments : List Node}
    (hreceiver : SoundAll cs (n.childFor? "receiver").toList receiver.toList)
    (harguments : SoundAll cs (argumentParts n) arguments) :
    Sound cs n (callNode source n receiver arguments) := by
  have hkind := @callNode_kind source n receiver arguments
  have hnot : ∀ other ∈ ["args", "int"], (callNode source n receiver arguments).kind ≠ other := by
    intro other hother heq
    rw [heq] at hkind
    rcases List.mem_pair.mp hother with rfl | rfl <;> exact absurd hkind (by decide)
  refine ⟨?_, fits_callNode hreceiver.fits harguments.fits, ?_, ?_⟩
  · apply (over_callNode hn hreceiver harguments).settled
    intro m hm
    exact (callParts_within hn hm).1
  · exact fun hargs => absurd hargs (hnot _ (by simp))
  · exact fun k hint => absurd hint (hnot _ (by simp))

/-- The written parameters of a block are sound if all conversions of nodes below the block are. -/
theorem parametersSound_of_convert {block : ConcreteNode}
    {parameters : Option (ConcreteNode × List Node)}
    (h : convertParameterList source (blockParameters? block) = .ok parameters)
    (hblock : block.WellFormed cs) (hfit : block.IntegersFit source)
    (ih : ∀ m, Below cs source m block → ∀ u, Shape source m u → Sound cs m u) :
    ParametersSound cs block parameters := by
  cases hwritten : blockParameters? block with
  | none =>
      rw [hwritten] at h
      cases h
      trivial
  | some written =>
      rw [hwritten] at h
      obtain ⟨ps, hps, rfl⟩ := map_eq_ok.mp h
      obtain ⟨hmem, _⟩ := ConcreteNode.mem_blockParameters? hwritten
      have hbelow := below_child hblock hfit (block.parts_sublist.subset hmem)
      refine ⟨hwritten, soundAll_of_forall₂ (shape_of_convertParameters hps) ?_ ?_⟩
      · intro m hm
        exact ih m (hbelow.child (written.parts_sublist.subset hm))
      · exact hbelow.wellFormed.beside.sublist written.parts_sublist

/-- A node of any shape is sound if all conversions of the nodes below it are. -/
theorem sound_of_shape (hn : n.WellFormed cs) (hfit : n.IntegersFit source)
    (ih : ∀ m, Below cs source m n → ∀ u, Shape source m u → Sound cs m u) {v : Node}
    (hv : Shape source n v) : Sound cs n v := by
  have hchild : ∀ field, ∀ c ∈ n.childFor? field, ∀ u, Shape source c u → Sound cs c u :=
    fun field c hc => ih c (below_childFor? hn hfit hc)
  have hpart : ∀ m ∈ n.parts, Below cs source m n :=
    fun m hm => below_child hn hfit (n.parts_sublist.subset hm)
  have hall : ∀ {vs}, convertAll source (argumentParts n) = .ok vs → SoundAll cs (argumentParts n) vs := by
    intro vs hvs
    refine soundAll_of_convertAll hvs ?_ (beside_argumentParts hn)
    intro m hm
    exact ih m (below_argumentParts hn hfit hm)
  cases hv with
  | leaf hliteral hlength hargs hint => exact sound_leaf hn hfit hliteral hlength hargs hint
  | parts hvs _ hargs =>
      have hparts := soundAll_of_convertAll hvs (fun m hm => ih m (hpart m hm))
        (hn.beside.sublist n.parts_sublist)
      exact sound_parts hparts (fun m hm => (hpart m hm).within) hargs
  | @scope c parent name hscope hparent =>
      have hsound := hchild _ c hscope parent (shape_of_convert hparent)
      have hwithin := (below_childFor? hn hfit hscope).within
      refine sound_node ?_ ?_ (by simp) (by simp) (by simp) (by simp)
      · have hsettled := hsound.settled.mono hwithin.1 hwithin.2
        show Settled cs n.start n.stop (parent.toValue.nests ++ [])
        rw [List.append_nil]
        exact hsettled
      · intro w hw
        rcases List.mem_pair.mp hw with rfl | rfl
        · exact hsound.fits
        · trivial
  | @top name _ _ =>
      have hcbase : ∀ layout, detect (.node "cbase" [] layout) = none :=
        fun layout => @detect_eq_none ⟨"cbase", [], layout⟩ (by simp)
      refine sound_node ?_ ?_ (by simp) (by simp) (by simp) (by simp)
      · rw [Value.nestsAll, Value.nests_of_detect_eq_none (hcbase _)]
        exact settled_nil
      · intro w hw
        rcases List.mem_pair.mp hw with rfl | rfl
        · exact ⟨by simp, trivial⟩
        · trivial
  | pair hkey hvalue =>
      exact sound_pair hn (soundAll_of_convertPart hkey (hchild _))
        (soundAll_of_convertPart hvalue (hchild _))
  | call hreceiver hvs =>
      exact sound_callNode hn (soundAll_of_convertPart hreceiver (hchild _)) (hall hvs)
  | @block receiver arguments statements block parameters v hreceiver hvs hblock hparameters
      hstatements hv =>
      have hbelow := below_childFor? hn hfit hblock
      have hstatements : SoundAll cs (blockStatements block) statements := by
        refine soundAll_of_convertAll hstatements ?_ hbelow.wellFormed.beside_blockStatements
        intro s hs
        obtain ⟨p, hp, _, hs⟩ := ConcreteNode.mem_blockStatements hs
        exact ih s (below_statement (hbelow.child (block.parts_sublist.subset hp)) hs)
      have hparameters : ParametersSound cs block parameters :=
        parametersSound_of_convert hparameters hbelow.wellFormed hbelow.integersFit
          fun m hm => ih m (hm.trans hbelow)
      obtain ⟨kind, second, rfl, hkind, hsecond⟩ := of_blockNode hv
      have hover := @over_block cs source block hbelow.wellFormed parameters statements hparameters
        hstatements
      rw [← hsecond.nests_eq] at hover
      refine sound_block hn (soundAll_of_convertPart hreceiver (hchild _)) ?_ (hall hvs) hblock hkind
        hover (hsecond.fits (fits_argsNode hparameters)) (fits_joinStatements hstatements.fits)
      -- The receiver takes up at least the literal, and it lies inside the call.
      intro u hu k hkindInt hchildren
      obtain ⟨c, hc, hreceiver⟩ := exists_of_convertPart hreceiver hu
      have hsound := hchild _ c hc u (shape_of_convert hreceiver)
      have hlt := hsound.integer k hkindInt hchildren
      obtain ⟨hfirst, hlast⟩ := (below_childFor? hn hfit hc).within
      omega

/-- Whatever shape a node of a well-formed tree takes, it is sound. -/
theorem Shape.sound {v : Node} (hv : Shape source n v) (hn : n.WellFormed cs) (hfit : n.IntegersFit source) :
    Sound cs n v := by
  -- The induction is on a bound for the weight: the nodes below are not only the children.
  have hall : ∀ w, ∀ n : ConcreteNode, n.weight < w → n.WellFormed cs → n.IntegersFit source →
      ∀ v, Shape source n v → Sound cs n v := by
    intro w
    induction w with
    | zero => exact fun n hlt => absurd hlt (Nat.not_lt_zero _)
    | succ w ih =>
        intro n hlt hn hfit v hv
        refine sound_of_shape hn hfit ?_ hv
        intro m hm
        exact ih m (Nat.lt_of_lt_of_le hm.weight (Nat.le_of_lt_succ hlt)) hm.wellFormed hm.integersFit
  exact hall (n.weight + 1) n (Nat.lt_succ_self _) hn hfit v hv

/-- The conversion of a well-formed tree is sound. -/
theorem sound_of_convert (hn : n.WellFormed cs) (hfit : n.IntegersFit source) {v : Node}
    (h : convert source n = .ok v) : Sound cs n v := (shape_of_convert h).sound hn hfit

end IdiomLint.Ruby
