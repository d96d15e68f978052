import IdiomLint.Proofs.Ruby.Search
import IdiomLint.Proofs.Ruby.Soundness

/-!
# Trees that differ in inner blocks

`Alike` relates two trees of two sources that differ in nothing but the blocks of calls inside them. The
search for implicit parameters sees the same in what they are converted to (`converted_of_alike`): of a
call with a block it sees the operands, and these are alike.

The body of a lambda is a block, but not the block of a call. It is converted as any node without a form
of its own, and the search enters it.
-/

namespace IdiomLint.Ruby

/-! ## Trees that differ in inner blocks -/

namespace ConcreteNode

/-- Is the node a call with a block? -/
def hasBlock (n : ConcreteNode) : Bool := n.kind == "call" && (n.childFor? "block").isSome

/-- Is the node read by its text? Names and operators are, and so is whatever has no parts. -/
def isToken (n : ConcreteNode) : Bool :=
  n.parts.isEmpty || n.kind == "identifier" || n.field == some "method" || n.field == some "operator"

/-- Two nodes of two sources are of one kind and play one part, and tokens have one text. -/
structure SameHead (source source' : List UInt8) (n n' : ConcreteNode) : Prop where
  kind : n.kind = n'.kind
  named : n.named = n'.named
  field : n.field = n'.field
  text : n.isToken = true → n.text source = n'.text source'

end ConcreteNode

open ConcreteNode (SameHead)

/-- Two trees of two sources differ in nothing but the blocks of calls. -/
inductive Alike (source source' : List UInt8) : ConcreteNode → ConcreteNode → Prop
  /-- The children are alike. Of a block that comes from no call the search takes the first part for the
  call, so that part is to be no call with a block. -/
  | node {n n' : ConcreteNode} : SameHead source source' n n' →
      (isBlockKind n.kind = true → ∀ p ∈ n.parts.head?, p.hasBlock = false) →
      List.Forall₂ (Alike source source') n.children n'.children → Alike source source' n n'
  /-- Two calls with blocks are alike whatever the blocks hold. No call is an argument list. -/
  | call {n n' : ConcreteNode} : SameHead source source' n n' →
      n.hasBlock = true → n'.hasBlock = true → n.field ≠ some "arguments" →
      List.Forall₂ (Alike source source') (n.children.filter (·.field != some "block"))
        (n'.children.filter (·.field != some "block")) → Alike source source' n n'

variable {source source' : List UInt8} {n n' : ConcreteNode} {v v' : Node}

theorem Alike.head (h : Alike source source' n n') : SameHead source source' n n' := by
  cases h with
  | node hhead _ _ => exact hhead
  | call hhead _ _ _ _ => exact hhead

theorem Alike.form (h : Alike source source' n n') : n.form = n'.form := by
  rw [ConcreteNode.form, ConcreteNode.form, h.head.kind]

/-- Members that are found in the same way in related lists are related. -/
theorem rel_find? {α β : Type} {r : α → β → Prop} {p : α → Bool} {q : β → Bool} {xs : List α} {ys : List β}
    (hpq : ∀ x y, r x y → p x = q y) (h : List.Forall₂ r xs ys) :
    Option.Rel r (xs.find? p) (ys.find? q) := by
  induction h with
  | nil => exact .none
  | @cons x y xs ys hxy _ ih =>
      rw [List.find?_cons, List.find?_cons, ← hpq x y hxy]
      cases p x with
      | true => exact .some hxy
      | false => exact ih

theorem forall₂_filter {α β : Type} {r : α → β → Prop} {p : α → Bool} {q : β → Bool} {xs : List α}
    {ys : List β} (hpq : ∀ x y, r x y → p x = q y) (h : List.Forall₂ r xs ys) :
    List.Forall₂ r (xs.filter p) (ys.filter q) := by
  refine List.rel_filter (fun x y hxy => ?_) h
  show p x = true ↔ q y = true
  rw [hpq x y hxy]

theorem Alike.outside (h : Alike source source' n n') :
    List.Forall₂ (Alike source source') (n.children.filter (·.field != some "block"))
      (n'.children.filter (·.field != some "block")) := by
  cases h with
  | node _ _ hchildren =>
      refine forall₂_filter (fun c c' hc => ?_) hchildren
      rw [hc.head.field]
  | call _ _ _ _ hchildren => exact hchildren

theorem childFor?_filter {field : String} (hfield : field ≠ "block") (n : ConcreteNode) :
    (n.children.filter (·.field != some "block")).find? (·.field == some field) = n.childFor? field := by
  rw [List.find?_filter, ConcreteNode.childFor?]
  congr 1
  funext c
  by_cases hc : c.field = some field
  · rw [hc]
    simp [hfield]
  · simp [hc]

theorem Alike.childFor? (h : Alike source source' n n') {field : String} (hfield : field ≠ "block") :
    Option.Rel (Alike source source') (n.childFor? field) (n'.childFor? field) := by
  rw [← childFor?_filter hfield, ← childFor?_filter hfield]
  refine rel_find? (fun c c' hc => ?_) h.outside
  rw [hc.head.field]

/-- Nodes that are no calls with blocks have parts that are alike. -/
theorem Alike.parts (h : Alike source source' n n')
    (hnode : n.hasBlock = false ∨ n.field = some "arguments") :
    List.Forall₂ (Alike source source') n.parts n'.parts := by
  cases h with
  | node _ _ hchildren =>
      have hnamed := forall₂_filter (fun _ _ hc => hc.head.named) hchildren
      refine forall₂_filter (fun c c' hc => ?_) hnamed
      rw [ConcreteNode.isSilent, ConcreteNode.isSilent, hc.head.kind]
  | call _ hcall _ hfield _ =>
      rcases hnode with hnone | harguments
      · exact absurd (hcall.symm.trans hnone) (by decide)
      · exact absurd harguments hfield

theorem Alike.block (h : Alike source source' n n') :
    (n.childFor? "block").isSome = (n'.childFor? "block").isSome := by
  cases h with
  | node _ _ hchildren =>
      have hrel : Option.Rel (Alike source source') (n.childFor? "block") (n'.childFor? "block") := by
        refine rel_find? (fun c c' hc => ?_) hchildren
        rw [hc.head.field]
      generalize n.childFor? "block" = c at hrel
      generalize n'.childFor? "block" = c' at hrel
      cases hrel <;> rfl
  | call _ hcall hcall' _ _ =>
      rw [ConcreteNode.hasBlock, Bool.and_eq_true] at hcall hcall'
      exact hcall.2.trans hcall'.2.symm

/-! ## Nodes built from similar ones -/

/-- A kind of nodes that the search reads nothing in. -/
def isPlainKind (kind : String) : Bool := !isBlockKind kind && kind != "send" && kind != "lvar"

theorem sameRead_of_plain {kind : String} {children children' : List Value} {layout layout' : Layout}
    (hkind : isPlainKind kind = true) :
    SameRead ⟨kind, children, layout⟩ ⟨kind, children', layout'⟩ := by
  rw [isPlainKind, Bool.and_eq_true, Bool.and_eq_true, bne_iff_ne, bne_iff_ne] at hkind
  obtain ⟨⟨_, hsend⟩, hlvar⟩ := hkind
  refine ⟨rfl, fun _ => ?_, fun _ => ?_⟩
  · rw [numberRead, numberRead, if_neg (by simpa using hlvar), if_neg (by simpa using hlvar)]
  · rw [isItRead, isItRead, beq_eq_false_iff_ne.mpr hsend]
    rfl

theorem similar_of_plain {kind : String} {children children' : List Value} {layout layout' : Layout}
    (hkind : isPlainKind kind = true) (h : List.Forall₂ SimilarValue children children') :
    Similar ⟨kind, children, layout⟩ ⟨kind, children', layout'⟩ := by
  have hread := @sameRead_of_plain kind children children' layout layout' hkind
  rw [isPlainKind, Bool.and_eq_true, Bool.and_eq_true] at hkind
  exact similar_of_children (Bool.not_eq_true' _ ▸ hkind.1.1) hread h

theorem node?_of_isLiteral {w : Value} (h : IsLiteral w) : w.node? = none := by
  cases h <;> rfl

theorem similar_of_literals {values : List Value} : ∀ {values' : List Value},
    (∀ w ∈ values, IsLiteral w) → (∀ w ∈ values', IsLiteral w) → values.length = values'.length →
      List.Forall₂ SimilarValue values values' := by
  induction values with
  | nil =>
      intro values' _ _ hlength
      rw [List.length_eq_zero_iff.mp hlength.symm]
      exact .nil
  | cons w values ih =>
      intro values' h h' hlength
      cases values' with
      | nil => exact absurd hlength (by simp)
      | cons w' values' =>
          rw [List.forall_mem_cons] at h h'
          refine .cons ?_ (ih h.2 h'.2 (Nat.succ.inj hlength))
          rw [SimilarValue, node?_of_isLiteral h.1, node?_of_isLiteral h'.1]
          exact .none

/-- Nothing but nodes is no read of `it`. -/
theorem isItRead_of_nodes {kind : String} {layout : Layout} (vs : List Node) :
    isItRead ⟨kind, vs.map Node.toValue, layout⟩ = false := by
  rw [isItRead, Bool.and_eq_false_iff]
  right
  cases vs with
  | nil => rfl
  | cons v vs => rfl

theorem numberRead_of_nodes {kind : String} {layout layout' : Layout} {vs vs' : List Node}
    (h : List.Forall₂ Similar vs vs') :
    numberRead ⟨kind, vs.map Node.toValue, layout⟩ = numberRead ⟨kind, vs'.map Node.toValue, layout'⟩ := by
  unfold numberRead
  cases h <;> rfl

theorem similar_nodeOver {kind : String} (hkind : isPlainKind kind = true) {first first' : Node}
    {rest rest' : List Node} (h : List.Forall₂ Similar (first :: rest) (first' :: rest')) :
    Similar (nodeOver source kind first rest) (nodeOver source' kind first' rest') :=
  similar_of_plain hkind (similarValue_toValue h)

/-- Statements that are similar one by one are similar when they are joined. -/
theorem similar_joinStatements {vs vs' : List Node} (h : List.Forall₂ Similar vs vs') :
    Option.Rel Similar (joinStatements source vs) (joinStatements source' vs') := by
  cases h with
  | nil => exact .none
  | cons hv hrest =>
      cases hrest with
      | nil => exact .some hv
      | cons hw hrest => exact .some (similar_nodeOver (by decide) (.cons hv (.cons hw hrest)))

theorem similar_valueOf {w w' : Option Node} (h : Option.Rel Similar w w') :
    SimilarValue (valueOf w) (valueOf w') := by
  cases h with
  | none => exact .none
  | some h => exact .some h

/-! ## What alike nodes become -/

/-- What the conversions of alike nodes have in common. -/
structure Converted (n : ConcreteNode) (v v' : Node) : Prop where
  similar : Similar v v'
  pair : (v.kind == "pair") = (v'.kind == "pair")
  /-- The search may take the node for a call unless it is a block. -/
  operands : n.hasBlock = false → List.Forall₂ SimilarValue v.children v'.children

/-- What the conversions of alike nodes one after the other have in common. -/
inductive ConvertedAll : List ConcreteNode → List Node → List Node → Prop
  | nil : ConvertedAll [] [] []
  | cons {n : ConcreteNode} {ns : List ConcreteNode} {v v' : Node} {vs vs' : List Node} :
      Converted n v v' → ConvertedAll ns vs vs' → ConvertedAll (n :: ns) (v :: vs) (v' :: vs')

theorem ConvertedAll.similar {ns : List ConcreteNode} {vs vs' : List Node} (h : ConvertedAll ns vs vs') :
    List.Forall₂ Similar vs vs' := by
  induction h with
  | nil => exact .nil
  | cons hv _ ih => exact .cons hv.similar ih

theorem convertedAll_of_alike {ns ns' : List ConcreteNode}
    (h : List.Forall₂ (Alike source source') ns ns') : ∀ {vs vs' : List Node},
    (∀ m ∈ ns, ∀ m', Alike source source' m m' → ∀ u u', convert source m = .ok u →
      convert source' m' = .ok u' → Converted m u u') →
    convertAll source ns = .ok vs → convertAll source' ns' = .ok vs' → ConvertedAll ns vs vs' := by
  induction h with
  | nil =>
      intro vs vs' _ hvs hvs'
      rw [convertAll_nil] at hvs hvs'
      cases hvs
      cases hvs'
      exact .nil
  | @cons m m' ns ns' hm _ ih =>
      intro vs vs' hall hvs hvs'
      rw [List.forall_mem_cons] at hall
      rw [convertAll] at hvs hvs'
      obtain ⟨u, hu, hvs⟩ := bind_eq_ok.mp hvs
      obtain ⟨us, hus, hvs⟩ := bind_eq_ok.mp hvs
      obtain ⟨u', hu', hvs'⟩ := bind_eq_ok.mp hvs'
      obtain ⟨us', hus', hvs'⟩ := bind_eq_ok.mp hvs'
      cases hvs
      cases hvs'
      exact .cons (hall.1 m' hm u u' hu hu') (ih hall.2 hus hus')

theorem similar_of_convertPart {c c' : Option ConcreteNode} {w w' : Option Node}
    (h : Option.Rel (Alike source source') c c')
    (hall : ∀ m ∈ c, ∀ m', Alike source source' m m' → ∀ u u', convert source m = .ok u →
      convert source' m' = .ok u' → Converted m u u')
    (hw : convertPart source c = .ok w) (hw' : convertPart source' c' = .ok w') :
    Option.Rel Similar w w' := by
  cases h with
  | none =>
      cases hw
      cases hw'
      exact .none
  | @some m m' hm =>
      obtain ⟨u, hu, rfl⟩ := map_eq_ok.mp hw
      obtain ⟨u', hu', rfl⟩ := map_eq_ok.mp hw'
      exact .some (hall m rfl m' hm u u' hu hu').similar

theorem converted_of_plain {kind : String} {values values' : List Value}
    (hkind : isPlainKind kind = true) (h : List.Forall₂ SimilarValue values values') :
    Converted n (n.build source kind values) (n'.build source' kind values') :=
  ⟨similar_of_plain hkind h, rfl, fun _ => h⟩

/-- Nodes with literal values, of a kind that the search reads nothing in. -/
theorem converted_leaf {kind : String} {values values' : List Value} (hkind : isPlainKind kind = true)
    (h : ∀ w ∈ values, IsLiteral w) (h' : ∀ w ∈ values', IsLiteral w)
    (hlength : values.length = values'.length) :
    Converted n (n.build source kind values) (n'.build source' kind values') :=
  converted_of_plain hkind (similar_of_literals h h' hlength)

theorem converted_single {kind : String} {w w' : Value} (hkind : isPlainKind kind = true)
    (h : IsLiteral w) (h' : IsLiteral w') :
    Converted n (n.build source kind [w]) (n'.build source' kind [w']) :=
  converted_leaf hkind (List.forall_mem_singleton.mpr h) (List.forall_mem_singleton.mpr h') rfl

/-- Nodes over the conversions of their parts. -/
theorem converted_parts {ns : List ConcreteNode} {kind : String} {vs vs' : List Node}
    (h : ConvertedAll ns vs vs')
    (hfirst : isBlockKind kind = true → ∀ p ∈ ns.head?, p.hasBlock = false) :
    Converted n (n.build source kind (vs.map Node.toValue))
      (n'.build source' kind (vs'.map Node.toValue)) := by
  have hchildren := similarValue_toValue h.similar
  refine ⟨?_, rfl, fun _ => hchildren⟩
  cases hkind : isBlockKind kind with
  | false =>
      refine similar_of_children hkind ⟨rfl, fun _ => ?_, fun _ => ?_⟩ hchildren
      · exact numberRead_of_nodes h.similar
      · exact (isItRead_of_nodes vs).trans (isItRead_of_nodes vs').symm
  | true =>
      refine similar_of_blocks hkind hkind hchildren ?_
      intro c c' hc hc'
      cases h with
      | nil => exact absurd hc (by simp [ConcreteNode.build])
      | @cons m _ v v' _ _ hv _ =>
          obtain rfl : v = c := Option.some.inj (congrArg Value.node? (Option.some.inj hc))
          obtain rfl : v' = c' := Option.some.inj (congrArg Value.node? (Option.some.inj hc'))
          exact hv.operands (hfirst hkind m rfl)

/-! ## Calls -/

/-- Gathering pairs keeps similar nodes similar. -/
theorem similar_gatherPairs {ns : List ConcreteNode} {vs vs' : List Node} (h : ConvertedAll ns vs vs') :
    ∀ {pairs pairs' : List Node}, List.Forall₂ Similar pairs pairs' →
      List.Forall₂ Similar (gatherPairs source pairs vs) (gatherPairs source' pairs' vs') := by
  have hhash : isPlainKind "hash" = true := by decide
  induction h with
  | nil =>
      intro pairs pairs' hpairs
      have hreverse := List.rel_reverse hpairs
      rw [gatherPairs, gatherPairs]
      generalize pairs.reverse = ws at hreverse
      generalize pairs'.reverse = ws' at hreverse
      cases hreverse with
      | nil => exact .nil
      | cons hw hws => exact .cons (similar_nodeOver hhash (.cons hw hws)) .nil
  | @cons m ns v v' vs vs' hv _ ih =>
      intro pairs pairs' hpairs
      rw [gatherPairs, gatherPairs, ← hv.pair]
      cases hpair : v.kind == "pair" with
      | true => exact ih (.cons hv.similar hpairs)
      | false =>
          have hreverse := List.rel_reverse hpairs
          have hrest := ih .nil
          simp only [Bool.false_eq_true, if_false]
          generalize pairs.reverse = ws at hreverse
          generalize pairs'.reverse = ws' at hreverse
          cases hreverse with
          | nil => exact .cons hv.similar hrest
          | cons hw hws =>
              exact .cons (similar_nodeOver hhash (.cons hw hws)) (.cons hv.similar hrest)

/-- A child that plays the part of a method or an operator is read by its text. -/
theorem Alike.text_childFor? (h : Alike source source' n n') {field : String}
    (hfield : field = "method" ∨ field = "operator") :
    Option.Rel (fun c c' => c.text source = c'.text source') (n.childFor? field) (n'.childFor? field) := by
  have hrel := @Alike.childFor? source source' n n' h field (by rcases hfield with rfl | rfl <;> decide)
  generalize hc : n.childFor? field = c at hrel
  generalize hc' : n'.childFor? field = c' at hrel
  cases hrel with
  | none => exact .none
  | some hrel =>
      refine .some (hrel.head.text ?_)
      have hplayed := (ConcreteNode.childFor?_eq_some hc).2
      rw [ConcreteNode.isToken, hplayed]
      rcases hfield with rfl | rfl <;> simp

/-- The kind of the call that a node is. -/
def callKind (source : List UInt8) (n : ConcreteNode) : String :=
  match n.childFor? "operator" with
  | some operator => if operator.text source == "&." then "csend" else "send"
  | none => "send"

/-- The method of the call that a node is. -/
def callMethod (source : List UInt8) (n : ConcreteNode) : String :=
  match n.childFor? "method" with
  | some m => m.text source
  | none => "call"

theorem exists_callNode (source : List UInt8) (n : ConcreteNode) (receiver : Option Node)
    (arguments : List Node) : ∃ layout, layout.fixed = true ∧
      callNode source n receiver arguments = ⟨callKind source n, valueOf receiver ::
        .text (callMethod source n) :: (gatherPairs source [] arguments).map Node.toValue, layout⟩ :=
  ⟨_, rfl, rfl⟩

theorem Alike.callKind (h : Alike source source' n n') : callKind source n = callKind source' n' := by
  have hrel := h.text_childFor? (Or.inr rfl)
  unfold Ruby.callKind
  generalize n.childFor? "operator" = c at hrel
  generalize n'.childFor? "operator" = c' at hrel
  cases hrel with
  | none => rfl
  | some htext => simp only [htext]

theorem Alike.callMethod (h : Alike source source' n n') :
    callMethod source n = callMethod source' n' := by
  have hrel := h.text_childFor? (Or.inl rfl)
  unfold Ruby.callMethod
  generalize n.childFor? "method" = c at hrel
  generalize n'.childFor? "method" = c' at hrel
  cases hrel with
  | none => rfl
  | some htext => exact htext

/-- Whether a call reads `it` depends on its kind and method and on how many operands it has. -/
theorem isItRead_of_operands {kind method : String} {layout layout' : Layout} {receiver receiver' : Option Node}
    {arguments arguments' : List Node} (hlayout : layout.fixed = layout'.fixed)
    (hreceiver : Option.Rel Similar receiver receiver') (harguments : List.Forall₂ Similar arguments arguments') :
    isItRead ⟨kind, valueOf receiver :: .text method :: arguments.map Node.toValue, layout⟩ =
      isItRead ⟨kind, valueOf receiver' :: .text method :: arguments'.map Node.toValue, layout'⟩ := by
  unfold isItRead
  simp only [hlayout]
  cases hreceiver with
  | none => cases harguments <;> rfl
  | some _ => rfl

/-- Calls on similar receivers with similar arguments have similar operands. -/
theorem similar_operands {receiver receiver' : Option Node}
    {ns : List ConcreteNode} {arguments arguments' : List Node}
    (hreceiver : Option.Rel Similar receiver receiver') (harguments : ConvertedAll ns arguments arguments') :
    List.Forall₂ SimilarValue (callNode source n receiver arguments).children
      (callNode source' n' receiver' arguments').children := by
  obtain ⟨layout, _, hcall⟩ := exists_callNode source n receiver arguments
  obtain ⟨layout', _, hcall'⟩ := exists_callNode source' n' receiver' arguments'
  rw [hcall, hcall']
  have hgathered := @similar_gatherPairs source source' _ _ _ harguments _ _ .nil
  exact .cons (similar_valueOf hreceiver) (.cons .none (similarValue_toValue hgathered))

theorem converted_callNode (h : Alike source source' n n') {receiver receiver' : Option Node}
    {ns : List ConcreteNode} {arguments arguments' : List Node}
    (hreceiver : Option.Rel Similar receiver receiver') (harguments : ConvertedAll ns arguments arguments') :
    Converted n (callNode source n receiver arguments) (callNode source' n' receiver' arguments') := by
  have hchildren := @similar_operands source source' n n' _ _ _ _ _ hreceiver harguments
  obtain ⟨layout, hfixed, hcall⟩ := exists_callNode source n receiver arguments
  obtain ⟨layout', hfixed', hcall'⟩ := exists_callNode source' n' receiver' arguments'
  rw [← h.callKind, ← h.callMethod] at hcall'
  have hkind := @callNode_kind source n receiver arguments
  rw [hcall] at hkind hchildren ⊢
  rw [hcall'] at hchildren ⊢
  generalize callKind source n = kind at hkind hchildren ⊢
  have hgathered := @similar_gatherPairs source source' _ _ _ harguments _ _ .nil
  have hblock : isBlockKind kind = false := by
    rcases List.mem_pair.mp hkind with rfl | rfl <;> decide
  have hlvar : (kind == "lvar") = false := by
    rcases List.mem_pair.mp hkind with rfl | rfl <;> decide
  refine ⟨similar_of_children hblock ⟨rfl, fun _ => ?_, fun _ => ?_⟩ hchildren, rfl, fun _ => hchildren⟩
  · rw [numberRead, numberRead, hlvar]
    rfl
  · exact isItRead_of_operands (hfixed.trans hfixed'.symm) hreceiver hgathered

/-- Calls with blocks are alike for the search whatever their blocks hold. -/
theorem converted_block (hn : n.hasBlock = true) {call call' : Node}
    {parameters parameters' : Option (ConcreteNode × List Node)} {body body' : Option Node}
    (hoperands : List.Forall₂ SimilarValue call.children call'.children)
    (h : blockNode source n call parameters body = .ok v)
    (h' : blockNode source' n' call' parameters' body' = .ok v') : Converted n v v' := by
  have hkinds : ∀ kind ∈ ["block", "numblock", "itblock"], isBlockKind kind = true ∧
      (kind == "pair") = false := by decide
  obtain ⟨kind, second, rfl, hkind, _⟩ := of_blockNode h
  obtain ⟨kind', second', rfl, hkind', _⟩ := of_blockNode h'
  obtain ⟨hblock, hpair⟩ := hkinds kind hkind
  obtain ⟨hblock', hpair'⟩ := hkinds kind' hkind'
  refine ⟨similar_of_operands hblock hblock' rfl rfl hoperands, hpair.trans hpair'.symm, ?_⟩
  exact fun hnone => absurd (hn.symm.trans hnone) (by decide)

/-! ## Form by form -/

theorem isPlainKind_of_keyword (h : n.form = .keyword) : isPlainKind n.kind = true := by
  have htable : ∀ entry ∈ forms, entry.2 = .keyword → isPlainKind entry.1 = true := by decide
  exact htable _ (mem_forms_of_form h (by decide)) rfl

theorem isPlainKind_of_variable {kind : String} (h : n.form = .variableOf kind) :
    isPlainKind kind = true := by
  have htable : ∀ entry ∈ forms, (match entry.2 with
      | .variableOf kind => isPlainKind kind
      | _ => true) = true := by decide
  exact htable _ (mem_forms_of_form h (by simp))

theorem kind_of_form_identifier (h : n.form = .identifier) : n.kind = "identifier" := by
  have htable : ∀ entry ∈ forms, entry.2 = .identifier → entry.1 = "identifier" := by decide
  exact htable _ (mem_forms_of_form h (by decide)) rfl

/-- Tokens with one text are converted to nodes with one text. -/
theorem converted_same {kind : String} {values : List Value} (h : ∀ w ∈ values, IsLiteral w) :
    Converted n (n.build source kind values) (n'.build source' kind values) := by
  have hchildren := similar_of_literals h h rfl
  refine ⟨?_, rfl, fun _ => hchildren⟩
  cases hkind : isBlockKind kind with
  | false => exact similar_of_children hkind ⟨rfl, fun _ => rfl, fun _ => rfl⟩ hchildren
  | true =>
      refine similar_of_blocks hkind hkind hchildren ?_
      intro c c' hc _
      exact absurd (h c.toValue (List.mem_of_mem_head? hc)) (by intro hliteral; cases hliteral)

theorem converted_other (h : Alike source source' n n') (hblock : n.hasBlock = false)
    (hall : ∀ m ∈ n.parts, ∀ m', Alike source source' m m' → ∀ u u', convert source m = .ok u →
      convert source' m' = .ok u' → Converted m u u')
    (hv : convertOther source n = .ok v) (hv' : convertOther source' n' = .ok v') : Converted n v v' := by
  have hparts := h.parts (Or.inl hblock)
  have hempty : n.parts.isEmpty = n'.parts.isEmpty := by
    generalize n.parts = ps at hparts
    generalize n'.parts = ps' at hparts
    cases hparts <;> rfl
  rw [convertOther] at hv hv'
  rw [← hempty] at hv'
  split at hv
  · next hnone =>
      rw [if_pos hnone] at hv'
      cases hv
      cases hv'
      rw [← h.head.kind, ← h.head.text (by rw [ConcreteNode.isToken, hnone]; rfl)]
      exact converted_same (List.forall_mem_singleton.mpr (.text _))
  · next hsome =>
      rw [if_neg hsome] at hv'
      obtain ⟨vs, hvs, hv⟩ := bind_eq_ok.mp hv
      obtain ⟨vs', hvs', hv'⟩ := bind_eq_ok.mp hv'
      cases hv
      cases hv'
      rw [← h.head.kind]
      refine converted_parts (convertedAll_of_alike hparts hall hvs hvs') ?_
      cases h with
      | node _ hfirst _ => exact hfirst
      | call _ hcall _ _ _ => exact absurd (hcall.symm.trans hblock) (by decide)

/-- Alike nodes are both literal numbers with a sign, or neither is. -/
theorem rel_negativeLiteral? (h : Alike source source' n n') :
    Option.Rel (Converted n) (negativeLiteral? source n) (negativeLiteral? source' n') := by
  have hoperator := h.text_childFor? (Or.inr rfl)
  have hoperand := @Alike.childFor? source source' n n' h "operand" (by decide)
  have hint : isPlainKind "int" = true := by decide
  have hfloat : isPlainKind "float" = true := by decide
  unfold negativeLiteral?
  generalize n.childFor? "operator" = o at hoperator
  generalize n'.childFor? "operator" = o' at hoperator
  generalize n.childFor? "operand" = c at hoperand
  generalize n'.childFor? "operand" = c' at hoperand
  cases hoperator with
  | none => exact .none
  | some htext =>
      cases hoperand with
      | none => exact .none
      | some hc =>
          simp only [Option.bind_eq_bind, Option.bind_some]
          rw [htext, hc.form]
          split
          · split
            · exact .some (converted_single hint (isLiteral_negate _) (isLiteral_negate _))
            · exact .some (converted_single hfloat (isLiteral_negate _) (isLiteral_negate _))
            · exact .none
          · exact .none

/-- Alike strings are both without interpolation, or neither is. -/
theorem plainString?_isSome (h : Alike source source' n n') (hblock : n.hasBlock = false) :
    (plainString? source n).isSome = (plainString? source' n').isSome := by
  have hall : n.parts.all (·.kind == "string_content") = n'.parts.all (·.kind == "string_content") := by
    have hparts := h.parts (Or.inl hblock)
    generalize n.parts = ps at hparts
    generalize n'.parts = ps' at hparts
    induction hparts with
    | nil => rfl
    | cons hp _ ih => rw [List.all_cons, List.all_cons, hp.head.kind, ih]
  unfold plainString?
  rw [hall]
  split <;> rfl

theorem hasBlock_of_form (h : n.form ≠ .call) : n.hasBlock = false := by
  rw [ConcreteNode.hasBlock, Bool.and_eq_false_iff]
  left
  rw [beq_eq_false_iff_ne]
  intro hkind
  rw [ConcreteNode.form, hkind] at h
  exact h (by decide)

/-- What alike nodes below a node become. -/
def ConvertedBelow (source source' : List UInt8) (n : ConcreteNode) : Prop :=
  ∀ m : ConcreteNode, m.weight < n.weight → ∀ m', Alike source source' m m' →
    ∀ u u', convert source m = .ok u → convert source' m' = .ok u' → Converted m u u'

theorem ConvertedBelow.parts (h : ConvertedBelow source source' n) : ∀ m ∈ n.parts, ∀ m',
    Alike source source' m m' → ∀ u u', convert source m = .ok u → convert source' m' = .ok u' →
      Converted m u u' := by
  intro m hm
  have hle := ConcreteNode.weight_le_weights hm
  have hlt := n.weights_parts_lt
  exact h m (by omega)

theorem ConvertedBelow.childFor? (h : ConvertedBelow source source' n) {field : String} :
    ∀ m ∈ n.childFor? field, ∀ m', Alike source source' m m' → ∀ u u', convert source m = .ok u →
      convert source' m' = .ok u' → Converted m u u' :=
  fun m hm => h m (ConcreteNode.weight_childFor? hm)

theorem ConvertedBelow.argumentParts (h : ConvertedBelow source source' n) : ∀ m ∈ argumentParts n, ∀ m',
    Alike source source' m m' → ∀ u u', convert source m = .ok u → convert source' m' = .ok u' →
      Converted m u u' := by
  intro m hm
  rw [Ruby.argumentParts] at hm
  split at hm
  · next a ha =>
      have hle := ConcreteNode.weight_le_weights hm
      have hlt := a.weights_parts_lt
      have hchild := ConcreteNode.weight_childFor? ha
      exact h m (by omega)
  · exact absurd hm List.not_mem_nil

theorem Alike.argumentParts (h : Alike source source' n n') :
    List.Forall₂ (Alike source source') (argumentParts n) (argumentParts n') := by
  have hrel := @Alike.childFor? source source' n n' h "arguments" (by decide)
  unfold Ruby.argumentParts
  generalize ha : n.childFor? "arguments" = a at hrel
  generalize n'.childFor? "arguments" = a' at hrel
  cases hrel with
  | none => exact .nil
  | some hrel => exact hrel.parts (Or.inr (ConcreteNode.childFor?_eq_some ha).2)

theorem converted_call (h : Alike source source' n n') (hform : n.form = .call)
    (ih : ConvertedBelow source source' n) (hv : convert source n = .ok v)
    (hv' : convert source' n' = .ok v') : Converted n v v' := by
  rw [convert_call hform] at hv
  rw [convert_call (h.form ▸ hform)] at hv'
  obtain ⟨receiver, hreceiver, hv⟩ := bind_eq_ok.mp hv
  obtain ⟨arguments, harguments, hv⟩ := bind_eq_ok.mp hv
  obtain ⟨receiver', hreceiver', hv'⟩ := bind_eq_ok.mp hv'
  obtain ⟨arguments', harguments', hv'⟩ := bind_eq_ok.mp hv'
  have hreceivers := similar_of_convertPart (h.childFor? (by decide)) ih.childFor? hreceiver hreceiver'
  have hparts := convertedAll_of_alike h.argumentParts ih.argumentParts harguments harguments'
  have hcall := converted_callNode h hreceivers hparts
  have hblock := h.block
  cases hchild : n.childFor? "block" with
  | none =>
      cases hchild' : n'.childFor? "block" with
      | none =>
          rw [hchild] at hv
          rw [hchild'] at hv'
          cases hv
          cases hv'
          exact hcall
      | some block' => exact absurd hblock (by rw [hchild, hchild']; simp)
  | some block =>
      cases hchild' : n'.childFor? "block" with
      | none => exact absurd hblock (by rw [hchild, hchild']; simp)
      | some block' =>
          rw [hchild] at hv
          rw [hchild'] at hv'
          obtain ⟨parameters, _, hv⟩ := bind_eq_ok.mp hv
          obtain ⟨statements, _, hv⟩ := bind_eq_ok.mp hv
          obtain ⟨parameters', _, hv'⟩ := bind_eq_ok.mp hv'
          obtain ⟨statements', _, hv'⟩ := bind_eq_ok.mp hv'
          have hn : n.hasBlock = true := by
            rw [ConcreteNode.hasBlock, kind_of_form_call hform, hchild]
            rfl
          exact converted_block hn (similar_operands hreceivers hparts) hv hv'

theorem converted_pair (h : Alike source source' n n') (hform : n.form = .pair)
    (ih : ConvertedBelow source source' n) (hv : convert source n = .ok v)
    (hv' : convert source' n' = .ok v') : Converted n v v' := by
  rw [convert_pair hform] at hv
  rw [convert_pair (h.form ▸ hform)] at hv'
  obtain ⟨key, hkey, hv⟩ := bind_eq_ok.mp hv
  obtain ⟨value, hvalue, hv⟩ := bind_eq_ok.mp hv
  obtain ⟨key', hkey', hv'⟩ := bind_eq_ok.mp hv'
  obtain ⟨value', hvalue', hv'⟩ := bind_eq_ok.mp hv'
  cases hv
  cases hv'
  have hkeys := similar_of_convertPart (h.childFor? (by decide)) ih.childFor? hkey hkey'
  have hvalues := similar_of_convertPart (h.childFor? (by decide)) ih.childFor? hvalue hvalue'
  exact converted_of_plain (by decide) (.cons (similar_valueOf hkeys) (.cons (similar_valueOf hvalues) .nil))

theorem similar_cbase (layout layout' : Layout) : SimilarValue (.node "cbase" [] layout) (.node "cbase" [] layout') :=
  .some (similar_of_plain (by decide) .nil)

theorem converted_scope (h : Alike source source' n n') (hform : n.form = .scope)
    (ih : ConvertedBelow source source' n) (hv : convert source n = .ok v)
    (hv' : convert source' n' = .ok v') : Converted n v v' := by
  have hrel := @Alike.childFor? source source' n n' h "scope" (by decide)
  have hform' : n'.form = .scope := h.form ▸ hform
  have hconst : isPlainKind "const" = true := by decide
  rw [convert, hform] at hv
  rw [convert, hform'] at hv'
  simp only at hv hv'
  split at hv
  · next c hc =>
      rw [hc] at hrel
      split at hv'
      · next c' hc' =>
          rw [hc'] at hrel
          obtain ⟨parent, hparent, hv⟩ := bind_eq_ok.mp hv
          obtain ⟨parent', hparent', hv'⟩ := bind_eq_ok.mp hv'
          cases hv
          cases hv'
          have hparents := ih.childFor? c hc c' (by simpa using hrel) parent parent' hparent hparent'
          exact converted_of_plain hconst (.cons (.some hparents.similar) (.cons .none .nil))
      · next hc' => exact absurd hrel (by rw [hc']; simp)
  · next hc =>
      rw [hc] at hrel
      split at hv'
      · next c' hc' => exact absurd hrel (by rw [hc']; simp)
      · next hc' =>
          cases hv
          cases hv'
          exact converted_of_plain hconst (.cons (similar_cbase _ _) (.cons .none .nil))

theorem converted_string (h : Alike source source' n n') (hform : n.form = .string)
    (ih : ConvertedBelow source source' n) (hv : convert source n = .ok v)
    (hv' : convert source' n' = .ok v') : Converted n v v' := by
  have hblock : n.hasBlock = false := hasBlock_of_form (by simp [hform])
  have hform' : n'.form = .string := h.form ▸ hform
  have hplain := plainString?_isSome h hblock
  rw [convert, hform] at hv
  rw [convert, hform'] at hv'
  simp only at hv hv'
  split at hv
  · next hcontent =>
      rw [hcontent] at hplain
      split at hv'
      · cases hv
        cases hv'
        exact converted_single (by decide) (.text _) (.text _)
      · next hcontent' => exact absurd hplain (by rw [hcontent']; simp)
  · next hcontent =>
      rw [hcontent] at hplain
      split at hv'
      · next hcontent' => exact absurd hplain (by rw [hcontent']; simp)
      · obtain ⟨vs, hvs, hv⟩ := bind_eq_ok.mp hv
        obtain ⟨vs', hvs', hv'⟩ := bind_eq_ok.mp hv'
        cases hv
        cases hv'
        have hparts := convertedAll_of_alike (h.parts (Or.inl hblock)) ih.parts hvs hvs'
        exact converted_parts hparts (fun hkind => absurd hkind (by decide))

theorem converted_unary (h : Alike source source' n n') (hform : n.form = .unary)
    (ih : ConvertedBelow source source' n) (hv : convert source n = .ok v)
    (hv' : convert source' n' = .ok v') : Converted n v v' := by
  have hblock : n.hasBlock = false := hasBlock_of_form (by simp [hform])
  have hform' : n'.form = .unary := h.form ▸ hform
  have hliteral := rel_negativeLiteral? h
  rw [convert, hform] at hv
  rw [convert, hform'] at hv'
  simp only at hv hv'
  split at hv
  · next hsome =>
      rw [hsome] at hliteral
      split at hv'
      · next hsome' =>
          rw [hsome'] at hliteral
          cases hv
          cases hv'
          simpa using hliteral
      · next hnone' => exact absurd hliteral (by rw [hnone']; simp)
  · next hnone =>
      rw [hnone] at hliteral
      split at hv'
      · next hsome' => exact absurd hliteral (by rw [hsome']; simp)
      · exact converted_other h hblock ih.parts hv hv'

/-- One step: alike nodes become alike nodes if those below them do. -/
theorem converted_of_below (h : Alike source source' n n') (ih : ConvertedBelow source source' n)
    (hv : convert source n = .ok v) (hv' : convert source' n' = .ok v') : Converted n v v' := by
  have hform' := h.form.symm
  cases hform : n.form with
  | call => exact converted_call h hform ih hv hv'
  | pair => exact converted_pair h hform ih hv hv'
  | scope => exact converted_scope h hform ih hv hv'
  | string => exact converted_string h hform ih hv hv'
  | unary => exact converted_unary h hform ih hv hv'
  | statements =>
      have hblock : n.hasBlock = false := hasBlock_of_form (by simp [hform])
      rw [hform] at hform'
      rw [convert, hform] at hv
      rw [convert, hform'] at hv'
      obtain ⟨vs, hvs, hv⟩ := bind_eq_ok.mp hv
      obtain ⟨vs', hvs', hv'⟩ := bind_eq_ok.mp hv'
      cases hv
      cases hv'
      have hparts := convertedAll_of_alike (h.parts (Or.inl hblock)) ih.parts hvs hvs'
      exact converted_parts hparts (fun hkind => absurd hkind (by decide))
  | other =>
      have hblock : n.hasBlock = false := hasBlock_of_form (by simp [hform])
      rw [hform] at hform'
      rw [convert, hform] at hv
      rw [convert, hform'] at hv'
      exact converted_other h hblock ih.parts hv hv'
  | identifier =>
      rw [hform] at hform'
      rw [convert, hform] at hv
      rw [convert, hform'] at hv'
      cases hv
      cases hv'
      have htext : n.text source = n'.text source' := by
        apply h.head.text
        rw [ConcreteNode.isToken, kind_of_form_identifier hform]
        simp
      rw [nameNode, nameNode, ← htext]
      split
      · exact converted_same (List.forall_mem_singleton.mpr (.text _))
      · exact converted_same (by simp [IsLiteral.text, IsLiteral.nil])
  | integer =>
      rw [hform] at hform'
      rw [convert, hform] at hv
      rw [convert, hform'] at hv'
      cases hv
      cases hv'
      exact converted_single (by decide) (isLiteral_integerValue _) (isLiteral_integerValue _)
  | float =>
      rw [hform] at hform'
      rw [convert, hform] at hv
      rw [convert, hform'] at hv'
      cases hv
      cases hv'
      exact converted_single (by decide) (isLiteral_floatLiteral _) (isLiteral_floatLiteral _)
  | symbol | key =>
      rw [hform] at hform'
      rw [convert, hform] at hv
      rw [convert, hform'] at hv'
      cases hv
      cases hv'
      exact converted_single (by decide) (.text _) (.text _)
  | constant =>
      rw [hform] at hform'
      rw [convert, hform] at hv
      rw [convert, hform'] at hv'
      cases hv
      cases hv'
      exact converted_leaf (by decide) (by simp [IsLiteral.text, IsLiteral.nil])
        (by simp [IsLiteral.text, IsLiteral.nil]) rfl
  | keyword =>
      rw [hform] at hform'
      rw [convert, hform] at hv
      rw [convert, hform'] at hv'
      cases hv
      cases hv'
      rw [← h.head.kind]
      exact converted_leaf (isPlainKind_of_keyword hform) (by simp) (by simp) rfl
  | variableOf kind =>
      rw [hform] at hform'
      rw [convert, hform] at hv
      rw [convert, hform'] at hv'
      cases hv
      cases hv'
      exact converted_single (isPlainKind_of_variable hform) (.text _) (.text _)

/-- The conversions of alike trees are alike for the search. -/
theorem converted_of_alike : ∀ {n n' : ConcreteNode}, Alike source source' n n' → ∀ {v v' : Node},
    convert source n = .ok v → convert source' n' = .ok v' → Converted n v v' := by
  have hall : ∀ w, ∀ n : ConcreteNode, n.weight < w → ∀ n', Alike source source' n n' → ∀ v v',
      convert source n = .ok v → convert source' n' = .ok v' → Converted n v v' := by
    intro w
    induction w with
    | zero => exact fun n hlt => absurd hlt (Nat.not_lt_zero _)
    | succ w ih =>
        intro n hlt n' h v v' hv hv'
        refine converted_of_below h ?_ hv hv'
        exact fun m hm m' => ih m (Nat.lt_of_lt_of_le hm (Nat.le_of_lt_succ hlt)) m'
  intro n n' h v v'
  exact hall _ n (Nat.lt_succ_self _) n' h v v'

end IdiomLint.Ruby
