import IdiomLint.Proofs.Idiom.NoReturn
import IdiomLint.Proofs.Ruby.Expressions

/-!
# Conversions without carriage returns

The texts of a syntax tree are pieces of the source, kinds of the concrete tree and a few words of the
conversion. If there is no carriage return in the source and in the kinds, there is none in the syntax
tree (`clear_of_convert`).
-/

namespace IdiomLint.Ruby

open Utf8 (returnByte)

/-- No kind in the concrete tree has a carriage return in it. -/
def ConcreteNode.Plain (n : ConcreteNode) : Prop := n.Everywhere fun m => NoReturn m.kind

instance (n : ConcreteNode) : Decidable n.Plain :=
  inferInstanceAs (Decidable (n.Everywhere fun m => NoReturn m.kind))

variable {source : List UInt8} {n : ConcreteNode}

/-! ## Nodes made from pieces of the source -/

theorem noReturn_textBetween (hsource : returnByte ∉ source) (start stop : Nat) :
    NoReturn (textBetween source start stop) := by
  apply Utf8.noReturn_decodeLossy
  intro hmem
  exact hsource (List.mem_of_mem_drop (List.mem_of_mem_take hmem))

theorem noReturn_text (hsource : returnByte ∉ source) (n : ConcreteNode) : NoReturn (n.text source) :=
  noReturn_textBetween hsource n.start n.stop

/-- A node over a stretch of the source is clear if its kind and its children are. -/
theorem clear_over (hsource : returnByte ∉ source) {kind : String} {values : List Value} {layout : Layout}
    {start stop : Nat} (hextent : layout.extent = some (spanBetween source start stop))
    (hkind : NoReturn kind) (hvalues : ∀ v ∈ values, v.Clear) : (Value.node kind values layout).Clear := by
  refine ⟨hkind, ?_, Value.clearAll_iff.mpr hvalues⟩
  intro span hspan
  rw [hextent] at hspan
  cases hspan
  exact noReturn_textBetween hsource start stop

theorem clear_build (hsource : returnByte ∉ source) {kind : String} {values : List Value}
    (hkind : NoReturn kind) (hvalues : ∀ v ∈ values, v.Clear) : (n.build source kind values).toValue.Clear :=
  clear_over hsource rfl hkind hvalues

theorem clear_nodes {vs : List Node} (h : ∀ v ∈ vs, v.toValue.Clear) : ∀ w ∈ vs.map Node.toValue, w.Clear :=
  List.forall_mem_map.mpr h

theorem clear_valueOf {part : Option Node} (h : ∀ v ∈ part, v.toValue.Clear) : (valueOf part).Clear := by
  cases part with
  | none => trivial
  | some v => exact h v rfl

theorem clear_nodeOver (hsource : returnByte ∉ source) {kind : String} (hkind : NoReturn kind) {first : Node}
    {rest : List Node} (h : ∀ v ∈ first :: rest, v.toValue.Clear) :
    (nodeOver source kind first rest).toValue.Clear :=
  clear_over hsource rfl hkind (clear_nodes h)

theorem clear_gatherPairs (hsource : returnByte ∉ source) (ns : List Node) : ∀ pairs : List Node,
    (∀ v ∈ pairs.reverse ++ ns, v.toValue.Clear) →
      ∀ v ∈ gatherPairs source pairs ns, v.toValue.Clear := by
  induction ns with
  | nil =>
      intro pairs h
      rw [gatherPairs]
      cases hpairs : pairs.reverse with
      | nil => simp
      | cons first rest =>
          rw [hpairs, List.append_nil] at h
          exact List.forall_mem_singleton.mpr (clear_nodeOver hsource (by decide) h)
  | cons n ns ih =>
      intro pairs h
      rw [gatherPairs]
      split
      · exact ih (n :: pairs) (by simpa using h)
      · obtain ⟨hpairs, hns⟩ := List.forall_mem_append.mp h
        obtain ⟨hn, hns⟩ := List.forall_mem_cons.mp hns
        have hrest := ih [] hns
        cases hreverse : pairs.reverse with
        | nil => exact List.forall_mem_cons.mpr ⟨hn, hrest⟩
        | cons first rest =>
            rw [hreverse] at hpairs
            exact List.forall_mem_cons.mpr ⟨clear_nodeOver hsource (by decide) hpairs,
              List.forall_mem_cons.mpr ⟨hn, hrest⟩⟩

theorem clear_joinStatements (hsource : returnByte ∉ source) {statements : List Node}
    (h : ∀ v ∈ statements, v.toValue.Clear) : (valueOf (joinStatements source statements)).Clear := by
  match statements with
  | [] => trivial
  | [one] => exact h one (by simp)
  | first :: second :: rest => exact clear_nodeOver hsource (by decide) h

theorem clear_callNode (hsource : returnByte ∉ source) {receiver : Option Node} {arguments : List Node}
    (hreceiver : ∀ v ∈ receiver, v.toValue.Clear) (harguments : ∀ v ∈ arguments, v.toValue.Clear) :
    (callNode source n receiver arguments).toValue.Clear := by
  have hkinds : ∀ kind ∈ ["send", "csend"], NoReturn kind := by decide
  refine clear_over hsource rfl (hkinds _ (callNode_kind receiver arguments)) ?_
  · refine List.forall_mem_cons.mpr ⟨clear_valueOf hreceiver, List.forall_mem_cons.mpr ⟨?_, ?_⟩⟩
    · split
      · exact noReturn_text hsource _
      · exact (by decide : NoReturn "call")
    · exact clear_nodes (clear_gatherPairs hsource arguments [] (by simpa using harguments))

theorem IsParameters.clear {written : Node} {kind : String} {second : Value} (h : IsParameters written kind second)
    (hwritten : written.toValue.Clear) : second.Clear := by
  cases h with
  | written => exact hwritten
  | it _ => exact (by decide : NoReturn "it")
  | numbered _ _ => trivial

theorem clear_argsNode (hsource : returnByte ∉ source) {parameters : Option (ConcreteNode × List Node)}
    (h : ∀ found ∈ parameters, ∀ p ∈ found.2, p.toValue.Clear) :
    (argsNode source parameters).toValue.Clear := by
  cases parameters with
  | none => exact ⟨(by decide : NoReturn "args"), by simp [argsNode], trivial⟩
  | some found => exact clear_build hsource (by decide) (clear_nodes (h found rfl))

theorem clear_blockNode (hsource : returnByte ∉ source) {call v : Node}
    {parameters : Option (ConcreteNode × List Node)} {body : Option Node} (hcall : call.toValue.Clear)
    (hparameters : ∀ found ∈ parameters, ∀ p ∈ found.2, p.toValue.Clear) (hbody : (valueOf body).Clear)
    (h : blockNode source n call parameters body = .ok v) : v.toValue.Clear := by
  obtain ⟨kind, second, rfl, hkind, hsecond⟩ := of_blockNode h
  have hkinds : ∀ kind ∈ ["block", "numblock", "itblock"], NoReturn kind := by decide
  have hsecond := hsecond.clear (clear_argsNode hsource hparameters)
  exact clear_build hsource (hkinds kind hkind) (by simp [hcall, hsecond, hbody])

/-! ## Literals -/

/-- The value has no text in it. It is the value of a numeral, or nothing. -/
inductive IsNumeral : Value → Prop
  | nil : IsNumeral .nil
  | int (k : Int) : IsNumeral (.int k)
  | float (x : Binary64) : IsNumeral (.float x)

theorem isNumeral_integerValue (text : String) : IsNumeral (integerValue text) := by
  unfold integerValue
  split
  · exact .int _
  · exact .nil

theorem isNumeral_floatLiteral (text : String) : IsNumeral (floatLiteral text) := by
  unfold floatLiteral
  split
  · exact .float _
  · exact .nil

theorem isNumeral_negate (v : Value) : IsNumeral (negate v) := by
  cases v with
  | int k => exact .int _
  | float x => exact .float _
  | nil | bool _ | text _ | tuple _ | node _ _ _ => exact .nil

theorem clear_single (hsource : returnByte ∉ source) {kind : String} {v : Value} (hkind : NoReturn kind)
    (hv : v.Clear) : (n.build source kind [v]).toValue.Clear :=
  clear_build hsource hkind (List.forall_mem_singleton.mpr hv)

theorem clear_numeral (hsource : returnByte ∉ source) {kind : String} {v : Value} (hkind : NoReturn kind)
    (hv : IsNumeral v) : (n.build source kind [v]).toValue.Clear := by
  refine clear_single hsource hkind ?_
  cases hv <;> trivial

theorem clear_two (hsource : returnByte ∉ source) {kind : String} {v w : Value} (hkind : NoReturn kind)
    (hv : v.Clear) (hw : w.Clear) : (n.build source kind [v, w]).toValue.Clear :=
  clear_build hsource hkind (List.forall_mem_cons.mpr ⟨hv, List.forall_mem_singleton.mpr hw⟩)

theorem clear_of_negativeLiteral? (hsource : returnByte ∉ source) {v : Node}
    (h : negativeLiteral? source n = some v) : v.toValue.Clear := by
  simp only [negativeLiteral?, Option.bind_eq_bind, Option.bind_eq_some_iff] at h
  obtain ⟨operator, _, operand, _, h⟩ := h
  rw [Option.ite_none_right_eq_some] at h
  obtain ⟨_, h⟩ := h
  split at h
  · cases h
    exact clear_numeral hsource (by decide) (isNumeral_negate _)
  · cases h
    exact clear_numeral hsource (by decide) (isNumeral_negate _)
  · exact absurd h (by simp)

theorem noReturn_of_plainString? (hsource : returnByte ∉ source) {content : String}
    (h : plainString? source n = some content) : NoReturn content := by
  rw [plainString?, Option.ite_none_right_eq_some] at h
  obtain ⟨_, h⟩ := h
  cases h
  exact noReturn_join (List.forall_mem_map.mpr fun m _ => noReturn_text hsource m)

theorem clear_nameNode (hsource : returnByte ∉ source) : (nameNode source n).toValue.Clear := by
  have htext : (Value.text (n.text source)).Clear := noReturn_text hsource n
  rw [nameNode]
  split
  · exact clear_single hsource (by decide) htext
  · exact clear_two hsource (by decide) trivial htext

theorem noReturn_of_variableOf {kind : String} (h : n.form = .variableOf kind) : NoReturn kind := by
  have htable : ∀ entry ∈ forms, ∀ kind, entry.2 = .variableOf kind → NoReturn kind := by
    simp only [forms, List.forall_mem_cons, Form.variableOf.injEq, reduceCtorEq, false_implies,
      implies_true, forall_eq', List.not_mem_nil, and_true]
    decide
  exact htable _ (mem_forms_of_form h (by simp)) kind rfl

theorem noReturn_of_parameterKinds {name kind : String} (h : parameterKinds.lookup name = some kind) :
    NoReturn kind := by
  have htable : ∀ entry ∈ parameterKinds, NoReturn entry.2 := by decide
  obtain ⟨before, after, heq, _⟩ := List.lookup_eq_some_iff.mp h
  exact htable (name, kind) (by simp [heq])

/-! ## Conversions -/

/-- All that is converted on the way to the node is clear. -/
def ClearInside (source : List UInt8) (n : ConcreteNode) : Prop :=
  ∀ m, Inner m n → ∀ u, convert source m = .ok u → u.toValue.Clear

theorem ClearInside.convertAll (h : ClearInside source n) {ns : List ConcreteNode}
    (hns : ∀ m ∈ ns, Inner m n) {vs : List Node} (hvs : convertAll source ns = .ok vs) :
    ∀ v ∈ vs, v.toValue.Clear := by
  intro v hv
  obtain ⟨m, hm, hconvert⟩ := exists_mem_of_forall₂ (forall₂_of_convertAll hvs) v hv
  exact h m (hns m hm) v hconvert

theorem ClearInside.convertPart (h : ClearInside source n) {field : String} {part : Option Node}
    (hpart : convertPart source (n.childFor? field) = .ok part) : ∀ v ∈ part, v.toValue.Clear := by
  intro v hv
  obtain ⟨m, hm, hconvert⟩ := exists_of_convertPart hpart hv
  exact h m (inner_childFor? (Option.mem_toList.mpr hm)) v hconvert

theorem ClearInside.convertParameters (h : ClearInside source n) (hsource : returnByte ∉ source)
    {ns : List ConcreteNode} : (∀ m ∈ ns, Inner m n) → ∀ {vs : List Node},
      convertParameters source ns = .ok vs → ∀ v ∈ vs, v.toValue.Clear := by
  induction ns with
  | nil =>
      intro _ vs hvs
      rw [Ruby.convertParameters] at hvs
      cases hvs
      simp
  | cons m ns ih =>
      intro hns vs hvs
      rw [List.forall_mem_cons] at hns
      rw [Ruby.convertParameters] at hvs
      simp only at hvs
      split at hvs
      · next kind hkind =>
          obtain ⟨head, hhead, hvs⟩ := bind_eq_ok.mp hvs
          obtain ⟨tail, htail, hvs⟩ := bind_eq_ok.mp hvs
          cases hhead
          cases hvs
          refine List.forall_mem_cons.mpr ⟨?_, ih hns.2 htail⟩
          exact clear_single hsource (noReturn_of_parameterKinds hkind) (noReturn_text hsource _)
      · obtain ⟨head, hhead, hvs⟩ := bind_eq_ok.mp hvs
        obtain ⟨tail, htail, hvs⟩ := bind_eq_ok.mp hvs
        cases hvs
        exact List.forall_mem_cons.mpr ⟨h m hns.1 head hhead, ih hns.2 htail⟩

theorem ClearInside.convertOther (h : ClearInside source n) (hsource : returnByte ∉ source)
    (hkind : NoReturn n.kind) {v : Node} (hv : convertOther source n = .ok v) : v.toValue.Clear := by
  rw [Ruby.convertOther] at hv
  split at hv
  · cases hv
    exact clear_single hsource hkind (noReturn_text hsource n)
  · obtain ⟨vs, hvs, hv⟩ := bind_eq_ok.mp hv
    cases hv
    exact clear_build hsource hkind (clear_nodes (h.convertAll (fun m => inner_part) hvs))

theorem ClearInside.convertBlock (h : ClearInside source n) (hsource : returnByte ∉ source)
    {receiver : Option Node} {arguments statements : List Node} {block : ConcreteNode}
    {parameters : Option (ConcreteNode × List Node)} {v : Node}
    (hreceiver : ∀ u ∈ receiver, u.toValue.Clear) (harguments : ∀ u ∈ arguments, u.toValue.Clear)
    (hblock : n.childFor? "block" = some block)
    (hparameters : convertParameterList source (blockParameters? block) = .ok parameters)
    (hstatements : Ruby.convertAll source (blockStatements block) = .ok statements)
    (hv : blockNode source n (callNode source n receiver arguments) parameters
      (joinStatements source statements) = .ok v) : v.toValue.Clear := by
  have hinner : ∀ m ∈ blockExpressions (some block), Inner m n :=
    fun m hm => (inner_blockExpressions hm).tail (ConcreteNode.childFor?_eq_some hblock).1
  refine clear_blockNode hsource (clear_callNode hsource hreceiver harguments) ?_
    (clear_joinStatements hsource ?_) hv
  · rintro ⟨written, ps⟩ hfound
    cases hwritten : blockParameters? block with
    | none =>
        rw [hwritten] at hparameters
        cases hparameters
        exact absurd hfound (by simp)
    | some w =>
        rw [hwritten] at hparameters
        obtain ⟨qs, hqs, rfl⟩ := map_eq_ok.mp hparameters
        cases hfound
        refine h.convertParameters hsource ?_ hqs
        intro m hm
        have hmem := (ConcreteNode.mem_blockParameters? hwritten).1
        exact ((inner_part hm).tail (block.parts_sublist.subset hmem)).tail
          (ConcreteNode.childFor?_eq_some hblock).1
  · exact h.convertAll (fun m hm => hinner m (List.mem_append_right _ hm)) hstatements

/-- A conversion is clear if all that is converted on the way is. -/
theorem ClearInside.convert (h : ClearInside source n) (hsource : returnByte ∉ source)
    (hkind : NoReturn n.kind) {v : Node} (hv : convert source n = .ok v) : v.toValue.Clear := by
  have htext : (Value.text (n.text source)).Clear := noReturn_text hsource n
  cases hform : n.form with
  | pair =>
      rw [convert_pair hform] at hv
      obtain ⟨key, hkey, hv⟩ := bind_eq_ok.mp hv
      obtain ⟨value, hvalue, hv⟩ := bind_eq_ok.mp hv
      cases hv
      exact clear_two hsource (by decide) (clear_valueOf (h.convertPart hkey))
        (clear_valueOf (h.convertPart hvalue))
  | call =>
      rw [convert_call hform] at hv
      obtain ⟨receiver, hreceiver, hv⟩ := bind_eq_ok.mp hv
      obtain ⟨arguments, harguments, hv⟩ := bind_eq_ok.mp hv
      have hreceiver := h.convertPart hreceiver
      have harguments := h.convertAll (fun m hm => inner_callParts (List.mem_append_right _ hm)) harguments
      cases hblock : n.childFor? "block" with
      | none =>
          rw [hblock] at hv
          cases hv
          exact clear_callNode hsource hreceiver harguments
      | some block =>
          rw [hblock] at hv
          obtain ⟨parameters, hparameters, hv⟩ := bind_eq_ok.mp hv
          obtain ⟨statements, hstatements, hv⟩ := bind_eq_ok.mp hv
          exact h.convertBlock hsource hreceiver harguments hblock hparameters hstatements hv
  | statements =>
      rw [Ruby.convert, hform] at hv
      obtain ⟨vs, hvs, hv⟩ := bind_eq_ok.mp hv
      cases hv
      exact clear_build hsource (by decide) (clear_nodes (h.convertAll (fun m => inner_part) hvs))
  | integer =>
      rw [Ruby.convert, hform] at hv
      cases hv
      exact clear_numeral hsource (by decide) (isNumeral_integerValue _)
  | float =>
      rw [Ruby.convert, hform] at hv
      cases hv
      exact clear_numeral hsource (by decide) (isNumeral_floatLiteral _)
  | symbol =>
      rw [Ruby.convert, hform] at hv
      cases hv
      refine clear_single hsource (by decide) ?_
      show '\r' ∉ ((n.text source).drop 1).copy.toList
      rw [String.toList_copy_drop]
      exact fun hmem => htext (List.mem_of_mem_drop hmem)
  | key =>
      rw [Ruby.convert, hform] at hv
      cases hv
      exact clear_single hsource (by decide) htext
  | string =>
      rw [Ruby.convert, hform] at hv
      simp only at hv
      split at hv
      · next hcontent =>
          cases hv
          exact clear_single hsource (by decide) (noReturn_of_plainString? hsource hcontent)
      · obtain ⟨vs, hvs, hv⟩ := bind_eq_ok.mp hv
        cases hv
        exact clear_build hsource (by decide) (clear_nodes (h.convertAll (fun m => inner_part) hvs))
  | constant =>
      rw [Ruby.convert, hform] at hv
      cases hv
      exact clear_two hsource (by decide) trivial htext
  | scope =>
      rw [Ruby.convert, hform] at hv
      simp only at hv
      split at hv
      · next hscope =>
          obtain ⟨parent, hparent, hv⟩ := bind_eq_ok.mp hv
          cases hv
          have hclear := h _ (inner_childFor? (Option.mem_toList.mpr hscope)) parent hparent
          refine clear_two hsource (by decide) hclear ?_
          split
          · exact noReturn_text hsource _
          · exact (by decide : NoReturn "")
      · cases hv
        have hbase : (Value.node "cbase" [] { extent := some (spanBetween source n.start (n.start + 2)) }).Clear :=
          clear_over hsource rfl (by decide) (by simp)
        refine clear_two hsource (by decide) hbase ?_
        split
        · exact noReturn_text hsource _
        · exact (by decide : NoReturn "")
  | identifier =>
      rw [Ruby.convert, hform] at hv
      cases hv
      exact clear_nameNode hsource
  | unary =>
      rw [Ruby.convert, hform] at hv
      simp only at hv
      split at hv
      · next hliteral =>
          cases hv
          exact clear_of_negativeLiteral? hsource hliteral
      · exact h.convertOther hsource hkind hv
  | keyword =>
      rw [Ruby.convert, hform] at hv
      cases hv
      exact clear_build hsource hkind (by simp)
  | variableOf kind =>
      rw [Ruby.convert, hform] at hv
      cases hv
      exact clear_single hsource (noReturn_of_variableOf hform) htext
  | other =>
      rw [Ruby.convert, hform] at hv
      exact h.convertOther hsource hkind hv

/-- Without a carriage return in the source and in the kinds there is none in the syntax tree. -/
theorem clear_of_convert (hsource : returnByte ∉ source) {n : ConcreteNode} (hn : n.Plain) {v : Node}
    (h : convert source n = .ok v) : v.toValue.Clear := by
  have hinside : ClearInside source n :=
    fun m hm u hu => clear_of_convert hsource (hn.of_inner hm) hu
  exact hinside.convert hsource hn.here h
termination_by n.weight
decreasing_by exact weight_lt_of_inner hm

end IdiomLint.Ruby
