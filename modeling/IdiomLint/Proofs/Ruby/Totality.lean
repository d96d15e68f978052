import IdiomLint.Proofs.Correction.Writes
import IdiomLint.Proofs.Ruby.Framing
import IdiomLint.Proofs.Ruby.Ownership
import IdiomLint.Proofs.Ruby.Reading

/-!
# Which trees can be converted

The conversion looks into what it has made in one place: it searches the body of a block without written parameters.
There the search takes the first child of a node of the kind `block` for a call with children. A block of a call
begins with one, but a concrete node `block` that stands elsewhere, such as the body of a lambda, keeps its kind and
begins with whatever its first part becomes, and a word such as `nil` becomes a node without children.

Main statement: a tree in which no such node stands where it is searched is converted, and a file with such a tree is
analyzed (`exists_convert`). A lambda with nothing but `nil` in it breaks off both (`lambda_breaks_off`).
-/

namespace IdiomLint.Ruby

variable {source : List UInt8} {n e : ConcreteNode} {v : Node}

/-! ## Trees that can be converted -/

namespace ConcreteNode

/-- No grammar has nodes of these kinds, which the conversion makes up. -/
def Untagged (n : ConcreteNode) : Prop := n.kind ∉ ["lvar", "numblock", "itblock"]

/-- The node becomes one without children: a word that stands for itself, or statements of which there are none. -/
def IsBare (n : ConcreteNode) : Prop := n.form = .keyword ∨ n.form = .statements ∧ n.parts.isEmpty = true

/-- If the node is a `block`, it does not begin with a bare node. -/
def Headed (n : ConcreteNode) : Prop := n.kind = "block" → ∀ p ∈ n.parts.head?, ¬ p.IsBare

instance : DecidablePred Untagged := fun n => inferInstanceAs (Decidable (n.kind ∉ ["lvar", "numblock", "itblock"]))

instance : DecidablePred IsBare := fun n =>
  inferInstanceAs (Decidable (n.form = .keyword ∨ n.form = .statements ∧ n.parts.isEmpty = true))

instance : DecidablePred Headed := fun n =>
  inferInstanceAs (Decidable (n.kind = "block" → ∀ p ∈ n.parts.head?, ¬ p.IsBare))

end ConcreteNode

open ConcreteNode (Untagged IsBare Headed)

/-- In the statements of blocks without written parameters no `block` begins with a bare node. -/
def Searchable (source : List UInt8) (n : ConcreteNode) : Prop :=
  ∀ m ∈ standing source n, m.form = .call → ∀ block ∈ m.childFor? "block", Parameterless block →
    ∀ s ∈ blockStatements block, ∀ b ∈ standing source s, b.Headed

theorem Searchable.of_expression (h : Searchable source n) (he : e ∈ expressions source n) : Searchable source e := by
  intro m hm
  refine h m ?_
  rw [standing_eq]
  exact List.mem_cons_of_mem n (List.mem_flatMap.mpr ⟨e, he, hm⟩)

theorem searchable_of_headed (h : n.Everywhere Headed) : Searchable source n := by
  intro m hm _ block hblock _ s hs b hb
  have hblock : Inner block m := inner_childFor? (Option.mem_toList.mpr hblock)
  have hs : Inner s block := inner_blockExpressions (List.mem_append_right _ hs)
  exact ((((h.of_standing hm).of_inner hblock).of_inner hs).of_standing hb).here

/-! ## Values that can be searched -/

/-- If the value is a node, it can be searched. -/
def LegibleValue (w : Value) : Prop := ∀ u ∈ w.node?, AllLegible u

theorem legibleValue_of_isLiteral {w : Value} (h : IsLiteral w) : LegibleValue w := by
  intro u hu
  rw [node?_of_isLiteral h] at hu
  exact absurd hu (by simp)

theorem legibleValue_toValue (h : AllLegible v) : LegibleValue v.toValue := by
  rintro _ ⟨⟩
  exact h

theorem legibleValue_valueOf {part : Option Node} (h : ∀ u ∈ part, AllLegible u) : LegibleValue (valueOf part) := by
  cases part with
  | none => exact legibleValue_of_isLiteral .nil
  | some u => exact legibleValue_toValue (h u rfl)

theorem legibleValue_map {vs : List Node} (h : ∀ u ∈ vs, AllLegible u) : ∀ w ∈ vs.map Node.toValue, LegibleValue w :=
  List.forall_mem_map.mpr fun u hu => legibleValue_toValue (h u hu)

theorem allLegible_of_values (h : Legible v) (hbelow : ∀ w ∈ v.children, LegibleValue w) : AllLegible v := by
  refine allLegible_iff.mpr ⟨h, fun c hc => ?_⟩
  exact hbelow _ (mem_childNodes.mp hc) c rfl

/-! ## One node over others -/

/-- A node of a kind that the search looks at neither as a block nor as a variable. -/
theorem allLegible_build {kind : String} {values : List Value} (hkind : isBlockKind kind = false ∧ kind ≠ "lvar")
    (h : ∀ w ∈ values, LegibleValue w) : AllLegible (n.build source kind values) :=
  allLegible_of_values (legible_of_kind hkind.1 hkind.2) h

/-- A node of a text can be searched whatever its kind is. -/
theorem allLegible_text (kind text : String) : AllLegible (n.build source kind [.text text]) := by
  refine allLegible_of_values ⟨fun _ => ⟨.text text, rfl, nofun⟩, fun _ => ⟨text, rfl⟩⟩ ?_
  exact List.forall_mem_singleton.mpr (legibleValue_of_isLiteral (.text text))

theorem allLegible_nodeOver {kind : String} {first : Node} {rest : List Node}
    (hkind : isBlockKind kind = false ∧ kind ≠ "lvar") (h : ∀ u ∈ first :: rest, AllLegible u) :
    AllLegible (nodeOver source kind first rest) :=
  allLegible_of_values (legible_of_kind hkind.1 hkind.2) (legibleValue_map h)

theorem allLegible_gatherPairs {vs : List Node} (h : ∀ u ∈ vs, AllLegible u) :
    ∀ u ∈ gatherPairs source [] vs, AllLegible u := by
  intro u hu
  rcases mem_gatherPairs vs hu with hu | ⟨first, rest, rfl, hsub⟩
  · exact h u hu
  · exact allLegible_nodeOver (by decide) fun w hw => h w (hsub.subset hw)

theorem allLegible_joinStatements {vs : List Node} (h : ∀ u ∈ vs, AllLegible u) :
    ∀ u ∈ joinStatements source vs, AllLegible u := by
  intro u hu
  match vs with
  | [] => exact absurd hu (by simp [joinStatements])
  | [one] =>
      cases hu
      exact h u List.mem_cons_self
  | _ :: _ :: _ =>
      cases hu
      exact allLegible_nodeOver (by decide) h

theorem allLegible_callNode {receiver : Option Node} {arguments : List Node} (hreceiver : ∀ u ∈ receiver, AllLegible u)
    (harguments : ∀ u ∈ arguments, AllLegible u) : AllLegible (callNode source n receiver arguments) := by
  have hkind := @callNode_kind source n receiver arguments
  have hplain : ∀ kind ∈ ["send", "csend"], isBlockKind kind = false ∧ kind ≠ "lvar" := by decide
  obtain ⟨method, hchildren⟩ := @callNode_children source n receiver arguments
  refine allLegible_of_values (legible_of_kind (hplain _ hkind).1 (hplain _ hkind).2) ?_
  rw [hchildren, List.forall_mem_cons, List.forall_mem_cons]
  exact ⟨legibleValue_valueOf hreceiver, legibleValue_of_isLiteral (.text method),
    legibleValue_map (allLegible_gatherPairs harguments)⟩

/-- Whatever sort of block a call with a block becomes, it begins with the call. -/
theorem allLegible_block {call : Node} {kind : String} {second third : Value}
    (hkind : kind ∈ ["block", "numblock", "itblock"]) (hne : call.children ≠ []) (hcall : AllLegible call)
    (hsecond : LegibleValue second) (hthird : LegibleValue third) :
    AllLegible (n.build source kind [call.toValue, second, third]) := by
  have hname : ∀ kind ∈ ["block", "numblock", "itblock"], kind ≠ "lvar" := by decide
  refine allLegible_of_values (legible_of_first (hname kind hkind) rfl ?_) ?_
  · rintro _ ⟨⟩
    exact hne
  · simp only [ConcreteNode.build, List.forall_mem_cons]
    exact ⟨legibleValue_toValue hcall, hsecond, hthird, List.forall_mem_nil _⟩

/-! ## Conversions can be searched -/

/-- What holds of the conversion of a part holds of what the part was converted to, if it is there. -/
theorem forall_of_convertPart {p : Node → Prop} {c : Option ConcreteNode} {part : Option Node}
    (hpart : convertPart source c = .ok part) (h : ∀ m ∈ c.toList, ∀ u, convert source m = .ok u → p u) :
    ∀ u ∈ part, p u := by
  intro u hu
  obtain ⟨m, hm, hconvert⟩ := exists_of_convertPart hpart hu
  exact h m (Option.mem_toList.mpr hm) u hconvert

/-- What holds of the conversions of nodes one by one holds of what they were converted to. -/
theorem forall_of_convertAll {p : Node → Prop} {ns : List ConcreteNode} {vs : List Node}
    (hvs : convertAll source ns = .ok vs) (h : ∀ m ∈ ns, ∀ u, convert source m = .ok u → p u) : ∀ u ∈ vs, p u := by
  intro u hu
  obtain ⟨m, hm, hconvert⟩ := exists_mem_of_forall₂ (forall₂_of_convertAll hvs) u hu
  exact h m hm u hconvert

theorem children_ne_nil_of_parts {kind : String} {vs : List Node} (hne : n.parts.isEmpty = false)
    (hvs : convertAll source n.parts = .ok vs) : (n.build source kind (vs.map Node.toValue)).children ≠ [] := by
  intro hnil
  have hlength := (forall₂_of_convertAll hvs).length_eq
  rw [List.map_eq_nil_iff.mp hnil] at hlength
  rw [List.length_eq_zero_iff.mp hlength] at hne
  exact absurd hne (by decide)

/-- A node without a form of its own keeps its text or its parts. -/
theorem children_ne_nil_of_convertOther (h : convertOther source n = .ok v) : v.children ≠ [] := by
  rw [convertOther] at h
  split at h
  · cases h
    exact List.cons_ne_nil _ _
  · next hne =>
      obtain ⟨vs, hvs, h⟩ := bind_eq_ok.mp h
      cases h
      exact children_ne_nil_of_parts (Bool.eq_false_iff.mpr hne) hvs

/-- A node that is not bare becomes one with children. -/
theorem children_ne_nil_of_not_bare (hbare : ¬ n.IsBare) (h : convert source n = .ok v) : v.children ≠ [] := by
  cases hform : n.form with
  | keyword => exact absurd (Or.inl hform) hbare
  | statements =>
      rw [convert, hform] at h
      obtain ⟨vs, hvs, h⟩ := bind_eq_ok.mp h
      cases h
      exact children_ne_nil_of_parts (Bool.eq_false_iff.mpr fun hempty => hbare (Or.inr ⟨hform, hempty⟩)) hvs
  | string =>
      rw [convert, hform] at h
      simp only at h
      split at h
      · cases h
        exact List.cons_ne_nil _ _
      · next hplain =>
          obtain ⟨vs, hvs, h⟩ := bind_eq_ok.mp h
          cases h
          -- A string without parts is plain and would have become its text.
          refine children_ne_nil_of_parts (Bool.eq_false_iff.mpr fun hempty => ?_) hvs
          rw [plainString?, List.isEmpty_iff.mp hempty] at hplain
          exact absurd hplain (by simp)
  | unary =>
      rw [convert, hform] at h
      simp only at h
      split at h
      · next hliteral =>
          cases h
          obtain ⟨kind, w, _, _, rfl⟩ := exists_of_negativeLiteral? hliteral
          exact List.cons_ne_nil _ _
      · exact children_ne_nil_of_convertOther h
  | other =>
      rw [convert, hform] at h
      exact children_ne_nil_of_convertOther h
  | call =>
      rw [convert_call hform] at h
      obtain ⟨receiver, _, h⟩ := bind_eq_ok.mp h
      obtain ⟨arguments, _, h⟩ := bind_eq_ok.mp h
      split at h
      · cases h
        exact List.cons_ne_nil _ _
      · obtain ⟨parameters, _, h⟩ := bind_eq_ok.mp h
        obtain ⟨statements, _, h⟩ := bind_eq_ok.mp h
        obtain ⟨kind, second, rfl, _⟩ := of_blockNode h
        exact List.cons_ne_nil _ _
  | pair =>
      rw [convert_pair hform] at h
      obtain ⟨key, _, h⟩ := bind_eq_ok.mp h
      obtain ⟨value, _, h⟩ := bind_eq_ok.mp h
      cases h
      exact List.cons_ne_nil _ _
  | scope =>
      rw [convert_scope hform] at h
      obtain ⟨parent, _, h⟩ := bind_eq_ok.mp h
      cases h
      exact List.cons_ne_nil _ _
  | identifier =>
      rw [convert, hform] at h
      cases h
      rw [nameNode]
      split <;> exact List.cons_ne_nil _ _
  | integer | float | symbol | key | constant | variableOf _ =>
      rw [convert, hform] at h
      cases h
      exact List.cons_ne_nil _ _

/-- A node over its converted parts can be searched, unless it is a block that does not begin with a call. -/
theorem allLegible_parts {kind : String} {vs : List Node} (hname : kind ≠ "lvar")
    (hhead : isBlockKind kind = true → n.parts.isEmpty = false ∧ ∀ p ∈ n.parts.head?, ¬ p.IsBare)
    (hvs : convertAll source n.parts = .ok vs) (h : ∀ u ∈ vs, AllLegible u) :
    AllLegible (n.build source kind (vs.map Node.toValue)) := by
  refine allLegible_of_values ?_ (legibleValue_map h)
  cases hkind : isBlockKind kind with
  | false => exact legible_of_kind hkind hname
  | true =>
      obtain ⟨hne, hbare⟩ := hhead hkind
      have hconverted := forall₂_of_convertAll hvs
      generalize n.parts = parts at hne hbare hconverted
      cases hconverted with
      | nil => exact absurd hne (by decide)
      | cons hp _ =>
          refine legible_of_first hname rfl ?_
          rintro _ ⟨⟩
          exact children_ne_nil_of_not_bare (hbare _ rfl) hp

theorem allLegible_convertOther (huntagged : n.Untagged) (hheaded : n.Headed)
    (hbelow : ∀ m ∈ n.parts, ∀ u, convert source m = .ok u → AllLegible u) (h : convertOther source n = .ok v) :
    AllLegible v := by
  rw [convertOther] at h
  split at h
  · cases h
    exact allLegible_text _ _
  · next hne =>
      obtain ⟨vs, hvs, h⟩ := bind_eq_ok.mp h
      cases h
      have hkinds : ∀ other ∈ ["lvar", "numblock", "itblock"], n.kind ≠ other :=
        fun other hother heq => huntagged (heq ▸ hother)
      refine allLegible_parts (hkinds _ (by simp)) (fun hkind => ?_) hvs (forall_of_convertAll hvs hbelow)
      have hblock : n.kind = "block" := by
        simpa [isBlockKind, hkinds "numblock" (by simp), hkinds "itblock" (by simp)] using hkind
      exact ⟨Bool.eq_false_iff.mpr hne, hheaded hblock⟩

/-- A parameter is known by a text or was converted. -/
theorem of_mem_convertParameters {ns : List ConcreteNode} : ∀ {ps : List Node}, convertParameters source ns = .ok ps →
    ∀ p ∈ ps, (∃ m : ConcreteNode, ∃ kind text, p = m.build source kind [.text text]) ∨
      ∃ m ∈ ns.filter fun m => (parameterKinds.lookup m.kind).isNone, convert source m = .ok p := by
  induction ns with
  | nil =>
      intro ps h
      rw [convertParameters] at h
      cases h
      exact List.forall_mem_nil _
  | cons m ns ih =>
      intro ps h
      rw [convertParameters] at h
      simp only at h
      split at h
      · next kind hkind =>
          obtain ⟨head, hhead, h⟩ := bind_eq_ok.mp h
          obtain ⟨tail, htail, h⟩ := bind_eq_ok.mp h
          cases hhead
          cases h
          rw [List.filter_cons_of_neg (by simp [hkind])]
          exact List.forall_mem_cons.mpr ⟨Or.inl ⟨m, kind, _, rfl⟩, ih htail⟩
      · next hkind =>
          obtain ⟨head, hhead, h⟩ := bind_eq_ok.mp h
          obtain ⟨tail, htail, h⟩ := bind_eq_ok.mp h
          cases h
          rw [List.filter_cons_of_pos (by simp [hkind])]
          refine List.forall_mem_cons.mpr ⟨Or.inr ⟨m, List.mem_cons_self, hhead⟩, fun p hp => ?_⟩
          rcases ih htail p hp with hnamed | ⟨m', hm', hp⟩
          · exact Or.inl hnamed
          · exact Or.inr ⟨m', List.mem_cons_of_mem m hm', hp⟩

theorem allLegible_argsNode {block : ConcreteNode} {parameters : Option (ConcreteNode × List Node)}
    (hbelow : ∀ m ∈ unnamedParameters block, ∀ u, convert source m = .ok u → AllLegible u)
    (h : convertParameterList source (blockParameters? block) = .ok parameters) :
    AllLegible (argsNode source parameters) := by
  rw [unnamedParameters] at hbelow
  cases hwritten : blockParameters? block with
  | none =>
      rw [hwritten] at h
      cases h
      exact allLegible_of_values (legible_of_kind rfl (by simp [argsNode])) (List.forall_mem_nil _)
  | some written =>
      rw [hwritten] at h hbelow
      obtain ⟨ps, hps, rfl⟩ := map_eq_ok.mp h
      refine allLegible_build (by decide) (legibleValue_map fun p hp => ?_)
      rcases of_mem_convertParameters hps p hp with ⟨m, kind, text, rfl⟩ | ⟨m, hm, hp⟩
      · exact allLegible_text kind text
      · exact hbelow m hm p hp

/-- What the expressions of a call became can be searched, so the call can be, with or without a block. -/
theorem allLegible_call (hform : n.form = .call)
    (hbelow : ∀ m ∈ expressions source n, ∀ u, convert source m = .ok u → AllLegible u)
    (h : convert source n = .ok v) : AllLegible v := by
  rw [expressions, hform] at hbelow
  simp only [List.forall_mem_append, callParts] at hbelow
  obtain ⟨⟨hreceivers, harguments⟩, hblock⟩ := hbelow
  rw [convert_call hform] at h
  obtain ⟨receiver, hreceiver, h⟩ := bind_eq_ok.mp h
  obtain ⟨arguments, hconverted, h⟩ := bind_eq_ok.mp h
  have hcall : AllLegible (callNode source n receiver arguments) :=
    allLegible_callNode (forall_of_convertPart hreceiver hreceivers) (forall_of_convertAll hconverted harguments)
  cases hblocks : n.childFor? "block" with
  | none =>
      rw [hblocks] at h
      cases h
      exact hcall
  | some block =>
      rw [hblocks] at h hblock
      obtain ⟨hparameters, hstatements⟩ := List.forall_mem_append.mp hblock
      obtain ⟨parameters, hwritten, h⟩ := bind_eq_ok.mp h
      obtain ⟨statements, hbody, h⟩ := bind_eq_ok.mp h
      obtain ⟨kind, second, rfl, hkind, hsecond⟩ := of_blockNode h
      have hvalue : LegibleValue second := by
        cases hsecond with
        | written => exact legibleValue_toValue (allLegible_argsNode hparameters hwritten)
        | it _ => exact legibleValue_of_isLiteral (.text _)
        | numbered _ _ => exact legibleValue_of_isLiteral (.int _)
      exact allLegible_block hkind (List.cons_ne_nil _ _) hcall hvalue
        (legibleValue_valueOf (allLegible_joinStatements (forall_of_convertAll hbody hstatements)))

/-- Whatever the form of a node is, what it becomes can be searched if what its expressions become can be. -/
theorem allLegible_of_expressions (huntagged : n.Untagged) (hheaded : n.Headed)
    (hbelow : ∀ m ∈ expressions source n, ∀ u, convert source m = .ok u → AllLegible u)
    (h : convert source n = .ok v) : AllLegible v := by
  have hleaf : ∀ {kind : String} {values : List Value}, isBlockKind kind = false ∧ kind ≠ "lvar" →
      (∀ w ∈ values, IsLiteral w) → AllLegible (n.build source kind values) :=
    fun hkind hvalues => allLegible_build hkind fun w hw => legibleValue_of_isLiteral (hvalues w hw)
  cases hform : n.form with
  | call => exact allLegible_call hform hbelow h
  | pair =>
      rw [expressions, hform] at hbelow
      obtain ⟨hkeys, hvalues⟩ := List.forall_mem_append.mp hbelow
      rw [convert_pair hform] at h
      obtain ⟨key, hkey, h⟩ := bind_eq_ok.mp h
      obtain ⟨value, hvalue, h⟩ := bind_eq_ok.mp h
      cases h
      refine allLegible_build (by decide) (List.forall_mem_cons.mpr ⟨?_, List.forall_mem_singleton.mpr ?_⟩)
      · exact legibleValue_valueOf (forall_of_convertPart hkey hkeys)
      · exact legibleValue_valueOf (forall_of_convertPart hvalue hvalues)
  | scope =>
      rw [expressions, hform] at hbelow
      rw [convert_scope hform] at h
      obtain ⟨parent, hparent, h⟩ := bind_eq_ok.mp h
      cases h
      refine allLegible_build (by decide) (List.forall_mem_cons.mpr ⟨legibleValue_toValue ?_, ?_⟩)
      · cases parent with
        | none => exact allLegible_of_values (legible_of_kind rfl (by simp [topNode])) (List.forall_mem_nil _)
        | some u => exact forall_of_convertPart hparent hbelow u rfl
      · exact List.forall_mem_singleton.mpr (legibleValue_of_isLiteral (.text _))
  | statements =>
      rw [expressions, hform] at hbelow
      rw [convert, hform] at h
      obtain ⟨vs, hvs, h⟩ := bind_eq_ok.mp h
      cases h
      exact allLegible_parts (by decide) (fun hkind => absurd hkind (by decide)) hvs (forall_of_convertAll hvs hbelow)
  | string =>
      rw [expressions, hform] at hbelow
      rw [convert, hform] at h
      simp only at h
      split at h
      · cases h
        exact allLegible_text _ _
      · next hplain =>
          obtain ⟨vs, hvs, h⟩ := bind_eq_ok.mp h
          cases h
          rw [hplain] at hbelow
          exact allLegible_parts (by decide) (fun hkind => absurd hkind (by decide)) hvs
            (forall_of_convertAll hvs hbelow)
  | unary =>
      rw [expressions, hform] at hbelow
      rw [convert, hform] at h
      simp only at h
      split at h
      · next hliteral =>
          cases h
          obtain ⟨kind, w, hkind, hw, rfl⟩ := exists_of_negativeLiteral? hliteral
          have hplain : ∀ kind ∈ ["int", "float"], isBlockKind kind = false ∧ kind ≠ "lvar" := by decide
          exact hleaf (hplain kind hkind) (List.forall_mem_singleton.mpr hw)
      · next hother =>
          rw [hother] at hbelow
          exact allLegible_convertOther huntagged hheaded hbelow h
  | other =>
      rw [expressions, hform] at hbelow
      rw [convert, hform] at h
      exact allLegible_convertOther huntagged hheaded hbelow h
  | identifier =>
      rw [convert, hform] at h
      cases h
      rw [nameNode]
      split
      · exact allLegible_text _ _
      · exact hleaf (by decide) (by simp [IsLiteral.text, IsLiteral.nil])
  | integer =>
      rw [convert, hform] at h
      cases h
      exact hleaf (by decide) (List.forall_mem_singleton.mpr (isLiteral_integerValue _))
  | float =>
      rw [convert, hform] at h
      cases h
      exact hleaf (by decide) (List.forall_mem_singleton.mpr (isLiteral_floatLiteral _))
  | constant =>
      rw [convert, hform] at h
      cases h
      exact hleaf (by decide) (by simp [IsLiteral.text, IsLiteral.nil])
  | keyword =>
      have htable : ∀ entry ∈ forms, entry.2 = .keyword → isBlockKind entry.1 = false ∧ entry.1 ≠ "lvar" := by decide
      rw [convert, hform] at h
      cases h
      exact hleaf (htable _ (mem_forms_of_form hform (by decide)) rfl) (List.forall_mem_nil _)
  | symbol | key | variableOf _ =>
      rw [convert, hform] at h
      cases h
      exact allLegible_text _ _

/-- What a tree becomes can be searched, if no `block` that stands in it begins with a bare node. -/
theorem allLegible_of_convert (n : ConcreteNode) : n.Everywhere Untagged → (∀ b ∈ standing source n, b.Headed) →
    ∀ v, convert source n = .ok v → AllLegible v := by
  induction n using standing.induct source with
  | case1 n ih =>
      intro huntagged hheaded v h
      rw [standing_eq, List.forall_mem_cons] at hheaded
      refine allLegible_of_expressions huntagged.here hheaded.1 (fun e he => ?_) h
      refine ih ⟨e, he⟩ (huntagged.of_inner (inner_expressions he)) fun b hb => ?_
      exact hheaded.2 b (List.mem_flatMap.mpr ⟨e, he, hb⟩)

/-! ## Conversions succeed -/

theorem exists_convertPart {c : Option ConcreteNode} (h : ∀ m ∈ c.toList, ∃ v, convert source m = .ok v) :
    ∃ part, convertPart source c = .ok part := by
  cases c with
  | none => exact ⟨none, rfl⟩
  | some m =>
      obtain ⟨v, hv⟩ := h m List.mem_cons_self
      exact ⟨some v, map_eq_ok.mpr ⟨v, hv, rfl⟩⟩

theorem exists_convertAll {ns : List ConcreteNode} (h : ∀ m ∈ ns, ∃ v, convert source m = .ok v) :
    ∃ vs, convertAll source ns = .ok vs := by
  induction ns with
  | nil => exact ⟨[], convertAll_nil⟩
  | cons m ns ih =>
      obtain ⟨⟨v, hv⟩, hns⟩ := List.forall_mem_cons.mp h
      obtain ⟨vs, hvs⟩ := ih hns
      refine ⟨v :: vs, ?_⟩
      rw [convertAll, hv, hvs]
      rfl

theorem exists_convertParameters {ns : List ConcreteNode}
    (h : ∀ m ∈ ns.filter fun m => (parameterKinds.lookup m.kind).isNone, ∃ v, convert source m = .ok v) :
    ∃ ps, convertParameters source ns = .ok ps := by
  induction ns with
  | nil =>
      refine ⟨[], ?_⟩
      rw [convertParameters]
  | cons m ns ih =>
      cases hkind : parameterKinds.lookup m.kind with
      | some kind =>
          rw [List.filter_cons_of_neg (by simp [hkind])] at h
          obtain ⟨ps, hps⟩ := ih h
          refine ⟨m.build source kind [.text (((m.childFor? "name").getD m).text source)] :: ps, ?_⟩
          rw [convertParameters, hkind, hps]
          rfl
      | none =>
          rw [List.filter_cons_of_pos (by simp [hkind])] at h
          obtain ⟨⟨v, hv⟩, hns⟩ := List.forall_mem_cons.mp h
          obtain ⟨ps, hps⟩ := ih hns
          refine ⟨v :: ps, ?_⟩
          rw [convertParameters, hkind]
          simp only
          rw [hv, hps]
          rfl

theorem exists_convertParameterList {block : ConcreteNode}
    (h : ∀ m ∈ unnamedParameters block, ∃ v, convert source m = .ok v) :
    ∃ parameters, convertParameterList source (blockParameters? block) = .ok parameters := by
  rw [unnamedParameters] at h
  cases hwritten : blockParameters? block with
  | none => exact ⟨none, rfl⟩
  | some written =>
      rw [hwritten] at h
      obtain ⟨ps, hps⟩ := exists_convertParameters h
      exact ⟨some (written, ps), map_eq_ok.mpr ⟨ps, hps, rfl⟩⟩

theorem exists_convertOther (h : ∀ m ∈ n.parts, ∃ v, convert source m = .ok v) :
    ∃ v, convertOther source n = .ok v := by
  rw [convertOther]
  split
  · exact ⟨_, rfl⟩
  · obtain ⟨vs, hvs⟩ := exists_convertAll h
    exact ⟨_, bind_eq_ok.mpr ⟨vs, hvs, rfl⟩⟩

/-- A block that became one without parameters has none written. -/
theorem parameterless_of_argsNode {block : ConcreteNode} {parameters : Option (ConcreteNode × List Node)}
    (h : convertParameterList source (blockParameters? block) = .ok parameters)
    (hempty : (argsNode source parameters).children.isEmpty = true) : Parameterless block := by
  intro written hwritten
  rw [hwritten] at h
  obtain ⟨ps, hps, rfl⟩ := map_eq_ok.mp h
  have hlength := (shape_of_convertParameters hps).length_eq
  rw [List.map_eq_nil_iff.mp (List.isEmpty_iff.mp hempty)] at hlength
  exact List.length_eq_zero_iff.mp hlength

/-- A block is made if its body can be searched, should it have no written parameters. -/
theorem exists_blockNode {call : Node} {parameters : Option (ConcreteNode × List Node)} {body : Option Node}
    (h : (argsNode source parameters).children.isEmpty = true → ∀ u ∈ body, AllLegible u) :
    ∃ v, blockNode source n call parameters body = .ok v := by
  unfold blockNode
  change ∃ v, (if (argsNode source parameters).children.isEmpty then _ else _) = _
  split
  · next hempty =>
      obtain ⟨implicit, himplicit, _⟩ := implicitParameter_reads_owned (h hempty)
      rw [himplicit]
      match implicit with
      | none => exact ⟨_, rfl⟩
      | some .it => exact ⟨_, rfl⟩
      | some (.numbered k) => exact ⟨_, rfl⟩
  · exact ⟨_, rfl⟩

/-- A node can be converted if its expressions can be and the statements of a block without parameters can be
searched. -/
theorem exists_convert_of_expressions (hbelow : ∀ m ∈ expressions source n, ∃ v, convert source m = .ok v)
    (hbody : n.form = .call → ∀ block ∈ n.childFor? "block", Parameterless block →
      ∀ s ∈ blockStatements block, ∀ u, convert source s = .ok u → AllLegible u) :
    ∃ v, convert source n = .ok v := by
  rw [expressions] at hbelow
  cases hform : n.form with
  | call =>
      simp only [hform, callParts, List.forall_mem_append] at hbelow
      obtain ⟨⟨hreceivers, harguments⟩, hblocks⟩ := hbelow
      obtain ⟨receiver, hreceiver⟩ := exists_convertPart hreceivers
      obtain ⟨arguments, harguments⟩ := exists_convertAll harguments
      cases hblock : n.childFor? "block" with
      | none =>
          rw [convert_call hform, hblock]
          exact ⟨_, bind_eq_ok.mpr ⟨receiver, hreceiver, bind_eq_ok.mpr ⟨arguments, harguments, rfl⟩⟩⟩
      | some block =>
          rw [hblock] at hblocks
          obtain ⟨hparameters, hstatements⟩ := List.forall_mem_append.mp hblocks
          obtain ⟨parameters, hparameters⟩ := exists_convertParameterList hparameters
          obtain ⟨statements, hstatements⟩ := exists_convertAll hstatements
          have hmade : ∃ v, blockNode source n (callNode source n receiver arguments) parameters
              (joinStatements source statements) = .ok v := by
            refine exists_blockNode fun hempty => allLegible_joinStatements (forall_of_convertAll hstatements ?_)
            exact hbody hform block hblock (parameterless_of_argsNode hparameters hempty)
          obtain ⟨v, hv⟩ := hmade
          rw [convert_call hform, hblock]
          refine ⟨v, bind_eq_ok.mpr ⟨receiver, hreceiver, bind_eq_ok.mpr ⟨arguments, harguments, ?_⟩⟩⟩
          exact bind_eq_ok.mpr ⟨parameters, hparameters, bind_eq_ok.mpr ⟨statements, hstatements, hv⟩⟩
  | pair =>
      simp only [hform, List.forall_mem_append] at hbelow
      obtain ⟨key, hkey⟩ := exists_convertPart hbelow.1
      obtain ⟨value, hvalue⟩ := exists_convertPart hbelow.2
      rw [convert_pair hform]
      exact ⟨_, bind_eq_ok.mpr ⟨key, hkey, bind_eq_ok.mpr ⟨value, hvalue, rfl⟩⟩⟩
  | scope =>
      simp only [hform] at hbelow
      obtain ⟨parent, hparent⟩ := exists_convertPart hbelow
      rw [convert_scope hform]
      exact ⟨_, bind_eq_ok.mpr ⟨parent, hparent, rfl⟩⟩
  | statements =>
      simp only [hform] at hbelow
      obtain ⟨vs, hvs⟩ := exists_convertAll hbelow
      rw [convert, hform]
      exact ⟨_, bind_eq_ok.mpr ⟨vs, hvs, rfl⟩⟩
  | string =>
      rw [convert]
      simp only [hform] at hbelow ⊢
      split
      · exact ⟨_, rfl⟩
      · next hplain =>
          rw [hplain] at hbelow
          obtain ⟨vs, hvs⟩ := exists_convertAll hbelow
          exact ⟨_, bind_eq_ok.mpr ⟨vs, hvs, rfl⟩⟩
  | unary =>
      rw [convert]
      simp only [hform] at hbelow ⊢
      split
      · exact ⟨_, rfl⟩
      · next hliteral =>
          rw [hliteral] at hbelow
          exact exists_convertOther hbelow
  | other =>
      rw [convert]
      simp only [hform] at hbelow ⊢
      exact exists_convertOther hbelow
  | integer | float | symbol | key | constant | identifier | keyword | variableOf _ =>
      rw [convert, hform]
      exact ⟨_, rfl⟩

/-- By induction on the expressions of a node. What a block without parameters searches was made from its statements,
and every `block` that stands in them begins with more than a word. -/
theorem exists_convert (n : ConcreteNode) : n.Everywhere Untagged → Searchable source n →
    ∃ v, convert source n = .ok v := by
  induction n using standing.induct source with
  | case1 n ih =>
      intro huntagged hsearch
      refine exists_convert_of_expressions (fun e he => ?_) fun hform block hblock hnone s hs => ?_
      · exact ih ⟨e, he⟩ (huntagged.of_inner (inner_expressions he)) (hsearch.of_expression he)
      · have hinner : Inner s n := (inner_blockExpressions (List.mem_append_right _ hs)).trans
          (inner_childFor? (Option.mem_toList.mpr hblock))
        refine allLegible_of_convert s (huntagged.of_inner hinner) ?_
        exact hsearch n (by rw [standing_eq]; exact List.mem_cons_self) hform block hblock hnone s hs

end IdiomLint.Ruby

namespace IdiomLint.Analyzer

variable {a : Analyzer} {d : Disk} {path text : String}

/-! ## Files with such trees -/

/-- Rules break off an analysis with settings that cannot be read and with nothing else. -/
theorem exists_setting_of_findingsFrom (context : RuleContext) (rules : List Rule) : ∀ {found : List Finding}
    {e : AnalysisError}, (a.findingsFrom context found rules).result = .error e → ∃ s, e = .setting s := by
  have hsetting : ∀ {α : Type} {r : Except SettingError α} {e : AnalysisError},
      r.mapError AnalysisError.setting = .error e → ∃ s, e = .setting s := by
    intro α r e h
    obtain ⟨s, _, hs⟩ := mapError_eq_error.mp h
    exact ⟨s, hs.symm⟩
  induction rules with
  | nil =>
      intro found e h
      exact nomatch h
  | cons rule rules ih =>
      intro found e h
      unfold findingsFrom at h
      split at h
      · rw [Outcome.result_bind] at h
        exact ih h
      · rw [Outcome.result_bind, bind_eq_error] at h
        rcases h with h | ⟨graded, _, h⟩
        · exact hsetting h
        rw [Outcome.result_bind, bind_eq_error] at h
        rcases h with h | ⟨full, _, h⟩
        · exact hsetting h
        split at h
        · exact hsetting h
        · exact ih h

theorem result_runRules_of_convert {parse : String → Parsed} {e : AnalysisError}
    (hgrammar : a.grammar = some (.ok parse))
    (hconvert : ∃ v, Ruby.convert (Utf8.encode text) (parse text).tree = .ok v)
    (h : (a.runRules path text).result = .error e) : ∃ s, e = .setting s := by
  obtain ⟨v, hv⟩ := hconvert
  rw [runRules, hgrammar] at h
  rw [Outcome.result_bind, bind_eq_error] at h
  rcases h with h | ⟨tree, _, h⟩
  · obtain ⟨e', he', _⟩ := mapError_eq_error.mp h
    rw [Grammar.result_parse, hv] at he'
    cases he'
  · rw [Outcome.result_bind, bind_eq_error] at h
    rcases h with h | ⟨found, _, h⟩
    · exact exists_setting_of_findingsFrom _ _ h
    · cases h

/-- If the tree of a text can be converted, the analysis of a file with that text does not break off because of it. -/
theorem result_analyzeFile_of_convert {parse : String → Parsed} {e : AnalysisError}
    (hgrammar : a.grammar = some (.ok parse)) (hread : d.readText path = .ok text)
    (hconvert : ∃ v, Ruby.convert (Utf8.encode text) (parse text).tree = .ok v)
    (h : (a.analyzeFile d path).result = .error e) : e = .impossiblePath ∨ ∃ s, e = .setting s := by
  rw [analyzeFile, hread] at h
  split at h
  · exact Or.inl (Except.error.inj h).symm
  · change (a.analyzeText path text).result = _ at h
    rw [analyzeText] at h
    split at h
    · cases h
    · exact Or.inr (result_runRules_of_convert hgrammar hconvert h)

end IdiomLint.Analyzer

namespace IdiomLint.Ruby

variable {source : List UInt8} {n : ConcreteNode}

open ConcreteNode (Untagged Headed)

/-- A tree in which no bare node stands first in a `block` that is searched can be converted, and no analysis of a
file with such a tree breaks off because of it. -/
theorem converts_and_analyzes (huntagged : n.Everywhere Untagged) (hsearch : Searchable source n) :
    (∃ v, convert source n = .ok v) ∧
      ∀ (a : Analyzer) (d : Disk) (path text : String) (parse : String → Parsed), a.grammar = some (.ok parse) →
        d.readText path = .ok text → Utf8.encode text = source → (parse text).tree = n →
        ∀ e, (a.analyzeFile d path).result = .error e → e = .impossiblePath ∨ ∃ s, e = .setting s := by
  have hconvert := exists_convert n huntagged hsearch
  refine ⟨hconvert, fun a d path text parse hgrammar hread hsource htree e he => ?_⟩
  subst hsource htree
  exact Analyzer.result_analyzeFile_of_convert hgrammar hread hconvert he

/-! ## A lambda of one word in a block -/

def wordText (word : String) : String := "3.times \x7b -> \x7b " ++ word ++ " \x7d \x7d"

/-- A lambda whose block has a word of three letters of some kind as its only statement. -/
def wordBlock (kind : String) : ConcreteNode :=
  ⟨"block", true, 13, 20, some "body", [token "\x7b" 13 none, leaf kind 15 18 none, token "\x7d" 19 none]⟩

def wordLambda (kind : String) : ConcreteNode :=
  ⟨"lambda", true, 10, 20, none, [⟨"->", false, 10, 12, none, []⟩, wordBlock kind]⟩

def wordCall (kind : String) : ConcreteNode :=
  ⟨"call", true, 0, 22, none, [leaf "integer" 0 1 (some "receiver"), token "." 1 (some "operator"),
    leaf "identifier" 2 7 (some "method"), ⟨"block", true, 8, 22, some "block", [token "\x7b" 8 none,
      ⟨"block_body", true, 10, 20, some "body", [wordLambda kind]⟩, token "\x7d" 21 none]⟩]⟩

def wordProgram (kind : String) : ConcreteNode := ⟨"program", true, 0, 22, none, [wordCall kind]⟩

/-- An analyzer without rules that takes every text for the program. -/
def wordAnalyzer (kind : String) : Analyzer := ⟨some (.ok fun _ => ⟨wordProgram kind, false⟩), [], {}⟩

def wordDisk (word : String) : Disk := ⟨.directory [("a.rb", .file (Utf8.encode (wordText word)))], []⟩

theorem converts_and_analyzes_name :
    (wordProgram "identifier").Everywhere Untagged ∧
    Searchable (Utf8.encode (wordText "foo")) (wordProgram "identifier") ∧
    (wordDisk "foo").readText "/a.rb" = .ok (wordText "foo") ∧
    (∃ v, convert (Utf8.encode (wordText "foo")) (wordProgram "identifier") = .ok v) ∧
    ∀ e, ((wordAnalyzer "identifier").analyzeFile (wordDisk "foo") "/a.rb").result = .error e →
      e = .impossiblePath ∨ ∃ s, e = .setting s := by
  have huntagged : (wordProgram "identifier").Everywhere Untagged := by decide
  have hsearch : Searchable (Utf8.encode (wordText "foo")) (wordProgram "identifier") :=
    searchable_of_headed (by decide)
  have hread : (wordDisk "foo").readText "/a.rb" = .ok (wordText "foo") := by decide +kernel
  obtain ⟨hconvert, hanalyze⟩ := converts_and_analyzes huntagged hsearch
  exact ⟨huntagged, hsearch, hread, hconvert, hanalyze _ _ _ _ _ rfl hread rfl rfl⟩

/-- A search breaks off at a block on a call without children. -/
theorem searchFrom_of_emptyCall {highest : Nat} {usesIt : Bool} {block call : Node} {rest : List Value}
    {stack : List Node} (hblock : isBlockKind block.kind = true) (hcall : block.children = call.toValue :: rest)
    (hempty : call.children = []) : searchFrom highest usesIt (block :: stack) = .error .missingChild := by
  have hbelow : searchBelow block = .error .missingChild := by
    rw [searchBelow, hblock, if_pos rfl, hcall]
    show callOperands call = _
    rw [callOperands, hempty]
  rw [searchFrom_cons, if_pos hblock, hbelow]
  rfl

/-- The lambda with `nil` in it becomes a node over a block on a node without children. -/
theorem convert_wordLambda_nil (source : List UInt8) : ∃ v block call : Node,
    convert source (wordLambda "nil") = .ok v ∧ v.kind = "lambda" ∧ v.children = [block.toValue] ∧
    block.kind = "block" ∧ block.children = [call.toValue] ∧ call.children = [] := by
  have hword : convert source (leaf "nil" 15 18 none) = .ok ((leaf "nil" 15 18 none).build source "nil" []) := by
    rw [convert]
    rfl
  have hblock := @convert_single source (wordBlock "nil") _ _ (by decide) rfl hword
  have hlambda := @convert_single source (wordLambda "nil") _ _ (by decide) rfl hblock
  exact ⟨_, _, _, hlambda, rfl, rfl, rfl, rfl, rfl⟩

theorem convert_wordCall_nil (source : List UInt8) : convert source (wordCall "nil") = .error .missingChild := by
  obtain ⟨v, block, call, hv, hkind, hchildren, hblock, hcall, hempty⟩ := convert_wordLambda_nil source
  have himplicit : implicitParameter (some v) = .error .missingChild := by
    have hbelow : searchBelow v = .ok [block] := by
      rw [searchBelow, hkind, if_neg (by decide), Node.childNodes, hchildren]
      rfl
    have hnumber : numberRead v = .ok 0 := by rw [numberRead, hkind, if_neg (by decide)]
    rw [implicitParameter_eq, Option.toList_some, searchFrom_cons, hkind, if_neg (by decide), hnumber, hbelow]
    show (searchFrom _ _ [block]).map verdict = _
    rw [searchFrom_of_emptyCall (hblock ▸ rfl) hcall hempty]
    rfl
  rw [convert_call (by decide)]
  show ((convert source (leaf "integer" 0 1 (some "receiver"))).map some >>= fun receiver =>
    convertAll source [] >>= fun arguments => convertAll source [wordLambda "nil"] >>= fun statements =>
      blockNode source (wordCall "nil") (callNode source (wordCall "nil") receiver arguments) none
        (joinStatements source statements)) = _
  rw [convert_integer (by decide), convertAll_nil, convertAll_one hv]
  show blockNode source (wordCall "nil") _ none (some v) = _
  unfold blockNode
  change (implicitParameter (some v) >>= _) = _
  rw [himplicit]
  rfl

/-- A lambda with nothing but `nil` in it, in a block without written parameters, can neither be converted nor
analyzed. -/
theorem lambda_breaks_off :
    (wordProgram "nil").Everywhere Untagged ∧
    convert (Utf8.encode (wordText "nil")) (wordProgram "nil") = .error .missingChild ∧
    (wordDisk "nil").readText "/a.rb" = .ok (wordText "nil") ∧
    ((wordAnalyzer "nil").analyzeFile (wordDisk "nil") "/a.rb").result =
      .error (.parse (.oddTree .missingChild)) := by
  have hprogram : convert (Utf8.encode (wordText "nil")) (wordProgram "nil") = .error .missingChild := by
    rw [convert]
    show (convertAll (Utf8.encode (wordText "nil")) [wordCall "nil"] >>= _) = _
    rw [convertAll, convert_wordCall_nil]
    rfl
  have hread : (wordDisk "nil").readText "/a.rb" = .ok (wordText "nil") := by decide +kernel
  refine ⟨by decide, hprogram, hread, ?_⟩
  have htree : ((Grammar.parse (.ok fun _ => ⟨wordProgram "nil", false⟩) (wordText "nil")).mapError
      AnalysisError.parse).result = .error (.parse (.oddTree .missingChild)) := by
    show (Grammar.parse _ _).result.mapError AnalysisError.parse = _
    rw [Grammar.result_parse, hprogram]
    rfl
  have hrun : ((wordAnalyzer "nil").runRules "/a.rb" (wordText "nil")).result =
      .error (.parse (.oddTree .missingChild)) := by
    show (_ >>= _ : Analyzing FileResult).result = _
    rw [Outcome.result_bind, htree]
    rfl
  rw [Analyzer.analyzeFile, hread, if_neg (by decide)]
  show ((wordAnalyzer "nil").analyzeText "/a.rb" (wordText "nil")).result = _
  rw [Analyzer.analyzeText]
  simp only [hrun]

end IdiomLint.Ruby
