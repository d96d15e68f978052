import IdiomLint.Proofs.Fallible
import IdiomLint.Proofs.Ruby.WellFormed

/-!
# What a conversion can give

`Shape source n v` lists the ways in which the syntax node `v` comes from the concrete node `n`, with what
was converted on the way. Everything else about conversions is proved from these cases
(`shape_of_convert`), so that no other proof opens `convert`.
-/

namespace IdiomLint.Ruby

/-- Convert a part that may be absent. -/
def convertPart (source : List UInt8) : Option ConcreteNode → Except TreeError (Option Node)
  | some c => (convert source c).map some
  | none => .ok none

theorem exists_of_convertPart {source : List UInt8} {c : Option ConcreteNode} {v : Option Node}
    (h : convertPart source c = .ok v) {u : Node} (hu : u ∈ v) :
    ∃ n, c = some n ∧ convert source n = .ok u := by
  cases c with
  | none =>
      cases h
      exact absurd hu (by simp)
  | some n =>
      obtain ⟨w, hw, rfl⟩ := map_eq_ok.mp h
      exact ⟨n, rfl, Option.some.inj hu ▸ hw⟩

/-- The concrete nodes of the arguments of a call. -/
def argumentParts (n : ConcreteNode) : List ConcreteNode :=
  match n.childFor? "arguments" with
  | some arguments => arguments.parts
  | none => []

/-- Convert the written parameters of a block, if there are any. -/
def convertParameterList (source : List UInt8) :
    Option ConcreteNode → Except TreeError (Option (ConcreteNode × List Node))
  | some written => (convertParameters source written.parts).map fun ps => some (written, ps)
  | none => .ok none

/-- The value is, up to its sign, the integer of a literal that is the node or one of its children. -/
def LiteralIn (source : List UInt8) (n : ConcreteNode) (k : Int) : Prop :=
  ∃ m, (m = n ∨ m ∈ n.children) ∧ m.form = .integer ∧
    ∃ j, integerLiteral? (m.text source) = some j ∧ k.natAbs = j.natAbs

/-- The value is neither a node nor a sequence of values. -/
inductive IsLiteral : Value → Prop
  | nil : IsLiteral .nil
  | bool (b : Bool) : IsLiteral (.bool b)
  | int (n : Int) : IsLiteral (.int n)
  | float (x : Binary64) : IsLiteral (.float x)
  | text (s : String) : IsLiteral (.text s)

/-- The ways in which a syntax node comes from a concrete node. -/
inductive Shape (source : List UInt8) (n : ConcreteNode) : Node → Prop
  /-- At most two literal values. -/
  | leaf {kind : String} {values : List Value} :
      (∀ v ∈ values, IsLiteral v) → values.length ≤ 2 →
      (kind = "args" → values ≠ []) → (∀ k, .int k ∈ values → LiteralIn source n k) →
      Shape source n (n.build source kind values)
  /-- The converted parts, in a node that has a kind of its own or keeps that of the concrete node. -/
  | parts {kind : String} {vs : List Node} :
      convertAll source n.parts = .ok vs → kind ∈ ["begin", "dstr", n.kind] → (kind = "args" → vs ≠ []) →
      Shape source n (n.build source kind (vs.map Node.toValue))
  /-- A constant inside another one. -/
  | scope {c : ConcreteNode} {parent : Node} {name : String} :
      n.childFor? "scope" = some c → convert source c = .ok parent →
      Shape source n (n.build source "const" [parent.toValue, .text name])
  /-- A constant at the top: before its name stand two colons. -/
  | top {name : String} :
      n.form = .scope → n.childFor? "scope" = none →
      Shape source n (n.build source "const"
        [.node "cbase" [] { extent := some (spanBetween source n.start (n.start + 2)) }, .text name])
  | pair {key value : Option Node} :
      convertPart source (n.childFor? "key") = .ok key →
      convertPart source (n.childFor? "value") = .ok value →
      Shape source n (n.build source "pair" [valueOf key, valueOf value])
  | call {receiver : Option Node} {arguments : List Node} :
      convertPart source (n.childFor? "receiver") = .ok receiver →
      convertAll source (argumentParts n) = .ok arguments →
      Shape source n (callNode source n receiver arguments)
  /-- A call with a block. -/
  | block {receiver : Option Node} {arguments statements : List Node} {block : ConcreteNode}
      {parameters : Option (ConcreteNode × List Node)} {v : Node} :
      convertPart source (n.childFor? "receiver") = .ok receiver →
      convertAll source (argumentParts n) = .ok arguments →
      n.childFor? "block" = some block →
      convertParameterList source (blockParameters? block) = .ok parameters →
      convertAll source (blockStatements block) = .ok statements →
      blockNode source n (callNode source n receiver arguments) parameters
        (joinStatements source statements) = .ok v →
      Shape source n v

variable {source : List UInt8} {n : ConcreteNode} {v : Node}

theorem convertAll_nil : convertAll source [] = .ok [] := by
  rw [convertAll]

/-- Nodes are converted one by one. -/
theorem forall₂_of_convertAll {ns : List ConcreteNode} :
    ∀ {vs : List Node}, convertAll source ns = .ok vs →
      List.Forall₂ (fun n v => convert source n = .ok v) ns vs := by
  induction ns with
  | nil =>
      intro vs h
      rw [convertAll] at h
      cases h
      exact .nil
  | cons n ns ih =>
      intro vs h
      rw [convertAll] at h
      obtain ⟨head, hhead, h⟩ := bind_eq_ok.mp h
      obtain ⟨tail, htail, h⟩ := bind_eq_ok.mp h
      cases h
      exact .cons hhead (ih htail)

theorem shape_of_convertOther (h : convertOther source n = .ok v) : Shape source n v := by
  rw [convertOther] at h
  split at h
  · cases h
    exact .leaf (by simp [IsLiteral.text]) (by simp) (by simp) (by simp)
  · next hparts =>
      obtain ⟨vs, hvs, h⟩ := bind_eq_ok.mp h
      cases h
      -- There are parts, so there are children.
      refine .parts hvs (by simp) ?_
      rintro - rfl
      have hlength := (forall₂_of_convertAll hvs).length_eq
      exact hparts (List.isEmpty_iff.mpr (List.length_eq_zero_iff.mp hlength))

theorem isLiteral_integerValue (text : String) : IsLiteral (integerValue text) := by
  unfold integerValue
  split
  · exact .int _
  · exact .nil

theorem integerLiteral?_of_integerValue {text : String} {k : Int} (h : integerValue text = .int k) :
    integerLiteral? text = some k := by
  rw [integerValue] at h
  split at h
  · next j hj =>
      cases h
      exact hj
  · exact absurd h (by simp)

theorem isLiteral_floatLiteral (text : String) : IsLiteral (floatLiteral text) := by
  unfold floatLiteral
  split
  · exact .float _
  · exact .nil

theorem floatLiteral_ne_int (text : String) (k : Int) : floatLiteral text ≠ .int k := by
  unfold floatLiteral
  split <;> simp

theorem isLiteral_negate (v : Value) : IsLiteral (negate v) := by
  cases v with
  | int n => exact .int _
  | float x => exact .float _
  | nil | bool _ | text _ | tuple _ | node _ _ _ => exact .nil

theorem of_negate_eq_int {v : Value} {k : Int} (h : negate v = .int k) :
    ∃ j, v = .int j ∧ k.natAbs = j.natAbs := by
  cases v with
  | int j =>
      cases h
      exact ⟨j, rfl, Int.natAbs_neg j⟩
  | nil | bool _ | float _ | text _ | tuple _ | node _ _ _ => exact absurd h (by simp [negate])

/-- A leaf with one value that is no integer. -/
theorem shape_single {kind : String} {w : Value} (hw : IsLiteral w) (hint : ∀ k, w ≠ .int k) :
    Shape source n (n.build source kind [w]) := by
  refine .leaf ?_ (by simp) (by simp) ?_
  · intro u hu
    rw [List.mem_singleton.mp hu]
    exact hw
  · intro k hk
    exact absurd (List.mem_singleton.mp hk).symm (hint k)

theorem shape_integer {kind : String} {m : ConcreteNode} {w : Value} (hm : m = n ∨ m ∈ n.children)
    (hform : m.form = .integer) (hw : IsLiteral w)
    (hint : ∀ k, w = .int k → ∃ j, integerLiteral? (m.text source) = some j ∧ k.natAbs = j.natAbs) :
    Shape source n (n.build source kind [w]) := by
  refine .leaf ?_ (by simp) (by simp) ?_
  · intro u hu
    rw [List.mem_singleton.mp hu]
    exact hw
  · intro k hk
    exact ⟨m, hm, hform, hint k (List.mem_singleton.mp hk).symm⟩

theorem shape_of_negativeLiteral? (h : negativeLiteral? source n = some v) : Shape source n v := by
  simp only [negativeLiteral?, Option.bind_eq_bind, Option.bind_eq_some_iff] at h
  obtain ⟨operator, _, operand, hoperand, h⟩ := h
  obtain ⟨hmem, _⟩ := ConcreteNode.childFor?_eq_some hoperand
  rw [Option.ite_none_right_eq_some] at h
  obtain ⟨_, h⟩ := h
  split at h
  · next hform =>
      cases h
      apply shape_integer (Or.inr hmem) hform (isLiteral_negate _)
      intro k hk
      obtain ⟨j, hj, habs⟩ := of_negate_eq_int hk
      exact ⟨j, integerLiteral?_of_integerValue hj, habs⟩
  · cases h
    apply shape_single (isLiteral_negate _)
    intro k hk
    obtain ⟨j, hj, _⟩ := of_negate_eq_int hk
    exact floatLiteral_ne_int _ j hj
  · exact absurd h (by simp)

/-- A form of its own stands in the table. -/
theorem mem_forms_of_form {form : Form} (h : n.form = form) (hother : form ≠ .other) :
    (n.kind, form) ∈ forms := by
  rw [ConcreteNode.form] at h
  cases hlookup : forms.lookup n.kind with
  | none =>
      rw [hlookup] at h
      exact absurd h.symm hother
  | some found =>
      rw [hlookup] at h
      obtain ⟨before, after, heq, _⟩ := List.lookup_eq_some_iff.mp hlookup
      rw [heq, ← h]
      simp

theorem kind_of_form_call (h : n.form = .call) : n.kind = "call" := by
  have htable : ∀ entry ∈ forms, entry.2 = .call → entry.1 = "call" := by decide
  exact htable _ (mem_forms_of_form h (by decide)) rfl

theorem kind_ne_args_of_keyword (h : n.form = .keyword) : n.kind ≠ "args" := by
  have htable : ∀ entry ∈ forms, entry.2 = .keyword → entry.1 ≠ "args" := by decide
  exact htable _ (mem_forms_of_form h (by decide)) rfl

theorem convert_pair (hform : n.form = .pair) : convert source n = (do
    let key ← convertPart source (n.childFor? "key")
    let value ← convertPart source (n.childFor? "value")
    .ok (n.build source "pair" [valueOf key, valueOf value])) := by
  rw [convert]
  simp only [hform]
  cases n.childFor? "key" <;> cases n.childFor? "value" <;> rfl

theorem convert_call (hform : n.form = .call) : convert source n = (do
    let receiver ← convertPart source (n.childFor? "receiver")
    let arguments ← convertAll source (argumentParts n)
    match n.childFor? "block" with
    | none => .ok (callNode source n receiver arguments)
    | some block => do
      let parameters ← convertParameterList source (blockParameters? block)
      let statements ← convertAll source (blockStatements block)
      blockNode source n (callNode source n receiver arguments) parameters
        (joinStatements source statements)) := by
  rw [convert]
  simp only [hform, argumentParts]
  cases n.childFor? "receiver" <;> cases n.childFor? "arguments" <;>
    simp only [convertPart, convertAll_nil] <;> cases n.childFor? "block" with
  | none => rfl
  | some block =>
      simp only
      cases blockParameters? block <;> rfl

/-- What stands before the name of a constant at the top. -/
def topNode (source : List UInt8) (n : ConcreteNode) : Node :=
  ⟨"cbase", [], { extent := some (spanBetween source n.start (n.start + 2)) }⟩

/-- The name of a constant inside another one. -/
def scopeName (source : List UInt8) (n : ConcreteNode) : String :=
  match n.childFor? "name" with
  | some name => name.text source
  | none => ""

theorem convert_scope (hform : n.form = .scope) : convert source n = (do
    let parent ← convertPart source (n.childFor? "scope")
    .ok (n.build source "const" [(parent.getD (topNode source n)).toValue, .text (scopeName source n)])) := by
  rw [convert]
  simp only [hform]
  cases n.childFor? "scope" with
  | none => rfl
  | some scope => cases hscope : convert source scope <;> simp [convertPart, hscope] <;> rfl

/-- The syntax node of a concrete node has one of the shapes. -/
theorem shape_of_convert (h : convert source n = .ok v) : Shape source n v := by
  cases hform : n.form with
  | pair =>
      rw [convert_pair hform] at h
      obtain ⟨key, hkey, h⟩ := bind_eq_ok.mp h
      obtain ⟨value, hvalue, h⟩ := bind_eq_ok.mp h
      cases h
      exact .pair hkey hvalue
  | call =>
      rw [convert_call hform] at h
      obtain ⟨receiver, hreceiver, h⟩ := bind_eq_ok.mp h
      obtain ⟨arguments, harguments, h⟩ := bind_eq_ok.mp h
      cases hblock : n.childFor? "block" with
      | none =>
          rw [hblock] at h
          cases h
          exact .call hreceiver harguments
      | some block =>
          rw [hblock] at h
          obtain ⟨parameters, hparameters, h⟩ := bind_eq_ok.mp h
          obtain ⟨statements, hstatements, h⟩ := bind_eq_ok.mp h
          exact .block hreceiver harguments hblock hparameters hstatements h
  | statements =>
      rw [convert, hform] at h
      obtain ⟨vs, hvs, h⟩ := bind_eq_ok.mp h
      cases h
      exact .parts hvs (by simp) (by simp)
  | integer =>
      rw [convert, hform] at h
      cases h
      exact shape_integer (Or.inl rfl) hform (isLiteral_integerValue _)
        fun k hk => ⟨k, integerLiteral?_of_integerValue hk, rfl⟩
  | float =>
      rw [convert, hform] at h
      cases h
      exact shape_single (isLiteral_floatLiteral _) (floatLiteral_ne_int _)
  | symbol =>
      rw [convert, hform] at h
      cases h
      exact shape_single (.text _) (by simp)
  | key =>
      rw [convert, hform] at h
      cases h
      exact shape_single (.text _) (by simp)
  | string =>
      rw [convert, hform] at h
      simp only at h
      split at h
      · cases h
        exact shape_single (.text _) (by simp)
      · obtain ⟨vs, hvs, h⟩ := bind_eq_ok.mp h
        cases h
        exact .parts hvs (by simp) (by simp)
  | constant =>
      rw [convert, hform] at h
      cases h
      exact .leaf (by simp [IsLiteral.text, IsLiteral.nil]) (by simp) (by simp) (by simp)
  | scope =>
      rw [convert, hform] at h
      simp only at h
      split at h
      · next hscope =>
          obtain ⟨parent, hparent, h⟩ := bind_eq_ok.mp h
          cases h
          exact .scope hscope hparent
      · next hscope =>
          cases h
          exact .top hform hscope
  | identifier =>
      rw [convert, hform] at h
      cases h
      rw [nameNode]
      split
      · exact shape_single (.text _) (by simp)
      · exact .leaf (by simp [IsLiteral.text, IsLiteral.nil]) (by simp) (by simp) (by simp)
  | unary =>
      rw [convert, hform] at h
      simp only at h
      split at h
      · next hliteral =>
          cases h
          exact shape_of_negativeLiteral? hliteral
      · exact shape_of_convertOther h
  | keyword =>
      rw [convert, hform] at h
      cases h
      exact .leaf (by simp) (by simp) (fun hkind => absurd hkind (kind_ne_args_of_keyword hform))
        (by simp)
  | variableOf kind =>
      rw [convert, hform] at h
      cases h
      exact shape_single (.text _) (by simp)
  | other =>
      rw [convert, hform] at h
      exact shape_of_convertOther h

/-- The parameters of a block are names or conversions. -/
theorem shape_of_convertParameters {ns : List ConcreteNode} :
    ∀ {vs : List Node}, convertParameters source ns = .ok vs →
      List.Forall₂ (Shape source) ns vs := by
  induction ns with
  | nil =>
      intro vs h
      rw [convertParameters] at h
      cases h
      exact .nil
  | cons n ns ih =>
      intro vs h
      rw [convertParameters] at h
      simp only at h
      split at h
      · obtain ⟨head, hhead, h⟩ := bind_eq_ok.mp h
        obtain ⟨tail, htail, h⟩ := bind_eq_ok.mp h
        cases hhead
        cases h
        exact .cons (shape_single (.text _) (by simp)) (ih htail)
      · obtain ⟨head, hhead, h⟩ := bind_eq_ok.mp h
        obtain ⟨tail, htail, h⟩ := bind_eq_ok.mp h
        cases h
        exact .cons (shape_of_convert hhead) (ih htail)

end IdiomLint.Ruby
