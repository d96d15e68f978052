import Mathlib.Data.List.Find
import IdiomLint.Proofs.Correction.Inspection
import IdiomLint.Proofs.Ruby.Expressions
import IdiomLint.Proofs.Ruby.Repeats

/-!
# Comments and empty statements

`withoutSilent` takes the comments and empty statements out of a concrete tree, with everything below them. They play
no part in their parents, so the nodes that play one stay the same (`childFor?_withoutSilent`), and wherever the
conversion goes through the children of a node it passes over them (`parts_withoutSilent`,
`blockStatements_withoutSilent`).

Main statement: without comments and empty statements a tree is converted to the same syntax tree, with the same places,
or fails in the same way, so that the rules find the same and offer the same edits (`convert_withoutSilent`).
-/

namespace IdiomLint.Ruby

variable {source : List UInt8} {n : ConcreteNode}

/-! ## Trees without silent nodes -/

namespace ConcreteNode

mutual

/-- A tree without the silent nodes in it and everything below them. -/
def withoutSilent : ConcreteNode → ConcreteNode
  | ⟨kind, named, start, stop, field, children⟩ => ⟨kind, named, start, stop, field, withoutSilentAll children⟩

/-- Trees without the silent ones and without the silent nodes in the others. -/
def withoutSilentAll : List ConcreteNode → List ConcreteNode
  | [] => []
  | n :: rest => if n.isSilent then withoutSilentAll rest else n.withoutSilent :: withoutSilentAll rest

end

/-- Silent children play no part, and the arguments of a call neither begin nor end with one. -/
structure SilentAside (n : ConcreteNode) : Prop where
  field : ∀ c ∈ n.children, c.isSilent = true → c.field = none
  first : n.kind = "call" → ∀ arguments ∈ n.childFor? "arguments", ∀ c ∈ arguments.children.head?, c.isSilent = false
  last : n.kind = "call" → ∀ arguments ∈ n.childFor? "arguments", ∀ c ∈ arguments.children.getLast?, c.isSilent = false

instance : DecidablePred SilentAside := fun n =>
  decidable_of_iff ((∀ c ∈ n.children, c.isSilent = true → c.field = none) ∧
      (n.kind = "call" → ∀ arguments ∈ n.childFor? "arguments", ∀ c ∈ arguments.children.head?, c.isSilent = false) ∧
      (n.kind = "call" → ∀ arguments ∈ n.childFor? "arguments", ∀ c ∈ arguments.children.getLast?,
        c.isSilent = false))
    ⟨fun ⟨hfield, hfirst, hlast⟩ => ⟨hfield, hfirst, hlast⟩, fun ⟨hfield, hfirst, hlast⟩ => ⟨hfield, hfirst, hlast⟩⟩

/-! ## What stays the same in a node -/

@[simp] theorem kind_withoutSilent (n : ConcreteNode) : n.withoutSilent.kind = n.kind := by cases n; rfl

@[simp] theorem named_withoutSilent (n : ConcreteNode) : n.withoutSilent.named = n.named := by cases n; rfl

@[simp] theorem start_withoutSilent (n : ConcreteNode) : n.withoutSilent.start = n.start := by cases n; rfl

@[simp] theorem stop_withoutSilent (n : ConcreteNode) : n.withoutSilent.stop = n.stop := by cases n; rfl

@[simp] theorem field_withoutSilent (n : ConcreteNode) : n.withoutSilent.field = n.field := by cases n; rfl

@[simp] theorem isSilent_withoutSilent (n : ConcreteNode) : n.withoutSilent.isSilent = n.isSilent := by
  rw [isSilent, isSilent, kind_withoutSilent]

@[simp] theorem form_withoutSilent (n : ConcreteNode) : n.withoutSilent.form = n.form := by
  rw [form, form, kind_withoutSilent]

@[simp] theorem text_withoutSilent (n : ConcreteNode) : n.withoutSilent.text source = n.text source := by
  rw [text, text, start_withoutSilent, stop_withoutSilent]

@[simp] theorem span_withoutSilent (n : ConcreteNode) : n.withoutSilent.span source = n.span source := by
  rw [span, span, start_withoutSilent, stop_withoutSilent]

@[simp] theorem build_withoutSilent (n : ConcreteNode) (kind : String) (values : List Value) :
    n.withoutSilent.build source kind values = n.build source kind values := by
  rw [build, build, span_withoutSilent]

theorem withoutSilentAll_eq (ns : List ConcreteNode) :
    withoutSilentAll ns = (ns.filter (!·.isSilent)).map withoutSilent := by
  induction ns with
  | nil => rfl
  | cons n ns ih =>
      rw [withoutSilentAll, List.filter_cons]
      cases n.isSilent with
      | true => exact ih
      | false => exact congrArg (n.withoutSilent :: ·) ih

theorem children_withoutSilent (n : ConcreteNode) :
    n.withoutSilent.children = (n.children.filter (!·.isSilent)).map withoutSilent := by
  cases n
  exact withoutSilentAll_eq _

/-! ## The children that the conversion looks at -/

theorem namedChildren_withoutSilent (n : ConcreteNode) :
    n.withoutSilent.namedChildren = n.parts.map withoutSilent := by
  rw [namedChildren, children_withoutSilent, List.filter_map, parts, namedChildren, List.filter_filter,
    List.filter_filter]
  congr 1
  refine List.filter_congr fun c _ => ?_
  simp [Bool.and_comm]

theorem filter_map_withoutSilent (ns : List ConcreteNode) :
    (ns.map withoutSilent).filter (!·.isSilent) = (ns.filter (!·.isSilent)).map withoutSilent := by
  rw [List.filter_map]
  congr 1
  exact List.filter_congr fun c _ => by simp

theorem parts_withoutSilent (n : ConcreteNode) : n.withoutSilent.parts = n.parts.map withoutSilent := by
  rw [parts, namedChildren_withoutSilent, filter_map_withoutSilent, parts, List.filter_filter]
  simp

/-- Silent children play no part, so a part is played by the same child. -/
theorem childFor?_withoutSilent (h : ∀ c ∈ n.children, c.isSilent = true → c.field = none) (field : String) :
    n.withoutSilent.childFor? field = (n.childFor? field).map withoutSilent := by
  rw [childFor?, children_withoutSilent, childFor?, List.find?_map, List.find?_filter]
  congr 1
  refine List.find?_congr fun c hc => ?_
  cases hsilent : c.isSilent with
  | true => simp [h c hc hsilent]
  | false => simp [beq_eq_decide]

theorem blockParameters?_withoutSilent (block : ConcreteNode) :
    blockParameters? block.withoutSilent = (blockParameters? block).map withoutSilent := by
  rw [blockParameters?, parts_withoutSilent, List.filter_map, List.getLast?_map, blockParameters?]
  congr 2
  exact List.filter_congr fun c _ => by simp

/-- The statements in a part of a block, but for the silent ones. -/
theorem statementsOf_withoutSilent (part : ConcreteNode) :
    (statementsOf part.withoutSilent).filter (!·.isSilent) =
      ((statementsOf part).filter (!·.isSilent)).map withoutSilent := by
  rw [statementsOf, statementsOf, kind_withoutSilent]
  split
  · rw [← parts, ← parts, parts_withoutSilent]
  · exact filter_map_withoutSilent [part]

theorem blockStatements_withoutSilent (block : ConcreteNode) :
    blockStatements block.withoutSilent = (blockStatements block).map withoutSilent := by
  have hkind : block.withoutSilent.parts.filter (·.kind != "block_parameters") =
      (block.parts.filter (·.kind != "block_parameters")).map withoutSilent := by
    rw [parts_withoutSilent, List.filter_map]
    congr 1
    exact List.filter_congr fun c _ => by simp
  rw [blockStatements, hkind, blockStatements, List.filter_flatMap, List.filter_flatMap, List.flatMap_map,
    List.map_flatMap]
  exact List.flatMap_congr fun part _ => statementsOf_withoutSilent part

end ConcreteNode

open ConcreteNode (withoutSilent SilentAside)

theorem argumentParts_withoutSilent (h : n.SilentAside) :
    argumentParts n.withoutSilent = (argumentParts n).map withoutSilent := by
  rw [argumentParts, ConcreteNode.childFor?_withoutSilent h.field, argumentParts]
  cases n.childFor? "arguments" with
  | none => rfl
  | some arguments => exact arguments.parts_withoutSilent

theorem plainString?_withoutSilent (n : ConcreteNode) : plainString? source n.withoutSilent = plainString? source n := by
  rw [plainString?, plainString?, ConcreteNode.parts_withoutSilent, List.all_map, List.map_map]
  simp [Function.comp_def]

theorem negativeLiteral?_withoutSilent (h : n.SilentAside) :
    negativeLiteral? source n.withoutSilent = negativeLiteral? source n := by
  rw [negativeLiteral?, ConcreteNode.childFor?_withoutSilent h.field, ConcreteNode.childFor?_withoutSilent h.field,
    negativeLiteral?]
  cases n.childFor? "operator" <;> cases n.childFor? "operand" <;> simp

theorem head?_withoutSilent (h : ∀ c ∈ n.children.head?, c.isSilent = false) :
    n.withoutSilent.children.head? = n.children.head?.map withoutSilent := by
  rw [ConcreteNode.children_withoutSilent]
  cases hchildren : n.children with
  | nil => rfl
  | cons c rest =>
      rw [hchildren] at h
      rw [List.filter_cons_of_pos (by simp [h c rfl])]
      rfl

theorem getLast?_withoutSilent (h : ∀ c ∈ n.children.getLast?, c.isSilent = false) :
    n.withoutSilent.children.getLast? = n.children.getLast?.map withoutSilent := by
  rw [ConcreteNode.children_withoutSilent]
  cases hlast : n.children.getLast? with
  | none =>
      rw [List.getLast?_eq_none_iff.mp hlast]
      rfl
  | some c =>
      obtain ⟨front, hchildren⟩ := List.getLast?_eq_some_iff.mp hlast
      rw [hchildren, List.filter_append, List.filter_cons_of_pos (by simp [h c hlast])]
      simp

theorem parentheses?_eq (arguments : ConcreteNode) : parentheses? source arguments =
    arguments.children.head?.bind fun first => arguments.children.getLast?.bind fun last =>
      if first.kind == "(" && last.kind == ")" then some (first.span source, last.span source) else none := by
  rw [parentheses?]
  cases hchildren : arguments.children with
  | nil => rfl
  | cons first rest =>
      rw [List.getLast?_eq_some_getLast (List.cons_ne_nil first rest)]
      rfl

/-- Parentheses stand at the ends of the arguments, where no silent node does. -/
theorem parentheses?_withoutSilent (hfirst : ∀ c ∈ n.children.head?, c.isSilent = false)
    (hlast : ∀ c ∈ n.children.getLast?, c.isSilent = false) :
    parentheses? source n.withoutSilent = parentheses? source n := by
  rw [parentheses?_eq, parentheses?_eq, head?_withoutSilent hfirst, getLast?_withoutSilent hlast]
  cases n.children.head? <;> cases n.children.getLast? <;> simp

theorem callEnd_withoutSilent (h : n.SilentAside) : callEnd n.withoutSilent = callEnd n := by
  rw [callEnd, callEnd]
  simp only [ConcreteNode.childFor?_withoutSilent h.field]
  cases n.childFor? "receiver" <;> cases n.childFor? "method" <;> cases n.childFor? "arguments" <;> simp

theorem callNode_withoutSilent (h : n.SilentAside) (hkind : n.kind = "call") (receiver : Option Node)
    (arguments : List Node) :
    callNode source n.withoutSilent receiver arguments = callNode source n receiver arguments := by
  have hdelimiters : (n.withoutSilent.childFor? "arguments").bind (parentheses? source) =
      (n.childFor? "arguments").bind (parentheses? source) := by
    rw [ConcreteNode.childFor?_withoutSilent h.field]
    cases harguments : n.childFor? "arguments" with
    | none => rfl
    | some c => exact parentheses?_withoutSilent (h.first hkind c harguments) (h.last hkind c harguments)
  rw [callNode, callNode, hdelimiters, callEnd_withoutSilent h, ConcreteNode.start_withoutSilent]
  simp only [ConcreteNode.childFor?_withoutSilent h.field]
  cases n.childFor? "method" <;> cases n.childFor? "operator" <;> simp

/-- The parameters of a block without silent nodes, with what they became. -/
def parametersWithoutSilent : Option (ConcreteNode × List Node) → Option (ConcreteNode × List Node) :=
  Option.map fun found => (found.1.withoutSilent, found.2)

theorem blockNode_withoutSilent (n : ConcreteNode) (call : Node) (parameters : Option (ConcreteNode × List Node))
    (body : Option Node) : blockNode source n.withoutSilent call (parametersWithoutSilent parameters) body =
      blockNode source n call parameters body := by
  unfold blockNode
  cases parameters <;> simp [parametersWithoutSilent]

/-! ## Conversions -/

/-- Taking the silent nodes out of a node does not change what it is converted to. -/
def Unmoved (source : List UInt8) (n : ConcreteNode) : Prop := convert source n.withoutSilent = convert source n

theorem convertAll_withoutSilent {ns : List ConcreteNode} (h : ∀ m ∈ ns, Unmoved source m) :
    convertAll source (ns.map withoutSilent) = convertAll source ns := by
  induction ns with
  | nil => rfl
  | cons m ns ih =>
      obtain ⟨hm, hns⟩ := List.forall_mem_cons.mp h
      rw [List.map_cons, convertAll, hm, ih hns, convertAll]

theorem convertPart_withoutSilent {c : Option ConcreteNode} (h : ∀ m ∈ c.toList, Unmoved source m) :
    convertPart source (c.map withoutSilent) = convertPart source c := by
  cases c with
  | none => rfl
  | some m => exact congrArg (Except.map some) (h m List.mem_cons_self)

theorem convertOther_withoutSilent (h : ∀ m ∈ n.parts, Unmoved source m) :
    convertOther source n.withoutSilent = convertOther source n := by
  rw [convertOther, convertOther]
  simp only [ConcreteNode.parts_withoutSilent, List.isEmpty_map, convertAll_withoutSilent h,
    ConcreteNode.kind_withoutSilent, ConcreteNode.build_withoutSilent, ConcreteNode.text_withoutSilent]

/-- A parameter is known by the text of its name, or of itself. -/
theorem convertParameters_withoutSilent {ns : List ConcreteNode} (haside : ∀ m ∈ ns, m.SilentAside)
    (h : ∀ m ∈ ns.filter fun m => (parameterKinds.lookup m.kind).isNone, Unmoved source m) :
    convertParameters source (ns.map withoutSilent) = convertParameters source ns := by
  induction ns with
  | nil => rfl
  | cons m ns ih =>
      obtain ⟨hm, hns⟩ := List.forall_mem_cons.mp haside
      rw [List.map_cons, convertParameters, convertParameters, ConcreteNode.kind_withoutSilent]
      cases hkind : parameterKinds.lookup m.kind with
      | some kind =>
          rw [List.filter_cons_of_neg (by simp [hkind])] at h
          have hname : ((m.withoutSilent.childFor? "name").getD m.withoutSilent).text source =
              ((m.childFor? "name").getD m).text source := by
            rw [ConcreteNode.childFor?_withoutSilent hm.field]
            cases m.childFor? "name" <;> simp
          simp only [ih hns h, hname, ConcreteNode.build_withoutSilent]
      | none =>
          rw [List.filter_cons_of_pos (by simp [hkind])] at h
          obtain ⟨hfirst, hrest⟩ := List.forall_mem_cons.mp h
          simp only
          rw [hfirst, ih hns hrest]

theorem convertParameterList_withoutSilent {block : ConcreteNode}
    (haside : ∀ written ∈ blockParameters? block, ∀ m ∈ written.parts, m.SilentAside)
    (h : ∀ m ∈ unnamedParameters block, Unmoved source m) :
    convertParameterList source (blockParameters? block.withoutSilent) =
      (convertParameterList source (blockParameters? block)).map parametersWithoutSilent := by
  rw [unnamedParameters] at h
  rw [ConcreteNode.blockParameters?_withoutSilent]
  cases hwritten : blockParameters? block with
  | none => rfl
  | some written =>
      rw [hwritten] at h
      have hparameters := convertParameters_withoutSilent (haside written hwritten) h
      rw [Option.map_some, convertParameterList, convertParameterList, ConcreteNode.parts_withoutSilent, hparameters]
      cases convertParameters source written.parts <;> rfl

/-- Of a call the conversion reads the ends of its arguments as well, where the parentheses may stand. -/
theorem convert_call_withoutSilent (hform : n.form = .call) (haside : n.Everywhere SilentAside)
    (h : ∀ m ∈ expressions source n, Unmoved source m) : Unmoved source n := by
  rw [expressions, hform] at h
  simp only [callParts, List.forall_mem_append] at h
  obtain ⟨⟨hreceiver, harguments⟩, hblocks⟩ := h
  have hfield := haside.here.field
  rw [Unmoved, convert_call (by rw [ConcreteNode.form_withoutSilent, hform]), convert_call hform,
    ConcreteNode.childFor?_withoutSilent hfield, convertPart_withoutSilent hreceiver,
    argumentParts_withoutSilent haside.here, convertAll_withoutSilent harguments,
    ConcreteNode.childFor?_withoutSilent hfield]
  simp only [callNode_withoutSilent haside.here (kind_of_form_call hform)]
  cases hblock : n.childFor? "block" with
  | none => rfl
  | some block =>
      rw [hblock] at hblocks
      obtain ⟨hunnamed, hstatements⟩ := List.forall_mem_append.mp hblocks
      have hinner := haside.of_child (ConcreteNode.childFor?_eq_some hblock).1
      have hunder : ∀ written ∈ blockParameters? block, ∀ m ∈ written.parts, m.SilentAside := by
        intro written hwritten m hm
        have hlist := block.parts_sublist.subset (ConcreteNode.mem_blockParameters? hwritten).1
        exact ((hinner.of_child hlist).of_child (written.parts_sublist.subset hm)).here
      have hparameters := convertParameterList_withoutSilent hunder hunnamed
      have hbody := convertAll_withoutSilent hstatements
      rw [← ConcreteNode.blockStatements_withoutSilent] at hbody
      simp only [Option.map_some, hparameters, hbody]
      cases convertParameterList source (blockParameters? block) with
      | error e => rfl
      | ok parameters =>
          simp only [Except.map, bind, Except.bind, blockNode_withoutSilent]

/-- The conversion of a node depends on silent nodes only as far as those of its expressions do. -/
theorem convert_withoutSilent_of_expressions (haside : n.Everywhere SilentAside)
    (h : ∀ m ∈ expressions source n, Unmoved source m) : Unmoved source n := by
  have hfield := haside.here.field
  cases hform : n.form with
  | call => exact convert_call_withoutSilent hform haside h
  | pair =>
      rw [expressions, hform] at h
      obtain ⟨hkey, hvalue⟩ := List.forall_mem_append.mp h
      rw [Unmoved, convert_pair (by rw [ConcreteNode.form_withoutSilent, hform]), convert_pair hform,
        ConcreteNode.childFor?_withoutSilent hfield, convertPart_withoutSilent hkey,
        ConcreteNode.childFor?_withoutSilent hfield, convertPart_withoutSilent hvalue]
      simp only [ConcreteNode.build_withoutSilent]
  | scope =>
      rw [expressions, hform] at h
      have hname : scopeName source n.withoutSilent = scopeName source n := by
        rw [scopeName, scopeName, ConcreteNode.childFor?_withoutSilent hfield]
        cases n.childFor? "name" <;> simp
      rw [Unmoved, convert_scope (by rw [ConcreteNode.form_withoutSilent, hform]), convert_scope hform,
        ConcreteNode.childFor?_withoutSilent hfield, convertPart_withoutSilent h, hname]
      simp only [ConcreteNode.build_withoutSilent, topNode, ConcreteNode.start_withoutSilent]
  | statements =>
      rw [expressions, hform] at h
      rw [Unmoved, convert, convert]
      simp only [ConcreteNode.form_withoutSilent, hform, ConcreteNode.parts_withoutSilent, convertAll_withoutSilent h,
        ConcreteNode.build_withoutSilent]
  | string =>
      rw [expressions, hform] at h
      rw [Unmoved, convert, convert]
      simp only [ConcreteNode.form_withoutSilent, hform, plainString?_withoutSilent]
      cases hplain : plainString? source n with
      | some content => simp only [ConcreteNode.build_withoutSilent]
      | none =>
          rw [hplain] at h
          have hparts := @convertAll_withoutSilent source n.parts h
          simp only [ConcreteNode.parts_withoutSilent, hparts, ConcreteNode.build_withoutSilent]
  | unary =>
      rw [expressions, hform] at h
      rw [Unmoved, convert, convert]
      simp only [ConcreteNode.form_withoutSilent, hform, negativeLiteral?_withoutSilent haside.here]
      cases hliteral : negativeLiteral? source n with
      | some literal => rfl
      | none =>
          rw [hliteral] at h
          exact convertOther_withoutSilent h
  | other =>
      rw [expressions, hform] at h
      rw [Unmoved, convert, convert]
      simp only [ConcreteNode.form_withoutSilent, hform]
      exact convertOther_withoutSilent h
  | identifier =>
      rw [Unmoved, convert, convert]
      simp only [ConcreteNode.form_withoutSilent, hform, nameNode, ConcreteNode.build_withoutSilent,
        ConcreteNode.text_withoutSilent]
  | integer | float | symbol | key | constant | keyword | variableOf _ =>
      rw [Unmoved, convert, convert]
      simp only [ConcreteNode.form_withoutSilent, hform, ConcreteNode.build_withoutSilent,
        ConcreteNode.text_withoutSilent, ConcreteNode.kind_withoutSilent]

/-- The induction is on the expressions of a node, the nodes that are converted on the way to it: silent nodes are not
among them, so nothing has to be known of what a silent node would become. -/
theorem convert_withoutSilent (n : ConcreteNode) : n.Everywhere SilentAside → Unmoved source n := by
  induction n using standing.induct source with
  | case1 n ih =>
      intro haside
      refine convert_withoutSilent_of_expressions haside fun e he => ?_
      exact ih ⟨e, he⟩ (haside.of_inner (inner_expressions he))

end IdiomLint.Ruby

namespace IdiomLint.Analyzer

/-! ## Analyses -/

/-- A grammar that leaves the comments and empty statements out of its trees. -/
def silenced (parse : String → Parsed) (text : String) : Parsed :=
  { parse text with tree := (parse text).tree.withoutSilent }

theorem runRules_silenced {a : Analyzer} {parse : String → Parsed} {path text : String}
    (hgrammar : a.grammar = some (.ok parse))
    (h : Ruby.convert (Utf8.encode text) (parse text).tree.withoutSilent =
      Ruby.convert (Utf8.encode text) (parse text).tree) :
    ({ a with grammar := some (.ok (silenced parse)) } : Analyzer).runRules path text = a.runRules path text := by
  have hparse : Grammar.parse (.ok (silenced parse)) text = Grammar.parse (.ok parse) text := by
    simp only [Grammar.parse, Except.map, Except.mapError, Outcome.ofExcept, bind, Outcome.andThen, silenced, h]
  rw [runRules, runRules, hgrammar]
  simp only [hparse, @findingsFrom_congr { a with grammar := some (.ok (silenced parse)) } a rfl rfl]

end IdiomLint.Analyzer

namespace IdiomLint.Ruby

variable {source : List UInt8} {n : ConcreteNode}

open ConcreteNode (withoutSilent SilentAside)

/-- Without its comments and empty statements a tree is converted to the same syntax tree or fails in the same way, and
whatever rules look at it find the same. -/
theorem convert_ignores_silent (h : n.Everywhere SilentAside) :
    convert source n.withoutSilent = convert source n ∧
    ∀ (a : Analyzer) (parse : String → Parsed) (path text : String), a.grammar = some (.ok parse) →
      Utf8.encode text = source → (parse text).tree = n →
      ({ a with grammar := some (.ok (Analyzer.silenced parse)) } : Analyzer).runRules path text =
        a.runRules path text := by
  have hconvert : convert source n.withoutSilent = convert source n := convert_withoutSilent n h
  refine ⟨hconvert, fun a parse path text hgrammar hsource htree => ?_⟩
  subst hsource htree
  exact Analyzer.runRules_silenced hgrammar hconvert

/-- A source with comments among the arguments of a call and behind it, and an empty statement in its block. -/
def noisyText : String := "foo(a, # c\nb) \x7b ; x \x7d\n# end\n"

def noisyCall : ConcreteNode :=
  ⟨"call", true, 0, 21, none, [leaf "identifier" 0 3 (some "method"),
    ⟨"argument_list", true, 3, 13, some "arguments", [token "(" 3 none, leaf "identifier" 4 5 none,
      token "," 5 none, leaf "comment" 7 10 none, leaf "identifier" 11 12 none, token ")" 12 none]⟩,
    ⟨"block", true, 14, 21, some "block", [token "\x7b" 14 none, ⟨"block_body", true, 16, 19, some "body",
      [leaf "empty_statement" 16 17 none, leaf "identifier" 18 19 none]⟩, token "\x7d" 20 none]⟩]⟩

def noisyProgram : ConcreteNode := ⟨"program", true, 0, 28, none, [noisyCall, leaf "comment" 22 27 none]⟩

/-- An analyzer with the rule that takes every text for the program. -/
def noisyAnalyzer : Analyzer := ⟨some (.ok fun _ => ⟨noisyProgram, false⟩), [createListRule], {}⟩

theorem convert_ignores_silent_noisy :
    noisyProgram.Everywhere SilentAside ∧ noisyProgram.withoutSilent.weight + 3 = noisyProgram.weight ∧
    convert (Utf8.encode noisyText) noisyProgram.withoutSilent = convert (Utf8.encode noisyText) noisyProgram ∧
    ({ noisyAnalyzer with grammar := some (.ok (Analyzer.silenced fun _ => ⟨noisyProgram, false⟩)) } :
      Analyzer).runRules "/a.rb" noisyText = noisyAnalyzer.runRules "/a.rb" noisyText := by
  have haside : noisyProgram.Everywhere SilentAside := by decide
  obtain ⟨hconvert, hrules⟩ := @convert_ignores_silent (Utf8.encode noisyText) noisyProgram haside
  exact ⟨haside, by decide, hconvert, hrules noisyAnalyzer _ "/a.rb" noisyText rfl rfl rfl⟩

end IdiomLint.Ruby
