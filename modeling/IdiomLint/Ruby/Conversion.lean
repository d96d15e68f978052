import IdiomLint.Ruby.ConcreteTree
import IdiomLint.Ruby.ImplicitParameter
import IdiomLint.Ruby.IntegerLiteral
import IdiomLint.Text.Utf8

/-!
# From concrete trees to syntax trees

`convert` turns the concrete tree of a source into the syntax tree that rules look at. Literals, calls,
blocks and a few other forms have a shape of their own; a node of any other kind keeps its kind and
has its converted parts as children, or its text if it has none.
-/

namespace IdiomLint.Ruby

/-- The bytes of the source from `start` to `stop`. -/
def slice (source : List UInt8) (start stop : Nat) : List UInt8 :=
  (source.drop start).take (stop - start)

/-- The text of the source from `start` to `stop`. -/
def textBetween (source : List UInt8) (start stop : Nat) : String :=
  Utf8.decodeLossy (slice source start stop)

/-- A stretch of the source. -/
def spanBetween (source : List UInt8) (start stop : Nat) : Span :=
  ⟨start, stop, textBetween source start stop⟩

/-- The text of a concrete node. -/
def ConcreteNode.text (source : List UInt8) (n : ConcreteNode) : String :=
  textBetween source n.start n.stop

/-- The stretch of a concrete node. -/
def ConcreteNode.span (source : List UInt8) (n : ConcreteNode) : Span :=
  spanBetween source n.start n.stop

/-- A syntax node that covers what a concrete node covers. -/
def ConcreteNode.build (source : List UInt8) (n : ConcreteNode) (kind : String)
    (children : List Value) : Node :=
  ⟨kind, children, { extent := some (n.span source) }⟩

/-- A syntax node over several others, from the beginning of the first to the end of the last. -/
def nodeOver (source : List UInt8) (kind : String) (first : Node) (rest : List Node) : Node :=
  let last := (first :: rest).getLast (by simp)
  ⟨kind, (first :: rest).map Node.toValue,
    { extent := some (spanBetween source first.start.toNat last.stop.toNat) }⟩

/-- How the nodes of a kind are converted. -/
inductive Form where
  /-- A program or statements between parentheses. -/
  | statements
  | integer
  | float
  /-- A symbol after a colon. -/
  | symbol
  /-- A symbol before a colon. -/
  | key
  | string
  | constant
  /-- A constant inside another one. -/
  | scope
  | identifier
  | unary
  | pair
  | call
  /-- A word that stands for itself and has no children. -/
  | keyword
  /-- A variable, converted to a node of the given kind with its name. -/
  | variableOf (kind : String)
  /-- Any other kind. -/
  | other
  deriving DecidableEq

/-- The kinds that have a form of their own. -/
def forms : List (String × Form) :=
  [("program", .statements), ("parenthesized_statements", .statements), ("integer", .integer),
    ("float", .float), ("simple_symbol", .symbol), ("hash_key_symbol", .key), ("string", .string),
    ("constant", .constant), ("scope_resolution", .scope), ("identifier", .identifier),
    ("unary", .unary), ("pair", .pair), ("call", .call), ("nil", .keyword), ("true", .keyword),
    ("false", .keyword), ("self", .keyword), ("instance_variable", .variableOf "ivar"),
    ("class_variable", .variableOf "cvar"), ("global_variable", .variableOf "gvar")]

/-- How a concrete node is converted. -/
def ConcreteNode.form (n : ConcreteNode) : Form := (forms.lookup n.kind).getD .other

/-- The kinds of block parameters, with the kinds they are converted to. -/
def parameterKinds : List (String × String) :=
  [("identifier", "arg"), ("optional_parameter", "optarg"), ("splat_parameter", "restarg"),
    ("hash_splat_parameter", "kwrestarg"), ("block_parameter", "blockarg"),
    ("keyword_parameter", "kwarg"), ("destructured_parameter", "mlhs")]

/-- The value of a float literal. -/
def floatLiteral (text : String) : Value :=
  match Binary64.ofText? (String.ofList (text.toList.filter (· != '_'))) with
  | some x => .float x
  | none => .nil

/-- The value of an integer literal. -/
def integerValue (text : String) : Value :=
  match integerLiteral? text with
  | some n => .int n
  | none => .nil

/-- A number with its sign turned around. -/
def negate : Value → Value
  | .int n => .int (-n)
  | .float x => .float x.neg
  | _ => .nil

/-- The node of a name: a numbered parameter is a variable, any other name a call without receiver,
as local variables are not tracked. -/
def nameNode (source : List UInt8) (n : ConcreteNode) : Node :=
  let name := n.text source
  if 0 < parameterNumber name then n.build source "lvar" [.text name]
  else n.build source "send" [.nil, .text name]

/-- The node of a literal number after a minus sign, if that is what a unary expression is. -/
def negativeLiteral? (source : List UInt8) (n : ConcreteNode) : Option Node := do
  let operator ← n.childFor? "operator"
  let operand ← n.childFor? "operand"
  if operator.text source == "-" then
    match operand.form with
    | .integer => some (n.build source "int" [negate (integerValue (operand.text source))])
    | .float => some (n.build source "float" [negate (floatLiteral (operand.text source))])
    | _ => none
  else none

/-- The written text of a string without interpolation. -/
def plainString? (source : List UInt8) (n : ConcreteNode) : Option String :=
  if n.parts.all (·.kind == "string_content") then
    some (String.join (n.parts.map (·.text source)))
  else none

/-- The parentheses around the arguments of a call. -/
def parentheses? (source : List UInt8) (arguments : ConcreteNode) : Option (Span × Span) :=
  match arguments.children with
  | [] => none
  | first :: rest =>
    let last := (first :: rest).getLast (by simp)
    if first.kind == "(" && last.kind == ")" then some (first.span source, last.span source) else none

/-- Gather each run of pairs into one hash over it. `pairs` is the run so far, in reverse. -/
def gatherPairs (source : List UInt8) (pairs : List Node) : List Node → List Node
  | [] =>
    match pairs.reverse with
    | [] => []
    | first :: rest => [nodeOver source "hash" first rest]
  | n :: ns =>
    if n.kind == "pair" then gatherPairs source (n :: pairs) ns
    else
      match pairs.reverse with
      | [] => n :: gatherPairs source [] ns
      | first :: rest => nodeOver source "hash" first rest :: n :: gatherPairs source [] ns

/-- One statement stays as it is, several become one node, none is nothing. -/
def joinStatements (source : List UInt8) : List Node → Option Node
  | [] => none
  | [one] => some one
  | first :: rest => some (nodeOver source "begin" first rest)

/-- The statements in a part of a block: those inside a body, or the part itself. -/
def statementsOf (part : ConcreteNode) : List ConcreteNode :=
  if part.kind == "block_body" || part.kind == "body_statement" then part.namedChildren else [part]

/-- The concrete nodes of the statements of a block. -/
def blockStatements (block : ConcreteNode) : List ConcreteNode :=
  ((block.parts.filter (·.kind != "block_parameters")).flatMap statementsOf).filter (!·.isSilent)

/-- The concrete node of the written parameters of a block; of several the last one counts. -/
def blockParameters? (block : ConcreteNode) : Option ConcreteNode :=
  (block.parts.filter (·.kind == "block_parameters")).getLast?

/-- Nothing, or the node as a value. -/
def valueOf : Option Node → Value
  | none => .nil
  | some n => n.toValue

/-- Where the call itself ends, without its block: at the end of its last part. -/
def callEnd (n : ConcreteNode) : Nat :=
  let parts := [n.childFor? "receiver", n.childFor? "method", n.childFor? "arguments"].filterMap id
  if parts.isEmpty then n.stop else (parts.map (·.stop)).foldl max 0

/-- The node of a call without its block. -/
def callNode (source : List UInt8) (n : ConcreteNode) (receiver : Option Node)
    (arguments : List Node) : Node :=
  let method := match n.childFor? "method" with
    | some m => m.text source
    | none => "call"
  let kind := match n.childFor? "operator" with
    | some operator => if operator.text source == "&." then "csend" else "send"
    | none => "send"
  let delimiters := (n.childFor? "arguments").bind (parentheses? source)
  ⟨kind, valueOf receiver :: .text method :: (gatherPairs source [] arguments).map Node.toValue,
    { extent := some (spanBetween source n.start (callEnd n))
      opening := delimiters.map (·.1)
      closing := delimiters.map (·.2) }⟩

/-- The node of a call with a block. Without written parameters the body decides whether the block
has implicit ones. -/
def blockNode (source : List UInt8) (n : ConcreteNode) (call : Node)
    (parameters : Option (ConcreteNode × List Node)) (body : Option Node) : Except TreeError Node := do
  let args : Node := match parameters with
    | some (written, ps) => written.build source "args" (ps.map Node.toValue)
    | none => { kind := "args" }
  let implicit ← if args.children.isEmpty then implicitParameter body else .ok none
  match implicit with
  | some .it => .ok (n.build source "itblock" [call.toValue, .text "it", valueOf body])
  | some (.numbered k) => .ok (n.build source "numblock" [call.toValue, .int k, valueOf body])
  | none => .ok (n.build source "block" [call.toValue, args.toValue, valueOf body])

theorem weights_statementsOf_le (part : ConcreteNode) :
    ConcreteNode.weights (statementsOf part) ≤ part.weight := by
  rw [statementsOf]
  split
  · exact Nat.le_of_lt part.weights_namedChildren_lt
  · simp [ConcreteNode.weights]

theorem weights_flatMap_statementsOf_le (ns : List ConcreteNode) :
    ConcreteNode.weights (ns.flatMap statementsOf) ≤ ConcreteNode.weights ns := by
  induction ns with
  | nil => simp [ConcreteNode.weights]
  | cons n rest ih =>
    have := weights_statementsOf_le n
    simp only [List.flatMap_cons, ConcreteNode.weights_append, ConcreteNode.weights]
    omega

theorem weights_blockStatements_lt (block : ConcreteNode) :
    ConcreteNode.weights (blockStatements block) < block.weight := by
  have h1 := block.weights_parts_lt
  have h2 := ConcreteNode.weights_filter_le (·.kind != "block_parameters") block.parts
  have h3 := weights_flatMap_statementsOf_le (block.parts.filter (·.kind != "block_parameters"))
  have h4 := ConcreteNode.weights_filter_le (!·.isSilent)
    ((block.parts.filter (·.kind != "block_parameters")).flatMap statementsOf)
  rw [blockStatements]
  omega

theorem weight_blockParameters? {block parameters : ConcreteNode}
    (h : blockParameters? block = some parameters) : parameters.weight < block.weight := by
  have h1 := block.weights_parts_lt
  have h2 := List.mem_of_getLast? h
  have h3 := ConcreteNode.weight_le_weights (List.mem_filter.1 h2).1
  omega

mutual

/-- The syntax tree of a concrete node. -/
def convert (source : List UInt8) (n : ConcreteNode) : Except TreeError Node :=
  match n.form with
  | .statements => do
    have := n.weights_parts_lt
    let children ← convertAll source n.parts
    .ok (n.build source "begin" (children.map Node.toValue))
  | .integer => .ok (n.build source "int" [integerValue (n.text source)])
  | .float => .ok (n.build source "float" [floatLiteral (n.text source)])
  | .symbol => .ok (n.build source "sym" [.text ((n.text source).drop 1).copy])
  | .key => .ok (n.build source "sym" [.text (n.text source)])
  | .string =>
    match plainString? source n with
    | some content => .ok (n.build source "str" [.text content])
    | none => do
      have := n.weights_parts_lt
      let children ← convertAll source n.parts
      .ok (n.build source "dstr" (children.map Node.toValue))
  | .constant => .ok (n.build source "const" [.nil, .text (n.text source)])
  | .scope => do
    let parent ← match h : n.childFor? "scope" with
      | some scope =>
        have := ConcreteNode.weight_childFor? h
        convert source scope
      | none =>
        .ok ⟨"cbase", [], { extent := some (spanBetween source n.start (n.start + 2)) }⟩
    let name := match n.childFor? "name" with
      | some name => name.text source
      | none => ""
    .ok (n.build source "const" [parent.toValue, .text name])
  | .identifier => .ok (nameNode source n)
  | .unary =>
    match negativeLiteral? source n with
    | some literal => .ok literal
    | none =>
      have := n.weights_parts_lt
      convertOther source n
  | .pair => do
    let key ← match h : n.childFor? "key" with
      | some key =>
        have := ConcreteNode.weight_childFor? h
        (convert source key).map some
      | none => .ok none
    let value ← match h : n.childFor? "value" with
      | some value =>
        have := ConcreteNode.weight_childFor? h
        (convert source value).map some
      | none => .ok none
    .ok (n.build source "pair" [valueOf key, valueOf value])
  | .call => do
    let receiver ← match h : n.childFor? "receiver" with
      | some receiver =>
        have := ConcreteNode.weight_childFor? h
        (convert source receiver).map some
      | none => .ok none
    let arguments ← match h : n.childFor? "arguments" with
      | some arguments =>
        have := ConcreteNode.weight_childFor? h
        have := arguments.weights_parts_lt
        convertAll source arguments.parts
      | none => .ok []
    let call := callNode source n receiver arguments
    match h : n.childFor? "block" with
    | none => .ok call
    | some block => do
      have := ConcreteNode.weight_childFor? h
      have := weights_blockStatements_lt block
      let parameters ← match hp : blockParameters? block with
        | some written =>
          have := weight_blockParameters? hp
          have := written.weights_parts_lt
          (convertParameters source written.parts).map fun ps => some (written, ps)
        | none => .ok none
      let statements ← convertAll source (blockStatements block)
      blockNode source n call parameters (joinStatements source statements)
  | .keyword => .ok (n.build source n.kind [])
  | .variableOf kind => .ok (n.build source kind [.text (n.text source)])
  | .other =>
    have := n.weights_parts_lt
    convertOther source n
termination_by (n.weight, 1)

/-- A node without a form of its own: its converted parts, or its text. -/
def convertOther (source : List UInt8) (n : ConcreteNode) : Except TreeError Node :=
  if n.parts.isEmpty then .ok (n.build source n.kind [.text (n.text source)])
  else do
    have := n.weights_parts_lt
    let children ← convertAll source n.parts
    .ok (n.build source n.kind (children.map Node.toValue))
termination_by (n.weight, 0)

/-- Convert nodes one after the other. -/
def convertAll (source : List UInt8) (ns : List ConcreteNode) : Except TreeError (List Node) :=
  match ns with
  | [] => .ok []
  | n :: rest => do
    have := n.weight_pos
    let head ← convert source n
    let tail ← convertAll source rest
    .ok (head :: tail)
termination_by (ConcreteNode.weights ns, 2)
decreasing_by
  all_goals simp_all only [ConcreteNode.weights, Prod.lex_def]; omega

/-- Convert the parameters of a block one after the other. A parameter is known by its name, or by its
text if it has none. -/
def convertParameters (source : List UInt8) (ns : List ConcreteNode) :
    Except TreeError (List Node) :=
  match ns with
  | [] => .ok []
  | n :: rest => do
    have := n.weight_pos
    let head ← match parameterKinds.lookup n.kind with
      | some kind =>
        let named := (n.childFor? "name").getD n
        .ok (n.build source kind [.text (named.text source)])
      | none => convert source n
    let tail ← convertParameters source rest
    .ok (head :: tail)
termination_by (ConcreteNode.weights ns, 2)
decreasing_by
  all_goals simp_all only [ConcreteNode.weights, Prod.lex_def]; omega

end

end IdiomLint.Ruby
