import IdiomLint.Proofs.Ruby.Shape

/-!
# Conversions of repeated creations

Conversions of the nodes that a repeated creation is made of: symbols, calls with arguments only, and
blocks on an integer literal. Such a block stays a plain block as long as the search for implicit
parameters finds nothing in its statement (`Quiet`).
-/

namespace IdiomLint.Ruby

variable {source : List UInt8} {n c create block : ConcreteNode} {created : Node}

/-- The search for implicit parameters finds nothing in a tree. -/
def Quiet (v : Node) : Prop := ∀ stack, searchFrom 0 false (v :: stack) = searchFrom 0 false stack

theorem searchFrom_of_quiet {below : List Node} (h : ∀ w ∈ below, Quiet w) (stack : List Node) :
    searchFrom 0 false (below ++ stack) = searchFrom 0 false stack := by
  induction below with
  | nil => rfl
  | cons w below ih =>
      rw [List.forall_mem_cons] at h
      rw [List.cons_append, h.1, ih h.2]

theorem quiet_of_below {v : Node} {below : List Node} (hnumber : numberRead v = .ok 0)
    (hit : isItRead v = false) (hbelow : searchBelow v = .ok below) (h : ∀ w ∈ below, Quiet w) :
    Quiet v := by
  intro stack
  rw [searchFrom, ← searchFrom_of_quiet h stack]
  split
  · split
    · next e he => exact absurd (hbelow.symm.trans he) (by simp)
    · next found hfound => rw [Except.ok.inj (hbelow.symm.trans hfound)]
  · rw [hnumber]
    simp only
    split
    · next e he => exact absurd (hbelow.symm.trans he) (by simp)
    · next found hfound => rw [Except.ok.inj (hbelow.symm.trans hfound), hit]; rfl

theorem blockNode_of_quiet {call body : Node} (h : Quiet body) :
    blockNode source n call none (some body) =
      .ok (n.build source "block" [call.toValue, .node "args" [] {}, body.toValue]) := by
  have himplicit : implicitParameter (some body) = .ok none := by
    show (searchFrom 0 false [body] >>= _) = _
    rw [h, searchFrom]
    rfl
  unfold blockNode
  simp only [List.isEmpty_nil, if_true]
  rw [himplicit]
  rfl

/-- What a symbol after a colon becomes. -/
def symbolNode (source : List UInt8) (n : ConcreteNode) : Node :=
  n.build source "sym" [.text ((n.text source).drop 1).copy]

theorem convert_symbol (hform : n.form = .symbol) : convert source n = .ok (symbolNode source n) := by
  rw [convert, hform]
  rfl

theorem quiet_symbolNode (source : List UInt8) (n : ConcreteNode) : Quiet (symbolNode source n) :=
  @quiet_of_below _ [] rfl rfl rfl (by simp)

/-- What an integer literal becomes. -/
def integerNode (source : List UInt8) (n : ConcreteNode) : Node :=
  n.build source "int" [integerValue (n.text source)]

theorem convert_integer (hform : n.form = .integer) : convert source n = .ok (integerNode source n) := by
  rw [convert, hform]
  rfl

theorem quiet_integerNode (source : List UInt8) (n : ConcreteNode) : Quiet (integerNode source n) := by
  rw [integerNode, integerValue]
  split <;> exact @quiet_of_below _ [] rfl rfl rfl (by simp)

theorem convert_name (hform : n.form = .identifier) :
    convert source n = .ok (nameNode source n) := by
  rw [convert, hform]

/-- What a block on an integer literal becomes. -/
def repeatNode (source : List UInt8) (n c : ConcreteNode) (created : Node) : Node :=
  n.build source "block"
    [(callNode source n (some (integerNode source c)) []).toValue, .node "args" [] {}, created.toValue]

/-- Only the literal counts that the block hangs off. -/
theorem quiet_repeatNode (source : List UInt8) (n c : ConcreteNode) (created : Node) :
    Quiet (repeatNode source n c created) :=
  quiet_of_below rfl rfl rfl (List.forall_mem_singleton.mpr (quiet_integerNode _ _))

theorem convertAll_one {v : Node} (h : convert source n = .ok v) : convertAll source [n] = .ok [v] := by
  rw [convertAll, h, convertAll_nil]
  rfl

/-- A block on an integer literal, with one statement and no parameters. -/
theorem convert_repeat (hform : n.form = .call) (hreceiver : n.childFor? "receiver" = some c)
    (hc : c.form = .integer) (harguments : argumentParts n = [])
    (hblock : n.childFor? "block" = some block) (hparameters : blockParameters? block = none)
    (hstatements : blockStatements block = [create]) (hcreate : convert source create = .ok created)
    (hquiet : Quiet created) :
    convert source n = .ok (repeatNode source n c created) := by
  have hbody := convertAll_one hcreate
  rw [convert_call hform, hreceiver, harguments, hblock, convertPart, convert_integer hc, convertAll_nil]
  show (convertParameterList source (blockParameters? block) >>= fun parameters =>
    convertAll source (blockStatements block) >>= fun statements =>
      blockNode source n _ parameters (joinStatements source statements)) = _
  rw [hparameters, hstatements, hbody]
  exact blockNode_of_quiet hquiet

/-- A call with arguments only. -/
theorem convert_create {arguments : List Node} (hform : n.form = .call)
    (hreceiver : n.childFor? "receiver" = none) (hblock : n.childFor? "block" = none)
    (hall : convertAll source (argumentParts n) = .ok arguments) :
    convert source n = .ok (callNode source n none arguments) := by
  rw [convert_call hform, hreceiver, hblock, hall]
  rfl

/-- A call with a symbol as its only argument. -/
theorem convert_createSymbol {s : ConcreteNode} (hform : n.form = .call)
    (hreceiver : n.childFor? "receiver" = none) (hblock : n.childFor? "block" = none)
    (harguments : argumentParts n = [s]) (hs : s.form = .symbol) :
    convert source n = .ok (callNode source n none [symbolNode source s]) := by
  apply convert_create hform hreceiver hblock
  rw [harguments]
  exact convertAll_one (convert_symbol hs)

/-- A program with one statement. -/
theorem convert_one {only : ConcreteNode} {v : Node} (hform : n.form = .statements) (hparts : n.parts = [only])
    (honly : convert source only = .ok v) : convert source n = .ok (n.build source "begin" [v.toValue]) := by
  rw [convert, hform]
  show (convertAll source n.parts >>= fun children => _) = _
  rw [hparts, convertAll_one honly]
  rfl

/-- A program with two statements. -/
theorem convert_two {first second : ConcreteNode} {v w : Node} (hform : n.form = .statements)
    (hparts : n.parts = [first, second]) (hfirst : convert source first = .ok v)
    (hsecond : convert source second = .ok w) :
    convert source n = .ok (n.build source "begin" [v.toValue, w.toValue]) := by
  rw [convert, hform]
  show (convertAll source n.parts >>= fun children => _) = _
  rw [hparts, convertAll, hfirst, convertAll, hsecond, convertAll_nil]
  rfl

/-! ## A block in a block -/

/-- A node without children. -/
def leaf (kind : String) (start stop : Nat) (field : Option String) : ConcreteNode :=
  ⟨kind, true, start, stop, field, []⟩

/-- A source with a block in the arguments of another one. -/
def nestedText : String := "3.times \x7b create :a, 2.times \x7b create :b \x7d \x7d"

def innerCreate : ConcreteNode :=
  ⟨"call", true, 31, 40, none, [leaf "identifier" 31 37 (some "method"),
    ⟨"argument_list", true, 38, 40, some "arguments", [leaf "simple_symbol" 38 40 none]⟩]⟩

def innerRepeat : ConcreteNode :=
  ⟨"call", true, 21, 42, none, [leaf "integer" 21 22 (some "receiver"),
    leaf "identifier" 23 28 (some "method"), ⟨"block", true, 29, 42, some "block", [innerCreate]⟩]⟩

def outerCreate : ConcreteNode :=
  ⟨"call", true, 10, 42, none, [leaf "identifier" 10 16 (some "method"),
    ⟨"argument_list", true, 17, 42, some "arguments",
      [leaf "simple_symbol" 17 19 none, innerRepeat]⟩]⟩

/-- The concrete tree of the source. -/
def outerRepeat : ConcreteNode :=
  ⟨"call", true, 0, 44, none, [leaf "integer" 0 1 (some "receiver"),
    leaf "identifier" 2 7 (some "method"), ⟨"block", true, 8, 44, some "block", [outerCreate]⟩]⟩

/-- The concrete tree of a block in a block can be converted. -/
theorem exists_convert_outerRepeat (source : List UInt8) :
    ∃ tree, convert source outerRepeat = .ok tree := by
  have hinner : ∃ v, convert source innerRepeat = .ok v ∧ v.kind = "block" ∧ Quiet v := by
    refine ⟨_, @convert_repeat source innerRepeat (leaf "integer" 21 22 (some "receiver"))
      innerCreate _ _ (by decide) rfl (by decide) rfl rfl rfl rfl
      (convert_createSymbol (by decide) rfl rfl rfl (by decide)) ?_, rfl, quiet_repeatNode _ _ _ _⟩
    exact quiet_of_below rfl rfl rfl (List.forall_mem_singleton.mpr (quiet_symbolNode _ _))
  obtain ⟨inner, hinner, hkind, hquiet⟩ := hinner
  have houter : convertAll source (argumentParts outerCreate) =
      .ok [symbolNode source (leaf "simple_symbol" 17 19 none), inner] := by
    show convertAll source [leaf "simple_symbol" 17 19 none, innerRepeat] = _
    rw [convertAll, convert_symbol (by decide), convertAll, hinner, convertAll_nil]
    rfl
  refine ⟨_, @convert_repeat source outerRepeat (leaf "integer" 0 1 (some "receiver"))
    outerCreate _ _ (by decide) rfl (by decide) rfl rfl rfl rfl
      (convert_create (by decide) rfl rfl houter) ?_⟩
  -- There are no pairs among the arguments.
  have hgather : gatherPairs source [] [symbolNode source (leaf "simple_symbol" 17 19 none), inner] =
      [symbolNode source (leaf "simple_symbol" 17 19 none), inner] := by
    simp [gatherPairs, hkind, symbolNode, ConcreteNode.build]
  have hbelow : searchBelow (callNode source outerCreate none
      [symbolNode source (leaf "simple_symbol" 17 19 none), inner]) =
      .ok [inner, symbolNode source (leaf "simple_symbol" 17 19 none)] := by
    rw [callNode, hgather]
    rfl
  exact quiet_of_below rfl rfl hbelow (by simp [hquiet, quiet_symbolNode])

/-! ## Calls with parentheses -/

/-- A sign of one byte. -/
def token (kind : String) (start : Nat) (field : Option String) : ConcreteNode :=
  ⟨kind, false, start, start + 1, field, []⟩

/-- A call with its arguments between parentheses, with the commas and comments among them. -/
def callWith (start nameStop stop : Nat) (arguments : List ConcreteNode) : ConcreteNode :=
  ⟨"call", true, start, stop, none, [leaf "identifier" start nameStop (some "method"),
    ⟨"argument_list", true, nameStop, stop, some "arguments",
      token "(" nameStop none :: arguments ++ [token ")" (stop - 1) none]⟩]⟩

/-- A comment, if there is one. -/
def commentAt (comment : Option (Nat × Nat)) : List ConcreteNode :=
  (comment.map fun place => leaf "comment" place.1 place.2 none).toList

/-- A block in braces, with a comment before its statement or without one. -/
def blockWith (start stop : Nat) (comment : Option (Nat × Nat)) (body : ConcreteNode) : ConcreteNode :=
  ⟨"block", true, start, stop, some "block", token "\x7b" start none :: commentAt comment ++
    [⟨"block_body", true, body.start, body.stop, some "body", [body]⟩, token "\x7d" (stop - 1) none]⟩

/-- A block on an integer literal of one digit. -/
def repeatWith (start stop : Nat) (comment : Option (Nat × Nat)) (body : ConcreteNode) : ConcreteNode :=
  ⟨"call", true, start, stop, none, [leaf "integer" start (start + 1) (some "receiver"),
    token "." (start + 1) (some "operator"), leaf "identifier" (start + 2) (start + 7) (some "method"),
    blockWith (start + 8) stop comment body]⟩

theorem convert_callWith {start nameStop stop : Nat} {arguments : List ConcreteNode} {vs : List Node}
    (h : convertAll source (argumentParts (callWith start nameStop stop arguments)) = .ok vs) :
    convert source (callWith start nameStop stop arguments) =
      .ok (callNode source (callWith start nameStop stop arguments) none vs) :=
  convert_create rfl rfl rfl h

/-- The comment is no part of the block. -/
theorem convert_repeatWith {start stop first nameStop last : Nat} {comment : Option (Nat × Nat)}
    {arguments : List ConcreteNode}
    (hbody : convert source (callWith first nameStop last arguments) = .ok created) (hquiet : Quiet created) :
    convert source (repeatWith start stop comment (callWith first nameStop last arguments)) =
      .ok (repeatNode source (repeatWith start stop comment (callWith first nameStop last arguments))
        (leaf "integer" start (start + 1) (some "receiver")) created) := by
  refine @convert_repeat source (repeatWith start stop comment (callWith first nameStop last arguments)) _ _
    (blockWith (start + 8) stop comment (callWith first nameStop last arguments)) created
    rfl rfl rfl rfl rfl ?_ ?_ hbody hquiet
  · cases comment <;> rfl
  · cases comment <;> rfl

/-- A call with two arguments, none of them a pair. -/
theorem quiet_callNode {start nameStop stop : Nat} {arguments : List ConcreteNode} {v w : Node}
    (hv : Quiet v) (hw : Quiet w) (hvkind : v.kind ≠ "pair") (hwkind : w.kind ≠ "pair") :
    Quiet (callNode source (callWith start nameStop stop arguments) none [v, w]) := by
  have hgather : gatherPairs source [] [v, w] = [v, w] := by
    simp [gatherPairs, hvkind, hwkind]
  have hparts : isItRead (callNode source (callWith start nameStop stop arguments) none [v, w]) = false ∧
      searchBelow (callNode source (callWith start nameStop stop arguments) none [v, w]) = .ok [w, v] := by
    rw [callNode, hgather]
    exact ⟨rfl, rfl⟩
  exact quiet_of_below rfl hparts.1 hparts.2 (by simp [hv, hw])

/-! ## A block before another statement -/

/-- A source with a block before another statement. -/
def blockText : String := "3.times \x7b create :user \x7d\nfoo\n"

def blockCreate : ConcreteNode :=
  ⟨"call", true, 10, 22, none, [leaf "identifier" 10 16 (some "method"),
    ⟨"argument_list", true, 17, 22, some "arguments", [leaf "simple_symbol" 17 22 none]⟩]⟩

def blockRepeat : ConcreteNode :=
  ⟨"call", true, 0, 24, none, [leaf "integer" 0 1 (some "receiver"), token "." 1 (some "operator"),
    leaf "identifier" 2 7 (some "method"), ⟨"block", true, 8, 24, some "block",
      [token "\x7b" 8 none, ⟨"block_body", true, 10, 22, some "body", [blockCreate]⟩,
        token "\x7d" 23 none]⟩]⟩

def blockProgram : ConcreteNode :=
  ⟨"program", true, 0, 29, none, [blockRepeat, leaf "identifier" 25 28 none]⟩

/-- The source with the replacement of the block. -/
def replacedText : String := "create_list :user, 3\nfoo\n"

def replacedCall : ConcreteNode :=
  ⟨"call", true, 0, 20, none, [leaf "identifier" 0 11 (some "method"),
    ⟨"argument_list", true, 12, 20, some "arguments",
      [leaf "simple_symbol" 12 17 none, token "," 17 none, leaf "integer" 19 20 none]⟩]⟩

def replacedProgram : ConcreteNode :=
  ⟨"program", true, 0, 25, none, [replacedCall, leaf "identifier" 21 24 none]⟩

theorem convert_blockRepeat (source : List UInt8) :
    convert source blockRepeat = .ok (repeatNode source blockRepeat (leaf "integer" 0 1 (some "receiver"))
      (callNode source blockCreate none [symbolNode source (leaf "simple_symbol" 17 22 none)])) := by
  refine @convert_repeat source blockRepeat (leaf "integer" 0 1 (some "receiver"))
    blockCreate _ _ (by decide) rfl (by decide) rfl rfl rfl rfl
    (convert_createSymbol (by decide) rfl rfl rfl (by decide)) ?_
  exact quiet_of_below rfl rfl rfl (List.forall_mem_singleton.mpr (quiet_symbolNode _ _))

/-- What the first program becomes. -/
def blockTree (source : List UInt8) : Node :=
  blockProgram.build source "begin"
    [(repeatNode source blockRepeat (leaf "integer" 0 1 (some "receiver"))
        (callNode source blockCreate none [symbolNode source (leaf "simple_symbol" 17 22 none)])).toValue,
      (nameNode source (leaf "identifier" 25 28 none)).toValue]

theorem convert_blockProgram (source : List UInt8) :
    convert source blockProgram = .ok (blockTree source) :=
  convert_two (by decide) rfl (convert_blockRepeat source) (convert_name (by decide))

/-- What the second program becomes. -/
def replacedTree (source : List UInt8) : Node :=
  replacedProgram.build source "begin"
    [(callNode source replacedCall none [symbolNode source (leaf "simple_symbol" 12 17 none),
        integerNode source (leaf "integer" 19 20 none)]).toValue,
      (nameNode source (leaf "identifier" 21 24 none)).toValue]

theorem convert_replacedProgram (source : List UInt8) :
    convert source replacedProgram = .ok (replacedTree source) := by
  refine convert_two (by decide) rfl ?_ (convert_name (by decide))
  apply convert_create (by decide) rfl rfl
  show convertAll source [leaf "simple_symbol" 12 17 none, leaf "integer" 19 20 none] = _
  rw [convertAll, convert_symbol (by decide), convertAll, convert_integer (by decide), convertAll_nil]
  rfl

/-! ## Creations of what belongs to others -/

/-- A call of `create` in parentheses, with a symbol of five bytes and maybe more after it. -/
def createCall (start stop : Nat) (more : List ConcreteNode) : ConcreteNode :=
  callWith start (start + 6) stop (leaf "simple_symbol" (start + 7) (start + 12) none :: more)

/-- What the call becomes. -/
def createNode (source : List UInt8) (start stop : Nat) (more : List ConcreteNode) (vs : List Node) : Node :=
  callNode source (createCall start stop more) none
    (symbolNode source (leaf "simple_symbol" (start + 7) (start + 12) none) :: vs)

theorem convert_createCall {start stop : Nat} {more parts : List ConcreteNode} {vs : List Node}
    (h : convertAll source parts = .ok vs) (hparts : argumentParts (createCall start stop more) =
      leaf "simple_symbol" (start + 7) (start + 12) none :: parts) :
    convert source (createCall start stop more) = .ok (createNode source start stop more vs) := by
  apply convert_callWith
  show convertAll source (argumentParts (createCall start stop more)) = _
  rw [hparts, convertAll, convert_symbol rfl, h]
  rfl

/-- A block that creates posts, maybe with a comment before the call. -/
def postRepeat (start stop : Nat) (comment : Option (Nat × Nat)) (call : Nat) : ConcreteNode :=
  repeatWith start stop comment (createCall call (call + 13) [])

/-- What the block becomes. -/
def postNode (source : List UInt8) (start stop : Nat) (comment : Option (Nat × Nat)) (call : Nat) : Node :=
  repeatNode source (postRepeat start stop comment call) (leaf "integer" start (start + 1) (some "receiver"))
    (createNode source call (call + 13) [] [])

theorem convert_postRepeat (source : List UInt8) (start stop : Nat) (comment : Option (Nat × Nat))
    (call : Nat) : convert source (postRepeat start stop comment call) =
      .ok (postNode source start stop comment call) := by
  refine convert_repeatWith (convert_createCall convertAll_nil rfl) ?_
  exact quiet_of_below rfl rfl rfl (List.forall_mem_singleton.mpr (quiet_symbolNode _ _))

/-- A block that creates owners of something, maybe with a comment after what they own. -/
def ownerRepeat (start stop call callStop : Nat) (owned : ConcreteNode) (comment : Option (Nat × Nat)) :
    ConcreteNode :=
  repeatWith start stop none
    (createCall call callStop (token "," (call + 12) none :: owned :: commentAt comment))

/-- What the block becomes. -/
def ownerNode (source : List UInt8) (start stop call callStop : Nat) (owned : ConcreteNode)
    (comment : Option (Nat × Nat)) (v : Node) : Node :=
  repeatNode source (ownerRepeat start stop call callStop owned comment)
    (leaf "integer" start (start + 1) (some "receiver"))
    (createNode source call callStop (token "," (call + 12) none :: owned :: commentAt comment) [v])

theorem convert_ownerRepeat {start stop call callStop : Nat} {owned : ConcreteNode}
    {comment : Option (Nat × Nat)} {v : Node} (howned : convert source owned = .ok v) (hquiet : Quiet v)
    (hkind : v.kind = "block")
    (hparts : argumentParts (createCall call callStop (token "," (call + 12) none :: owned :: commentAt comment)) =
      [leaf "simple_symbol" (call + 7) (call + 12) none, owned]) :
    convert source (ownerRepeat start stop call callStop owned comment) =
      .ok (ownerNode source start stop call callStop owned comment v) := by
  refine convert_repeatWith (convert_createCall (convertAll_one howned) hparts) ?_
  have hsymbol : "sym" ≠ "pair" := by decide
  exact quiet_callNode (quiet_symbolNode _ _) hquiet hsymbol (by rw [hkind]; decide)

/-- A call that creates a list, with a symbol of five bytes, a count of one digit and maybe more after it. -/
def listCall (start stop : Nat) (more : List ConcreteNode) : ConcreteNode :=
  callWith start (start + 11) stop (leaf "simple_symbol" (start + 12) (start + 17) none ::
    token "," (start + 17) none :: leaf "integer" (start + 19) (start + 20) none :: more)

/-- What the call becomes. -/
def listNode (source : List UInt8) (start stop : Nat) (more : List ConcreteNode) (vs : List Node) : Node :=
  callNode source (listCall start stop more) none
    (symbolNode source (leaf "simple_symbol" (start + 12) (start + 17) none) ::
      integerNode source (leaf "integer" (start + 19) (start + 20) none) :: vs)

theorem convert_listCall {start stop : Nat} {more parts : List ConcreteNode} {vs : List Node}
    (h : convertAll source parts = .ok vs)
    (hparts : argumentParts (listCall start stop more) = leaf "simple_symbol" (start + 12) (start + 17) none ::
      leaf "integer" (start + 19) (start + 20) none :: parts) :
    convert source (listCall start stop more) = .ok (listNode source start stop more vs) := by
  apply convert_callWith
  show convertAll source (argumentParts (listCall start stop more)) = _
  rw [hparts, convertAll, convert_symbol rfl, convertAll, convert_integer rfl, h]
  rfl

/-- A program of one call. -/
def callProgram (call : ConcreteNode) : ConcreteNode :=
  ⟨"program", true, 0, call.stop + 1, none, [call]⟩

/-- What the program becomes. -/
def programNode (source : List UInt8) (call : ConcreteNode) (v : Node) : Node :=
  (callProgram call).build source "begin" [v.toValue]

theorem convert_callProgram {call : ConcreteNode} {v : Node} (hparts : (callProgram call).parts = [call])
    (hcall : convert source call = .ok v) :
    convert source (callProgram call) = .ok (programNode source call v) :=
  convert_one rfl hparts hcall

end IdiomLint.Ruby
