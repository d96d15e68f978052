import IdiomLint.Proofs.Ruby.Alike
import IdiomLint.Proofs.Ruby.Repeats

/-!
# Blocks own their implicit parameters

A block without written parameters has the implicit ones that its body reads, and the blocks of calls inside
it are not part of what it reads: its implicit parameters stay the same whatever these blocks hold
(`carries_of_alike`). For the block that is the body of a lambda this fails (`lambda_changes_outer`).
-/

namespace IdiomLint.Ruby

variable {source source' : List UInt8} {n n' : ConcreteNode} {v v' : Node}

/-! ## The outer block -/

/-- The node is a block with the given implicit parameters. -/
def Carries (v : Node) : Option Implicit → Prop
  | some .it => v.kind = "itblock"
  | some (.numbered k) => v.kind = "numblock" ∧ v.children[1]? = some (.int k)
  | none => v.kind = "block"

/-- The block has no written parameters. -/
def Parameterless (block : ConcreteNode) : Prop :=
  ∀ written ∈ blockParameters? block, written.parts = []

theorem argsNode_of_parameterless {block : ConcreteNode} (hblock : Parameterless block)
    {parameters : Option (ConcreteNode × List Node)}
    (h : convertParameterList source (blockParameters? block) = .ok parameters) :
    (argsNode source parameters).children.isEmpty = true := by
  cases hwritten : blockParameters? block with
  | none =>
      rw [hwritten] at h
      cases h
      rfl
  | some written =>
      rw [hwritten, convertParameterList, hblock written hwritten, convertParameters] at h
      cases h
      rfl

/-- A block without written parameters has the implicit ones that its body reads. -/
theorem carries_of_blockNode {call : Node} {parameters : Option (ConcreteNode × List Node)}
    {body : Option Node} (hempty : (argsNode source parameters).children.isEmpty = true)
    (h : blockNode source n call parameters body = .ok v) :
    ∃ implicit, implicitParameter body = .ok implicit ∧ Carries v implicit := by
  unfold blockNode at h
  change (if (argsNode source parameters).children.isEmpty then _ else _) = _ at h
  rw [if_pos hempty] at h
  obtain ⟨implicit, himplicit, h⟩ := bind_eq_ok.mp h
  refine ⟨implicit, himplicit, ?_⟩
  cases implicit with
  | none =>
      cases h
      rfl
  | some parameter =>
      cases parameter with
      | it =>
          cases h
          rfl
      | numbered k =>
          cases h
          exact ⟨rfl, rfl⟩

theorem carries_of_convert {block : ConcreteNode} (hform : n.form = .call)
    (hblock : n.childFor? "block" = some block) (hnone : Parameterless block)
    (h : convert source n = .ok v) :
    ∃ statements implicit, convertAll source (blockStatements block) = .ok statements ∧
      implicitParameter (joinStatements source statements) = .ok implicit ∧ Carries v implicit := by
  rw [convert_call hform] at h
  obtain ⟨receiver, _, h⟩ := bind_eq_ok.mp h
  obtain ⟨arguments, _, h⟩ := bind_eq_ok.mp h
  rw [hblock] at h
  obtain ⟨parameters, hparameters, h⟩ := bind_eq_ok.mp h
  obtain ⟨statements, hstatements, h⟩ := bind_eq_ok.mp h
  obtain ⟨implicit, himplicit, hcarries⟩ :=
    carries_of_blockNode (argsNode_of_parameterless hnone hparameters) h
  exact ⟨statements, implicit, hstatements, himplicit, hcarries⟩

/-- Two calls with parameterless blocks whose statements differ in nothing but the blocks of calls inside
them are blocks with the same implicit parameters. -/
theorem carries_of_alike {block block' : ConcreteNode} (hform : n.form = .call) (hform' : n'.form = .call)
    (hblock : n.childFor? "block" = some block) (hblock' : n'.childFor? "block" = some block')
    (hnone : Parameterless block) (hnone' : Parameterless block')
    (halike : List.Forall₂ (Alike source source') (blockStatements block) (blockStatements block'))
    (h : convert source n = .ok v) (h' : convert source' n' = .ok v') :
    ∃ implicit, Carries v implicit ∧ Carries v' implicit := by
  obtain ⟨statements, implicit, hstatements, himplicit, hcarries⟩ :=
    carries_of_convert hform hblock hnone h
  obtain ⟨statements', implicit', hstatements', himplicit', hcarries'⟩ :=
    carries_of_convert hform' hblock' hnone' h'
  have hall := convertedAll_of_alike halike (fun _ _ _ hm _ _ hu hu' => converted_of_alike hm hu hu')
    hstatements hstatements'
  have hsame := implicitParameter_of_similar (@similar_joinStatements source source' _ _ hall.similar)
  rw [himplicit, himplicit', Except.ok.injEq] at hsame
  exact ⟨implicit, hcarries, hsame ▸ hcarries'⟩

/-! ### A block in a block -/

/-- A source with a block inside a block, and a word that the inner one reads. -/
def ownText (word : String) : String := "3.times \x7b foo \x7b " ++ word ++ " \x7d \x7d"

def ownRead : ConcreteNode := leaf "identifier" 16 18 none

def ownInner : ConcreteNode :=
  ⟨"call", true, 10, 20, none, [leaf "identifier" 10 13 (some "method"),
    ⟨"block", true, 14, 20, some "block", [token "\x7b" 14 none,
      ⟨"block_body", true, 16, 18, some "body", [ownRead]⟩, token "\x7d" 19 none]⟩]⟩

def ownBlock : ConcreteNode :=
  ⟨"block", true, 8, 22, some "block", [token "\x7b" 8 none,
    ⟨"block_body", true, 10, 20, some "body", [ownInner]⟩, token "\x7d" 21 none]⟩

def ownOuter : ConcreteNode :=
  ⟨"call", true, 0, 22, none, [leaf "integer" 0 1 (some "receiver"), token "." 1 (some "operator"),
    leaf "identifier" 2 7 (some "method"), ownBlock]⟩

/-- Whatever word the inner block reads, the outer call can be converted. -/
theorem exists_convert_ownOuter {implicit : Option Implicit}
    (hread : implicitParameter (some (nameNode source ownRead)) = .ok implicit) :
    ∃ v, convert source ownOuter = .ok v := by
  have hinner : ∃ v, convert source ownInner = .ok v ∧ Quiet v := by
    have hbody : convertAll source [ownRead] = .ok [nameNode source ownRead] := by
      rw [convertAll, convert_name (by decide), convertAll_nil]
      rfl
    have hconvert : convert source ownInner =
        blockNode source ownInner (callNode source ownInner none []) none
          (some (nameNode source ownRead)) := by
      rw [convert_call (by decide)]
      show (convertAll source [] >>= fun arguments => convertAll source [ownRead] >>= fun statements =>
        blockNode source ownInner (callNode source ownInner none arguments) none
          (joinStatements source statements)) = _
      rw [convertAll_nil, hbody]
      rfl
    rw [hconvert, blockNode]
    simp only [List.isEmpty_nil, if_true]
    rw [hread]
    cases implicit with
    | none => exact ⟨_, rfl, @quiet_of_below _ [] rfl rfl rfl (by simp)⟩
    | some parameter =>
        cases parameter with
        | it => exact ⟨_, rfl, @quiet_of_below _ [] rfl rfl rfl (by simp)⟩
        | numbered k => exact ⟨_, rfl, @quiet_of_below _ [] rfl rfl rfl (by simp)⟩
  obtain ⟨inner, hinner, hquiet⟩ := hinner
  exact ⟨_, @convert_repeat source ownOuter (leaf "integer" 0 1 (some "receiver")) ownInner _ _ (by decide)
    rfl (by decide) rfl rfl rfl rfl hinner hquiet⟩

/-- The inner block reads `it` in one source and another name in the other. -/
theorem alike_ownInner :
    Alike (Utf8.encode (ownText "it")) (Utf8.encode (ownText "up")) ownInner ownInner := by
  refine .call ⟨rfl, rfl, rfl, fun htoken => absurd htoken (by decide)⟩ rfl rfl (by decide) ?_
  show List.Forall₂ _ [leaf "identifier" 10 13 (some "method")] [leaf "identifier" 10 13 (some "method")]
  refine .cons (.node ⟨rfl, rfl, rfl, fun _ => by decide +kernel⟩ ?_ .nil) .nil
  exact fun hkind => absurd hkind (by decide)

theorem carries_of_alike_own : ∃ v v',
    ownOuter.form = .call ∧ ownOuter.childFor? "block" = some ownBlock ∧ Parameterless ownBlock ∧
    List.Forall₂ (Alike (Utf8.encode (ownText "it")) (Utf8.encode (ownText "up")))
      (blockStatements ownBlock) (blockStatements ownBlock) ∧
    convert (Utf8.encode (ownText "it")) ownOuter = .ok v ∧
    convert (Utf8.encode (ownText "up")) ownOuter = .ok v' ∧
    ∃ implicit, Carries v implicit ∧ Carries v' implicit := by
  have hform : ownOuter.form = .call := by decide
  have hnone : Parameterless ownBlock := by
    intro written hwritten
    cases hwritten
  have halike : List.Forall₂ (Alike (Utf8.encode (ownText "it")) (Utf8.encode (ownText "up")))
      (blockStatements ownBlock) (blockStatements ownBlock) := .cons alike_ownInner .nil
  have hit : (implicitParameter (some (nameNode (Utf8.encode (ownText "it")) ownRead))).toOption =
      some (some .it) := by decide +kernel
  have hup : (implicitParameter (some (nameNode (Utf8.encode (ownText "up")) ownRead))).toOption =
      some none := by decide +kernel
  obtain ⟨v, hv⟩ := exists_convert_ownOuter (toOption_eq_some.mp hit)
  obtain ⟨v', hv'⟩ := exists_convert_ownOuter (toOption_eq_some.mp hup)
  exact ⟨v, v', hform, rfl, hnone, halike, hv, hv',
    carries_of_alike hform hform rfl rfl hnone hnone halike hv hv'⟩

/-! ### A lambda in a block -/

/-- A source with a lambda inside a block, and a word that the lambda reads. -/
def lambdaText (word : String) : String :=
  "3.times \x7b create :user, at: -> \x7b " ++ word ++ " \x7d \x7d"

def lambdaRead : ConcreteNode := leaf "identifier" 33 35 none

def lambdaBody : ConcreteNode := ⟨"block_body", true, 33, 35, some "body", [lambdaRead]⟩

/-- The block that is the body of the lambda. -/
def lambdaBlock : ConcreteNode :=
  ⟨"block", true, 31, 37, some "body", [token "\x7b" 31 none, lambdaBody, token "\x7d" 36 none]⟩

def lambdaNode : ConcreteNode :=
  ⟨"lambda", true, 28, 37, some "value",
    [⟨"->", false, 28, 30, none, []⟩, lambdaBlock]⟩

def lambdaPair : ConcreteNode :=
  ⟨"pair", true, 24, 37, none,
    [leaf "hash_key_symbol" 24 26 (some "key"), token ":" 26 none, lambdaNode]⟩

def lambdaCreate : ConcreteNode :=
  ⟨"call", true, 10, 37, none, [leaf "identifier" 10 16 (some "method"),
    ⟨"argument_list", true, 17, 37, some "arguments",
      [leaf "simple_symbol" 17 22 none, token "," 22 none, lambdaPair]⟩]⟩

def lambdaOuterBlock : ConcreteNode :=
  ⟨"block", true, 8, 39, some "block", [token "\x7b" 8 none,
    ⟨"block_body", true, 10, 37, some "body", [lambdaCreate]⟩, token "\x7d" 38 none]⟩

def lambdaOuter : ConcreteNode :=
  ⟨"call", true, 0, 39, none, [leaf "integer" 0 1 (some "receiver"), token "." 1 (some "operator"),
    leaf "identifier" 2 7 (some "method"), lambdaOuterBlock]⟩

/-- A node without a form of its own that has one part. -/
theorem convert_single {p : ConcreteNode} {u : Node} (hform : n.form = .other) (hparts : n.parts = [p])
    (hp : convert source p = .ok u) : convert source n = .ok (n.build source n.kind [u.toValue]) := by
  have hall : convertAll source n.parts = .ok [u] := by
    rw [hparts, convertAll, hp, convertAll_nil]
    rfl
  have hempty : n.parts.isEmpty = false := by
    rw [hparts]
    rfl
  rw [convert, hform]
  show convertOther source n = _
  rw [convertOther, if_neg (by rw [hempty]; exact Bool.false_ne_true), hall]
  rfl

/-- What the pair with the lambda becomes. -/
def lambdaPairNode (source : List UInt8) : Node :=
  lambdaPair.build source "pair"
    [((leaf "hash_key_symbol" 24 26 (some "key")).build source "sym"
        [.text ((leaf "hash_key_symbol" 24 26 (some "key")).text source)]).toValue,
      (lambdaNode.build source "lambda" [(lambdaBlock.build source "block" [(lambdaBody.build source
        "block_body" [(nameNode source lambdaRead).toValue]).toValue]).toValue]).toValue]

/-- What the call with the lambda becomes. -/
def lambdaCreated (source : List UInt8) : Node :=
  callNode source lambdaCreate none
    [symbolNode source (leaf "simple_symbol" 17 22 none), lambdaPairNode source]

theorem convert_lambdaPair (source : List UInt8) :
    convert source lambdaPair = .ok (lambdaPairNode source) := by
  have hkey : convert source (leaf "hash_key_symbol" 24 26 (some "key")) =
      .ok ((leaf "hash_key_symbol" 24 26 (some "key")).build source "sym"
        [.text ((leaf "hash_key_symbol" 24 26 (some "key")).text source)]) := by
    rw [convert]
    rfl
  have hbody := @convert_single source lambdaBody _ _ (by decide) rfl
    (@convert_name source lambdaRead (by decide))
  have hblock := @convert_single source lambdaBlock _ _ (by decide) rfl hbody
  have hlambda := @convert_single source lambdaNode _ _ (by decide) rfl hblock
  rw [convert_pair (by decide)]
  show ((convert source (leaf "hash_key_symbol" 24 26 (some "key"))).map some >>= fun key =>
    (convert source lambdaNode).map some >>= fun value =>
      .ok (lambdaPair.build source "pair" [valueOf key, valueOf value])) = _
  rw [hkey, hlambda]
  rfl

theorem convert_lambdaCreate (source : List UInt8) :
    convert source lambdaCreate = .ok (lambdaCreated source) := by
  apply convert_create (by decide) rfl rfl
  show convertAll source [leaf "simple_symbol" 17 22 none, lambdaPair] = _
  rw [convertAll, convert_symbol (by decide), convertAll, convert_lambdaPair, convertAll_nil]
  rfl

theorem carries_lambdaOuter {implicit : Option Implicit}
    (h : (implicitParameter (some (lambdaCreated source))).toOption = some implicit) :
    ∃ v, convert source lambdaOuter = .ok v ∧ Carries v implicit := by
  have hconvert : ∃ call, convert source lambdaOuter =
      blockNode source lambdaOuter call none (some (lambdaCreated source)) := by
    refine ⟨callNode source lambdaOuter (some (integerNode source (leaf "integer" 0 1 (some "receiver")))) [],
      ?_⟩
    rw [convert_call (by decide)]
    show ((convert source (leaf "integer" 0 1 (some "receiver"))).map some >>= fun receiver =>
      convertAll source [] >>= fun arguments => convertAll source [lambdaCreate] >>= fun statements =>
        blockNode source lambdaOuter (callNode source lambdaOuter receiver arguments) none
          (joinStatements source statements)) = _
    rw [convert_integer (by decide), convertAll, convertAll, convert_lambdaCreate, convertAll_nil]
    rfl
  obtain ⟨call, hconvert⟩ := hconvert
  rw [hconvert, blockNode]
  simp only [List.isEmpty_nil, if_true]
  rw [toOption_eq_some.mp h]
  cases implicit with
  | none => exact ⟨_, rfl, rfl⟩
  | some parameter =>
      cases parameter with
      | it => exact ⟨_, rfl, rfl⟩
      | numbered k => exact ⟨_, rfl, rfl, rfl⟩

/-- The block of a lambda does not own its implicit parameters: with another word in it the outer block has
other ones. -/
theorem lambda_changes_outer : ∃ v v',
    Parameterless lambdaOuterBlock ∧ lambdaOuter.childFor? "block" = some lambdaOuterBlock ∧
    lambdaNode.childFor? "body" = some lambdaBlock ∧ blockStatements lambdaBlock = [lambdaRead] ∧
    convert (Utf8.encode (lambdaText "it")) lambdaOuter = .ok v ∧
    convert (Utf8.encode (lambdaText "up")) lambdaOuter = .ok v' ∧
    Carries v (some .it) ∧ Carries v' none := by
  obtain ⟨v, hv, hcarries⟩ :=
    @carries_lambdaOuter (Utf8.encode (lambdaText "it")) (some .it) (by decide +kernel)
  obtain ⟨v', hv', hcarries'⟩ :=
    @carries_lambdaOuter (Utf8.encode (lambdaText "up")) none (by decide +kernel)
  refine ⟨v, v', ?_, rfl, rfl, rfl, hv, hv', hcarries, hcarries'⟩
  intro written hwritten
  cases hwritten

end IdiomLint.Ruby
