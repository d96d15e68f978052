import IdiomLint.Yaml.Scalar
import IdiomLint.Yaml.Token

/-!
# YAML nodes

What the tokens of a text describe: scalars, sequences and mappings, each with its sort. The nodes of a
document have numbers, and a collection refers to its parts by their numbers. So an alias is nothing but
the number of the node that it stands for, and since a collection has its number before its parts are
read, it can be a part of itself. A text holds one document at most.
-/

namespace IdiomLint.Yaml

/-- What a node holds. -/
inductive Content where
  | scalar (text : String)
  | sequence (items : List Nat)
  | mapping (entries : List (Nat × Nat))

/-- A node. -/
structure Node where
  kind : Kind
  content : Content

/-- The nodes of a document by their numbers. -/
abbrev Nodes := Array Node

namespace Nodes

/-- The sort of a node. -/
def kindAt (ns : Nodes) (n : Nat) : Kind := (ns[n]?.map Node.kind).getD .other

/-- What a node holds. -/
def contentAt (ns : Nodes) (n : Nat) : Content := (ns[n]?.map Node.content).getD (.sequence [])

/-- The nodes after one of them got another content. -/
def withContent (ns : Nodes) (n : Nat) (content : Content) : Nodes :=
  ns.modify n fun node => { node with content }

end Nodes

namespace Node

/-- What is known while nodes are read. -/
structure State where
  scan : Scan
  /-- The anchors met so far with their nodes. -/
  anchors : List (String × Nat) := []
  /-- The abbreviations for tags. -/
  handles : List (String × String) := []
  nodes : Nodes := #[]

/-- Reading nodes from tokens. -/
abbrev Read := StateT State (Except Fault)

/-- Read tokens. -/
def scanning {α : Type} (r : Scanning α) : Read α := do
  let s ← get
  let (a, scan) ← r.run s.scan
  set { s with scan }
  return a

/-- The next token. -/
def peek : Read Token := scanning Scan.peek

/-- Go past the next token. -/
def skip : Read Unit := scanning (discard Scan.take)

/-- Add a node. -/
def add (node : Node) : Read Nat :=
  modifyGet fun s => (s.nodes.size, { s with nodes := s.nodes.push node })

/-! ## Properties -/

/-- An anchor here, if there is one. -/
def anchor? : Read (Option String) := do
  match ← peek with
  | .anchor name =>
    skip
    return some name
  | _ => return none

/-- A tag here, if there is one: its abbreviation, if it has one, and the rest. -/
def tag? : Read (Option (Option String × String)) := do
  match ← peek with
  | .tag handle suffix =>
    skip
    return some (handle, suffix)
  | _ => return none

/-- A tag with its abbreviation written out. -/
def expanded : Option String × String → Read String
  | (none, suffix) => return suffix
  | (some handle, suffix) => do
    match (← get).handles.lookup handle with
    | some expansion => return expansion ++ suffix
    | none => refuse

/-- An anchor and a tag in either order. -/
def properties : Read (Option String × Option String) := do
  let first ← anchor?
  let tag ← tag?
  let second ← if first.isNone && tag.isSome then anchor? else pure none
  return (first.or second, ← tag.mapM expanded)

/-- Take note of the node of an anchor, which must be new. -/
def name (anchor : Option String) (n : Nat) : Read Unit := do
  if let some name := anchor then
    if ((← get).anchors.lookup name).isSome then refuse
    modify fun s => { s with anchors := (name, n) :: s.anchors }

/-- What an alias stands for. -/
def ofAlias (name : String) : Read Nat := do
  match (← get).anchors.lookup name with
  | some n => return n
  | none => refuse

/-! ## Nodes -/

/-- The sort given by a tag; the tag `!` gives none. -/
def kindOr (tag : Option String) (usual : Kind) : Kind :=
  match tag with
  | none => usual
  | some tag => if tag == "!" then usual else .ofTag tag

/-- The sort of a scalar. -/
def scalarKind (tag : Option String) (text : String) (plain : Bool) : Kind :=
  kindOr tag (if plain || tag == some "!" then Scalar.kindOf text else .text)

/-- A scalar. -/
def scalar (anchor tag : Option String) (text : String) (plain : Bool) : Read Nat := do
  let n ← add ⟨scalarKind tag text plain, .scalar text⟩
  name anchor n
  return n

/-- The node where nothing is written. -/
def empty : Read Nat := scalar none none "" true

/-- A collection. Its anchor is known while its parts are read. -/
def collection (anchor : Option String) (kind : Kind) (parts : Read Content) : Read Nat := do
  let n ← add ⟨kind, .sequence []⟩
  name anchor n
  let content ← parts
  modify fun s => { s with nodes := s.nodes.withContent n content }
  return n

mutual

/-- A node. Block collections are read only where they are allowed, and so are sequences that are not
indented under their key. -/
def node (block indentless : Bool) : Nat → Read Nat
  | 0 => refuse
  | fuel + 1 => do
    if let .alias name ← peek then
      skip
      return ← ofAlias name
    let (anchor, tag) ← properties
    -- The next token is looked at before the anchor is checked.
    let list := collection anchor (kindOr tag .list)
    let table := collection anchor (kindOr tag .table)
    match ← peek with
    | .scalar text plain =>
      skip
      scalar anchor tag text plain
    | .flowSequence => list do
      skip
      return .sequence (← flowItems true fuel)
    | .flowMapping => table do
      skip
      return .mapping (← flowEntries true fuel)
    | t =>
      if t == .blockEntry && indentless then
        list do return .sequence (← looseItems fuel)
      else if t == .blockSequence && block then list do
        skip
        return .sequence (← blockItems fuel)
      else if t == .blockMapping && block then table do
        skip
        return .mapping (← blockEntries fuel)
      else if anchor.isSome || tag.isSome then scalar anchor tag "" true
      else refuse

/-- A node, or the empty node before one of some tokens. -/
def nodeUnless (ends : List Token) (block indentless : Bool) : Nat → Read Nat
  | 0 => refuse
  | fuel + 1 => do
    if ends.contains (← peek) then empty else node block indentless fuel

/-- The items of a block sequence up to its end. -/
def blockItems : Nat → Read (List Nat)
  | 0 => refuse
  | fuel + 1 => do
    match ← peek with
    | .blockEntry =>
      skip
      let item ← nodeUnless [.blockEntry, .blockEnd] true false fuel
      return item :: (← blockItems fuel)
    | .blockEnd =>
      skip
      return []
    | _ => refuse

/-- The items of a sequence that is not indented under its key. -/
def looseItems : Nat → Read (List Nat)
  | 0 => refuse
  | fuel + 1 => do
    match ← peek with
    | .blockEntry =>
      skip
      let item ← nodeUnless [.blockEntry, .key, .value, .blockEnd] true false fuel
      return item :: (← looseItems fuel)
    | _ => return []

/-- The entries of a block mapping up to its end. -/
def blockEntries : Nat → Read (List (Nat × Nat))
  | 0 => refuse
  | fuel + 1 => do
    match ← peek with
    | .key =>
      skip
      let key ← nodeUnless [.key, .value, .blockEnd] true true fuel
      let value ← valueUnless [.key, .value, .blockEnd] true fuel
      return (key, value) :: (← blockEntries fuel)
    | .blockEnd =>
      skip
      return []
    | _ => refuse

/-- The value after a key: what follows its colon, or nothing. -/
def valueUnless (ends : List Token) (block : Bool) : Nat → Read Nat
  | 0 => refuse
  | fuel + 1 => do
    match ← peek with
    | .value =>
      skip
      nodeUnless ends block block fuel
    | _ => empty

/-- The only entry of a mapping that is written as an item of a flow sequence. -/
def soleEntry : Nat → Read Content
  | 0 => refuse
  | fuel + 1 => do
    skip
    let key ← nodeUnless [.value, .flowEntry, .flowSequenceEnd] false false fuel
    let value ← valueUnless [.flowEntry, .flowSequenceEnd] false fuel
    return .mapping [(key, value)]

/-- The items of a flow sequence up to its end. A key stands for a mapping with a single entry. -/
def flowItems (first : Bool) : Nat → Read (List Nat)
  | 0 => refuse
  | fuel + 1 => do
    if (← peek) == .flowSequenceEnd then
      skip
      return []
    if !first then
      if (← peek) == .flowEntry then skip else refuse
    match ← peek with
    | .flowSequenceEnd =>
      skip
      return []
    | .key =>
      let item ← collection none .table (soleEntry fuel)
      return item :: (← flowItems false fuel)
    | _ =>
      let item ← node false false fuel
      return item :: (← flowItems false fuel)

/-- The entries of a flow mapping up to its end. -/
def flowEntries (first : Bool) : Nat → Read (List (Nat × Nat))
  | 0 => refuse
  | fuel + 1 => do
    if (← peek) == .flowMappingEnd then
      skip
      return []
    if !first then
      if (← peek) == .flowEntry then skip else refuse
    match ← peek with
    | .flowMappingEnd =>
      skip
      return []
    | .key =>
      skip
      let key ← nodeUnless [.value, .flowEntry, .flowMappingEnd] false false fuel
      let value ← valueUnless [.flowEntry, .flowMappingEnd] false fuel
      return (key, value) :: (← flowEntries false fuel)
    | _ =>
      let key ← node false false fuel
      let value ← empty
      return (key, value) :: (← flowEntries false fuel)

end

/-! ## Documents -/

/-- The directives in front of a document. A version other than 1 is refused, and so is anything said
twice. The second argument is a bound on their number. -/
def directives (versionSeen : Bool) : Nat → Read Unit
  | 0 => refuse
  | fuel + 1 => do
    match ← peek with
    | .version major =>
      skip
      if versionSeen || major ≠ 1 then refuse
      directives true fuel
    | .handle name expansion =>
      skip
      if ((← get).handles.lookup name).isSome then refuse
      modify fun s => { s with handles := (name, expansion) :: s.handles }
      directives versionSeen fuel
    | .directive =>
      skip
      directives versionSeen fuel
    | _ => pure ()

/-- The abbreviations that need not be introduced. -/
def usualHandles : List (String × String) := [("!", "!"), ("!!", "tag:yaml.org,2002:")]

/-- The beginning of a document that begins with directives or a mark. -/
def openDocument (fuel : Nat) : Read Unit := do
  modify fun s => { s with handles := [] }
  directives false fuel
  if (← peek) ≠ .documentStart then refuse
  skip
  modify fun s => { s with handles := s.handles ++ usualHandles }

/-- Go past the marks that end a document. -/
def skipEnds : Nat → Read Unit
  | 0 => pure ()
  | fuel + 1 => do
    if (← peek) == .documentEnd then
      skip
      skipEnds fuel

/-- Does a token begin a document with directives or a mark, or end the text? -/
def isBorder : Token → Bool
  | .version _ | .handle _ _ | .directive | .documentStart | .streamEnd => true
  | _ => false

/-- Does nothing stand in a document before a token? -/
def endsDocument (t : Token) : Bool := isBorder t || t == .documentEnd

/-- The root of the first document of a text. -/
def root (fuel : Nat) : Read Nat := do
  if isBorder (← peek) then
    openDocument fuel
    if endsDocument (← peek) then empty else node true false fuel
  else
    modify fun s => { s with handles := usualHandles }
    node true false fuel

/-- The root of the only document of a text, if there is one. -/
def soleRoot (fuel : Nat) : Read (Option Nat) := do
  if (← peek) == .streamEnd then return none
  let n ← root fuel
  skipEnds fuel
  if (← peek) ≠ .streamEnd then
    openDocument fuel
    refuse
  return some n

/-- The nodes of a text, and the number of its root, if it has one. -/
def ofSource (source : Source) : Except Fault (Option Nat × Nodes) := do
  let start : State := { scan := .ofSource source }
  let (root, s) ← (soleRoot (16 * (source.chars.length + 4))).run start
  return (root, s.nodes)

end Node

end IdiomLint.Yaml
