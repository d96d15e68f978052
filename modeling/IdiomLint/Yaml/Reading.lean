import IdiomLint.Yaml.Document
import IdiomLint.Yaml.Merge

/-!
# Reading YAML

The document that a text denotes. A collection is empty when it is met and filled later, after all
collections that were met before it; so what is wrong with the parts of a collection shows after what is
wrong beside it. Of several entries of a table under one key the last one counts.
-/

namespace IdiomLint.Yaml

/-- The text of a scalar, or of what a mapping holds under its default key. The second argument is a
bound on the mappings on the way. -/
def Nodes.textAt (ns : Nodes) : Nat → Nat → Except Fault String
  | 0, _ => .error .endless
  | fuel + 1, n =>
    match ns.contentAt n with
    | .scalar text => .ok text
    | .sequence _ => .error .invalid
    | .mapping entries =>
      match entries.find? fun (key, _) => ns.kindAt key == .default with
      | some (_, value) => ns.textAt fuel value
      | none => .error .invalid

/-- Is a node a mapping? -/
def Nodes.isMapping (ns : Nodes) (n : Nat) : Bool :=
  match ns.contentAt n with
  | .mapping _ => true
  | _ => false

/-- The datum that a scalar node denotes. Its number makes an undefined number a key of its own. -/
def Nodes.datumAt (ns : Nodes) (n : Nat) : Except Fault Datum := do
  let kind := ns.kindAt n
  if kind == .other || kind == .merge || kind == .default then .error .invalid
  let text ← ns.textAt (ns.size + 1) n
  if kind == .moment && ns.isMapping n then .error .momentInMapping
  Scalar.datum kind (n + 1) text

/-- The items of a set in the order in which they are shown: natural numbers by size, others as they
come. -/
def orderedItems (items : List Datum) : List Datum :=
  let number? : Datum → Option Nat
    | .int n => if 0 ≤ n then some n.toNat else none
    | _ => none
  match items.mapM number? with
  | some ns => (ns.mergeSort).map fun (n : Nat) => .int n
  | none => items

namespace Document

/-- A document that is being read. -/
structure Draft where
  nodes : Nodes
  /-- What the nodes denote that have been met, by their numbers. -/
  met : Array (Option Ref)
  /-- The collections by the numbers of their nodes. -/
  collections : Array Collection
  /-- The nodes of the collections that are not filled yet, the last one first. -/
  waiting : List Nat := []

/-- Finding out what nodes denote. -/
abbrev Drafting := StateT Draft (Except Fault)

/-- Is a node of a sort of collections? -/
def isCollection : Kind → Bool
  | .list | .pairs | .set | .table => true
  | _ => false

/-- What a node denotes. A collection is filled later. -/
def denote (n : Nat) : Drafting Ref := do
  let s ← get
  if let some (some r) := s.met[n]? then return r
  let r ←
    -- What is wrong inside a collection does not show yet.
    if isCollection (s.nodes.kindAt n) then do
      modify fun s => { s with waiting := n :: s.waiting }
      pure (.collection n)
    else
      match s.nodes.datumAt n with
      | .ok d => pure (.scalar d)
      | .error f => throw f
  modify fun s => { s with met := s.met.modify n fun _ => some r }
  return r

/-- The pair in a mapping with a single entry. -/
def pairIn (n : Nat) : Drafting Ref := do
  match (← get).nodes.contentAt n with
  | .mapping [(key, value)] => return .pair (← denote key) (← denote value)
  | _ => refuse

/-- Add an entry to a table. -/
def addEntry (table : List (Datum × Ref)) (entry : Nat × Nat) : Drafting (List (Datum × Ref)) := do
  match ← denote entry.1 with
  -- A key is refused before its value is looked at.
  | .scalar key => return Datum.insert table key (← denote entry.2)
  | _ => refuse

/-- The entries of a mapping, merged ones included. -/
def tableIn (bound n : Nat) : Drafting (List (Datum × Ref)) := do
  let s ← get
  match (Merging.entries bound n).run s.nodes with
  | .error f => throw f
  | .ok (entries, nodes) =>
    set { s with nodes }
    entries.foldlM addEntry []

/-- The collection that a node denotes. -/
def collectionIn (bound n : Nat) : Drafting Collection := do
  let ns := (← get).nodes
  match ns.kindAt n, ns.contentAt n with
  | .list, .sequence items => return .list (← items.mapM denote)
  | .pairs, .sequence items => return .list (← items.mapM pairIn)
  | .set, .mapping _ => return .set (orderedItems ((← tableIn bound n).map (·.1)))
  | .table, .mapping _ => return .table (← tableIn bound n)
  | _, _ => refuse

/-- Fill a collection. -/
def fill (bound n : Nat) : Drafting Unit := do
  let c ← collectionIn bound n
  modify fun s => { s with collections := s.collections.modify n fun _ => c }

/-- Fill the collections that are waiting, then those that were met on the way, and so on. The first
argument is a bound on the number of rounds. -/
def fillAll (bound : Nat) : Nat → Drafting Unit
  | 0 => pure ()
  | fuel + 1 => do
    let s ← get
    if s.waiting.isEmpty then return
    set { s with waiting := [] }
    s.waiting.reverse.forM (fill bound)
    fillAll bound fuel

/-- The document with a node as its root. -/
def ofNodes (ns : Nodes) (root : Nat) : Except Fault Document := do
  let build : Drafting Ref := do
    let r ← denote root
    fillAll ns.mergeBound (ns.size + 1)
    return r
  let draft : Draft :=
    { nodes := ns, met := ns.map fun _ => none, collections := ns.map fun _ => .list [] }
  let (root, s) ← build.run draft
  return { root, collections := s.collections }

end Document

/-- The document that a text denotes. A text without a document denotes nothing. -/
def read (source : Source) : Except Fault Document := do
  match ← Node.ofSource source with
  | (some root, ns) => Document.ofNodes ns root
  | (none, _) => return { root := .scalar .null }

end IdiomLint.Yaml
