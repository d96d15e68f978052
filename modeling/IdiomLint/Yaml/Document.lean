import IdiomLint.Datum

/-!
# YAML documents

What a text denotes. A collection can stand at several places of a document, and even in itself. So the
collections of a document have numbers, and what stands somewhere is a `Ref`: a scalar, or the number of
a collection. `Document.datum` unfolds what stands somewhere to a datum, up to the places where a
collection would be unfolded inside itself.
-/

namespace IdiomLint.Yaml

/-- What stands at a place of a document. -/
inductive Ref where
  | scalar (d : Datum)
  | pair (first second : Ref)
  | collection (n : Nat)

/-- A collection. The entries of a table stay in order. -/
inductive Collection where
  | list (items : List Ref)
  | set (items : List Datum)
  | table (entries : List (Datum × Ref))

namespace Collection

/-- Is there nothing in a collection? -/
def isEmpty : Collection → Bool
  | .list items => items.isEmpty
  | .set items => items.isEmpty
  | .table entries => entries.isEmpty

/-- Is a collection a table? -/
def isTable : Collection → Bool
  | .table _ => true
  | _ => false

/-- The name of a sort of collections in messages. -/
def sort : Collection → String
  | .list _ => Datum.sort (.list [])
  | .set _ => Datum.sort (.set [])
  | .table _ => Datum.sort (.table [])

end Collection

/-- A document. -/
structure Document where
  root : Ref
  /-- The collections by their numbers. -/
  collections : Array Collection := #[]

namespace Document

/-- The collection of a number. -/
def collectionAt (doc : Document) (n : Nat) : Collection := doc.collections[n]?.getD (.list [])

/-- The document after a collection was replaced. -/
def withCollection (doc : Document) (n : Nat) (c : Collection) : Document :=
  { doc with collections := doc.collections.modify n fun _ => c }

/-- The name of the sort of what stands somewhere. -/
def sort (doc : Document) : Ref → String
  | .scalar d => d.sort
  | .pair _ _ => Datum.sort (.pair .null .null)
  | .collection n => (doc.collectionAt n).sort

/-- Is there something to what stands somewhere? -/
def isSubstantial (doc : Document) : Ref → Bool
  | .scalar d => d.isSubstantial
  | .pair _ _ => true
  | .collection n => !(doc.collectionAt n).isEmpty

/-- What stands somewhere as the key of a table; lists, sets and tables can be none. -/
def key? : Ref → Option Datum
  | .scalar d => some d
  | .pair a b => do return .pair (← key? a) (← key? b)
  | .collection _ => none

/-- The entries of a table that stands somewhere. -/
def entries? (doc : Document) : Ref → Option (List (Datum × Ref))
  | .collection n =>
    match doc.collectionAt n with
    | .table entries => some entries
    | _ => none
  | _ => none

/-- The items of what stands somewhere: of a list its items, of a table its keys. -/
def items? (doc : Document) : Ref → Option (List Ref)
  | .scalar d => d.items?.map fun items => items.map .scalar
  | .pair a b => some [a, b]
  | .collection n =>
    match doc.collectionAt n with
    | .list items => some items
    | .set items => some (items.map .scalar)
    | .table entries => some (entries.map fun (key, _) => .scalar key)

/-! ## Unfolding -/

/-- The data that collections unfold to, by their numbers, as far as they are known. -/
abbrev Unfolded := Array (Option Datum)

/-- What stands somewhere, if the collections in it are unfolded already. -/
def settled? (known : Unfolded) : Ref → Option Datum
  | .scalar d => some d
  | .pair a b => do return .pair (← settled? known a) (← settled? known b)
  | .collection n => known[n]?.join

/-- What a collection unfolds to, if the collections in it are unfolded already. -/
def settledCollection? (known : Unfolded) : Collection → Option Datum
  | .list items => (items.mapM (settled? known)).map .list
  | .set items => some (.set items)
  | .table entries =>
    (entries.mapM fun (entry : Datum × Ref) => do
      return (entry.1, ← settled? known entry.2)).map .table

/-- Unfold what can be unfolded now, the last collection first. -/
def unfoldRound (doc : Document) (known : Unfolded) : Unfolded :=
  (List.range doc.collections.size).reverse.foldl (fun known n =>
    if (known[n]?.join).isSome then known
    else
      let d := settledCollection? known (doc.collectionAt n)
      known.setIfInBounds n d) known

/-- Unfold as long as anything can be unfolded. The first argument after the document is a bound on the
number of rounds. -/
def unfoldRounds (doc : Document) : Nat → Unfolded → Unfolded
  | 0, known => known
  | fuel + 1, known =>
    let next := doc.unfoldRound known
    if next.countP (·.isSome) == known.countP (·.isSome) then known else unfoldRounds doc fuel next

/-- The data that the collections unfold to in which none stands in itself. A collection that stands at
several places is unfolded once for all of them. -/
def unfolded (doc : Document) : Unfolded :=
  doc.unfoldRounds (doc.collections.size + 1) (doc.collections.map fun _ => none)

/-- What stands somewhere inside certain collections. The first argument after the known data is a bound
on the nesting. -/
def unfold (doc : Document) (known : Unfolded) : Nat → List Nat → Ref → Datum
  | _, _, .scalar d => d
  | 0, _, _ => .null
  | fuel + 1, around, .pair a b =>
    .pair (unfold doc known fuel around a) (unfold doc known fuel around b)
  | fuel + 1, around, .collection n =>
    match known[n]?.join with
    | some d => d
    | none =>
      let c := doc.collectionAt n
      if around.contains n then .enclosing c.isTable
      else
        match c with
        | .list items => .list (items.map (unfold doc known fuel (n :: around)))
        | .set items => .set items
        | .table entries =>
          .table (entries.map fun (key, r) => (key, unfold doc known fuel (n :: around) r))

/-- What stands somewhere, as a datum. A pair lies between one collection and the next at most. -/
def datum (doc : Document) (known : Unfolded) (r : Ref) : Datum :=
  doc.unfold known (2 * doc.collections.size + 2) [] r

end Document

end IdiomLint.Yaml
