import IdiomLint.Number.Instances
import IdiomLint.Yaml.Node

/-!
# Merging YAML mappings

A merge key takes the entries of other mappings into a mapping: those of the mapping that is its value,
or of all mappings in the sequence that is its value, the last one first. They come before the entries
of the mapping itself. A default key counts as a text from then on.
-/

namespace IdiomLint.Yaml

namespace Nodes

/-- The entries of a mapping. -/
def entriesAt (ns : Nodes) (n : Nat) : List (Nat × Nat) :=
  match ns.contentAt n with
  | .mapping entries => entries
  | _ => []

/-- How many parts all collections have together. -/
def partCount (ns : Nodes) : Nat :=
  (ns.toList.map fun node =>
    match node.content with
    | .scalar _ => 0
    | .sequence items => items.length
    | .mapping entries => entries.length).sum

/-- A bound on the steps of merging one inside the other: with each of the merge keys, the number of
entries may be multiplied. -/
def mergeBound (ns : Nodes) : Nat :=
  (ns.partCount + 2) ^ (ns.toList.countP (·.kind == .merge) + 2)

end Nodes

/-- Changing the nodes of a document. -/
abbrev Merging := StateT Nodes (Except Fault)

namespace Merging

/-- Give a mapping other entries. -/
def setEntries (n : Nat) (entries : List (Nat × Nat)) : Merging Unit :=
  modify fun ns => ns.withContent n (.mapping entries)

mutual

/-- Merge the mappings named by a mapping into it, its entries from an index on, after some that have
been merged already. The second argument is a bound on the steps. -/
def mergeFrom (n : Nat) : Nat → Nat → List (Nat × Nat) → Merging Unit
  | 0, _, _ => refuse
  | fuel + 1, index, merged => do
    let ns ← get
    let entries := ns.entriesAt n
    match entries[index]? with
    | none => if !merged.isEmpty then setEntries n (merged ++ entries)
    | some (key, value) =>
      match ns.kindAt key with
      | .merge =>
        -- The key is taken away first, so a mapping that is merged into itself comes to an end.
        setEntries n (entries.eraseIdx index)
        let new ← entriesOf value fuel
        mergeFrom n fuel index (merged ++ new)
      | .default =>
        set (ns.modify key fun node => { node with kind := .text })
        mergeFrom n fuel (index + 1) merged
      | _ => mergeFrom n fuel (index + 1) merged

/-- The entries that the value of a merge key adds. -/
def entriesOf (n : Nat) : Nat → Merging (List (Nat × Nat))
  | 0 => refuse
  | fuel + 1 => do
    match (← get).contentAt n with
    | .mapping _ =>
      mergeFrom n fuel 0 []
      return (← get).entriesAt n
    | .sequence items =>
      let parts ← items.mapM fun item => entriesOfItem item fuel
      return parts.reverse.flatten
    | .scalar _ => refuse

/-- The entries that an item in the value of a merge key adds. -/
def entriesOfItem (n : Nat) : Nat → Merging (List (Nat × Nat))
  | 0 => refuse
  | fuel + 1 => do
    match (← get).contentAt n with
    | .mapping _ =>
      mergeFrom n fuel 0 []
      return (← get).entriesAt n
    | _ => refuse

end

/-- Merge the mappings named by a mapping into it, and give all its entries. -/
def entries (bound n : Nat) : Merging (List (Nat × Nat)) := do
  mergeFrom n bound 0 []
  return (← get).entriesAt n

end Merging

end IdiomLint.Yaml
