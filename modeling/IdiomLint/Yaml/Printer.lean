import IdiomLint.Yaml.Page

/-!
# Writing YAML

`Yaml.render` writes a datum as blocks: one entry or item a line, nested tables two columns further,
lists not further than their key. Tables are written in the order of their keys.
-/

namespace IdiomLint.Yaml

/-- A floating-point number, which always has a point. -/
def floatText (x : Binary64) : String :=
  if x.isNaN then ".nan"
  else if !x.isFinite then (if x.negative then "-.inf" else ".inf")
  else
    let cs := x.text.toList
    if cs.contains '.' then x.text
    else String.ofList (cs.takeWhile (· != 'e') ++ ".0".toList ++ cs.dropWhile (· != 'e'))

/-- The items of a datum that is written as a sequence. -/
def items? : Datum → Option (List Datum)
  | .pair a b => some [a, b]
  | .list items => some items
  | .set items => some items
  | _ => none

/-- The text of a datum that is neither a sequence nor a table, and whether the text is the datum. -/
def scalarText : Datum → String × Bool
  | .null => ("null", false)
  | .bool b => (if b then "true" else "false", false)
  | .int n => (Integer.decimal n, false)
  | .float x => (floatText x, false)
  | .moment m => (m.shown, false)
  | .text s => (s, true)
  | .bytes bs => (Datum.bytesLiteral bs, true)
  | .pair _ _ | .list _ | .set _ | .table _ | .enclosing _ => ("", false)

/-- Write a datum that is neither a sequence nor a table. -/
def scalarOn (p : Page) (isKey : Bool) (indent : Nat) (d : Datum) : Page :=
  match scalarText d with
  | (text, true) => p.scalar isKey indent text
  | (text, false) => p.plain (!isKey) indent text.toList

/-- How long the name of the sort of a key is. -/
def sortLength : Datum → Nat
  | .null => 6
  | .bool _ => 6
  | .float _ => 7
  | .moment _ => 11
  | _ => 5

/-- Does a key fit before its colon? It must be short, not empty, and on one line. -/
def isSimpleKey (d : Datum) : Bool :=
  let cs := (scalarText d).1.toList
  sortLength d + cs.length < 128 && !cs.isEmpty && !cs.any isBreak

/-- Do all entries have texts as keys? -/
def hasTextKeys (entries : List (Datum × Datum)) : Bool :=
  entries.all fun
    | (.text _, _) => true
    | _ => false

/-- Does an entry come before another, or at the same place? -/
def entryBefore (a b : Datum × Datum) : Bool :=
  match a.1, b.1 with
  | .text s, .text t => decide (s ≤ t)
  | _, _ => true

/-- The entries of a table in the order in which they are written. -/
def sortEntries (entries : List (Datum × Datum)) : List (Datum × Datum) :=
  if hasTextKeys entries then entries.mergeSort entryBefore else entries

/-- Write a datum into an open block at a column. `inTable` says that it is the value of a table. The
first argument is a bound on the nesting. -/
def nodeOn : Nat → Nat → Bool → Page → Datum → Page
  | 0, _, _, p, _ => p
  | _ + 1, _, _, p, .table [] => (p.mark "\x7b" true false).mark "\x7d" false false
  | fuel + 1, column, _, p, .table entries =>
    tableOn fuel (column + 2) p (sortEntries entries)
  | fuel + 1, column, inTable, p, d =>
    match items? d with
    | some [] => (p.mark "[" true false).mark "]" false false
    | some items =>
      let column := if inTable && !p.fresh then column else column + 2
      items.foldl (fun p d => nodeOn fuel column false ((p.indentTo column).mark "-" true true) d) p
    | none => scalarOn p false (column + 2) d
where
  /-- Write the entries of a table at a column. -/
  tableOn (fuel column : Nat) (p : Page) (entries : List (Datum × Datum)) : Page :=
    entries.foldl (fun p (key, d) =>
      let p := p.indentTo column
      let p := if isSimpleKey key then (scalarOn p true (column + 2) key).mark ":" false false
        else
          let p := scalarOn (p.mark "?" true true) false (column + 2) key
          (p.indentTo column).mark ":" true true
      nodeOn fuel column true p d) p

mutual

/-- How deep lists and tables are nested in a datum. -/
def depth : Datum → Nat
  | .pair a b => max (depth a) (depth b) + 1
  | .list items => depths items + 1
  | .set items => depths items + 1
  | .table entries => entryDepths entries + 1
  | _ => 1

/-- The greatest depth of some data. -/
def depths : List Datum → Nat
  | [] => 0
  | d :: rest => max (depth d) (depths rest)

/-- The greatest depth in some entries. -/
def entryDepths : List (Datum × Datum) → Nat
  | [] => 0
  | (_, d) :: rest => max (depth d) (entryDepths rest)

end

/-- A table as YAML text. -/
def render (entries : List (Datum × Datum)) : String :=
  let p := nodeOn.tableOn (entryDepths entries + 1) 0 {} (sortEntries entries)
  (p.indentTo 0).text

end IdiomLint.Yaml
