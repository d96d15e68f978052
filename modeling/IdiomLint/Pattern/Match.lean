import IdiomLint.Pattern.Basic

/-!
# Matching

`Pattern.match?` matches a value and gives the captured parts by name. The matcher `run` writes each
capture into one growing table, also on the way to a failure; `meaning` says, by recursion on the
pattern and without a table, what the captured parts are.
-/

namespace IdiomLint

/-- Captured parts by name, each name once. -/
abbrev Bindings := List (String × Value)

namespace Bindings

/-- Bind a name, in the place of its former value if it has one. -/
def set (b : Bindings) (name : String) (v : Value) : Bindings :=
  if b.any (·.1 == name) then b.map fun entry => if entry.1 == name then (name, v) else entry
  else b ++ [(name, v)]

/-- Take over all entries of another table. -/
def update (b : Bindings) (entries : Bindings) : Bindings :=
  entries.foldl (fun table entry => set table entry.1 entry.2) b

/-- The part captured under a name. -/
def get? (b : Bindings) (name : String) : Option Value := List.lookup name b

end Bindings

namespace Pattern

mutual

/-- Match a value, writing captures into the table. The table that comes back with a failure may
hold captures made before it. -/
def run : Pattern → Value → Bindings → Bool × Bindings
  | .any, _, table => (true, table)
  | .rest, _, table => (true, table)
  | .value w, v, table => (Value.sameSort v w && Value.same v w, table)
  | .ref _ target, v, table => ((run target v []).1, table)
  | .capture name inner, v, table =>
    match run inner v table with
    | (true, table) => (true, table.set name v)
    | (false, table) => (false, table)
  | .node kind children, .node k vs layout, table =>
    if k == kind && layout.fixed then runChildren children vs table else (false, table)
  | .node _ _, _, table => (false, table)
  | .oneOf alternatives, v, table => runAlternatives alternatives v table
  | .never, _, table => (false, table)

/-- Match children one by one; a `rest` at the end takes all that remain. -/
def runChildren : List Pattern → List Value → Bindings → Bool × Bindings
  | [], [], table => (true, table)
  | [], _ :: _, table => (false, table)
  | p :: ps, vs, table =>
    if p.isRest && ps.isEmpty then
      match p with
      | .capture name _ => (true, table.set name (.tuple vs))
      | _ => (true, table)
    else
      match vs with
      | [] => (false, table)
      | v :: vs =>
        match run p v table with
        | (true, table) => runChildren ps vs table
        | (false, table) => (false, table)

/-- Take the first alternative that matches; each is tried with a table of its own. -/
def runAlternatives : List Pattern → Value → Bindings → Bool × Bindings
  | [], _, table => (false, table)
  | p :: ps, v, table =>
    match run p v [] with
    | (true, captured) => (true, table.update captured)
    | (false, _) => runAlternatives ps v table

end

/-- The parts of a value that a pattern captures, if the value has its shape. -/
def match? (p : Pattern) (v : Value) : Option Bindings :=
  match run p v [] with
  | (true, table) => some table
  | (false, _) => none

/-- Does a value have the shape of a pattern? -/
def accepts (p : Pattern) (v : Value) : Bool := (p.match? v).isSome

mutual

/-- The meaning of a pattern: what it captures of a value, nothing if the value lacks its shape. -/
def meaning : Pattern → Value → Option Bindings
  | .any, _ => some []
  | .rest, _ => some []
  | .value w, v => if Value.sameSort v w && Value.same v w then some [] else none
  | .ref _ target, v => (meaning target v).map fun _ => []
  | .capture name inner, v => (meaning inner v).map (· ++ [(name, v)])
  | .node kind children, .node k vs layout =>
    if k == kind && layout.fixed then meaningChildren children vs else none
  | .node _ _, _ => none
  | .oneOf alternatives, v => meaningFirst alternatives v
  | .never, _ => none

/-- What the patterns of a list capture of children, matched by position. -/
def meaningChildren : List Pattern → List Value → Option Bindings
  | [], [] => some []
  | [], _ :: _ => none
  | p :: ps, vs =>
    if p.isRest && ps.isEmpty then
      match p with
      | .capture name _ => some [(name, .tuple vs)]
      | _ => some []
    else
      match vs with
      | [] => none
      | v :: vs => do
        let head ← meaning p v
        let tail ← meaningChildren ps vs
        some (head ++ tail)

/-- What the first pattern that matches captures. -/
def meaningFirst : List Pattern → Value → Option Bindings
  | [], _ => none
  | p :: ps, v => (meaning p v).or (meaningFirst ps v)

end

end Pattern

end IdiomLint
