import IdiomLint.CommandLine.Switch

/-!
# Arguments

What the single arguments of a command line are: values, switches or neither; and which values belong
to which switch. Names of switches may be abbreviated as long as one switch alone is meant, a value may
be attached to a name after `=`, and letters may stand together after one hyphen, the others also after
`=`. Two hyphens separate arguments and are never a value, so that a switch with two hyphens attached is
set without a value.
-/

namespace IdiomLint.CommandLine

/-- What an argument is. -/
inductive Argument where
  | value (text : String)
  /-- A switch given by its name, perhaps with a value after `=`. -/
  | named (s : Switch) (attached : Option String)
  /-- A switch given by its letter, and what follows the letter, whether after `=` or at once. -/
  | lettered (s : Switch) (afterEquals : Bool) (tail : List Char)
  /-- It looks like a switch, but there is none of that name. -/
  | unknown (text : String)
  deriving DecidableEq

/-- A switch that is set, with its values. It has none if only the separator is attached to it. -/
structure Setting where
  switch : Switch
  values : List String
  deriving DecidableEq

/-- The switches set by some arguments, and the arguments that have no meaning. -/
structure Group where
  settings : List Setting
  remaining : List String
  deriving DecidableEq

/-- The meaning of arguments that stand one after another. -/
def Group.append (g h : Group) : Group := ⟨g.settings ++ h.settings, g.remaining ++ h.remaining⟩

namespace Argument

/-- What separates the arguments that have a meaning from those that have none. -/
def separator : String := "--"

/-- Is a text a decimal number, perhaps with a line feed after it? -/
def isNumber (cs : List Char) : Bool :=
  let cs := if cs.getLast? == some '\n' then cs.dropLast else cs
  let isDigits (ds : List Char) : Bool := !ds.isEmpty && ds.all Digit.isDecimal
  match cs.dropWhile Digit.isDecimal with
  | '.' :: rest => isDigits rest
  | _ => isDigits cs

/-- An argument that begins with a hyphen but names no switch. It is a value if there is a space in
it. -/
def nameless (text : String) : Argument :=
  if text.toList.contains ' ' then .value text else .unknown text

/-- The part of a text after its first `=`. -/
def attached? (cs : List Char) : Option String :=
  match cs.dropWhile (· != '=') with
  | [] => none
  | _ :: rest => some (String.ofList rest)

/-- An argument with two hyphens before it, given without them. -/
def ofName (text : String) (cs : List Char) : Except UsageError Argument :=
  match Switch.candidates (cs.takeWhile (· != '=')) with
  | [] => .ok (nameless text)
  | [s] => .ok (.named s (attached? cs))
  | several => .error (.ambiguous text several)

/-- An argument with one hyphen before it, given as the letter after it and the rest. A negative
number is a value. -/
def ofLetter (text : String) (c : Char) (rest : List Char) : Argument :=
  match Switch.ofLetter? c, rest with
  | some s, '=' :: tail => .lettered s true tail
  | some s, tail => .lettered s false tail
  | none, _ => if isNumber (c :: rest) then .value text else nameless text

/-- What an argument is, as far as it can be told by itself. -/
def ofText (text : String) : Except UsageError Argument :=
  match text.toList with
  | '-' :: '-' :: cs => ofName text cs
  | '-' :: c :: rest => .ok (ofLetter text c rest)
  | _ => .ok (.value text)

/-- The values at the front, and every other argument with the values that follow it. -/
def withValues : List Argument → List String × List (Argument × List String)
  | [] => ([], [])
  | .value text :: rest =>
    let (values, more) := withValues rest
    (text :: values, more)
  | a :: rest =>
    let (values, more) := withValues rest
    ([], (a, values) :: more)

/-- Setting the values apart loses and reorders nothing. -/
theorem withValues_append (args : List Argument) :
    (withValues args).1.map value ++
      (withValues args).2.flatMap (fun g => g.1 :: g.2.map value) = args := by
  induction args with
  | nil => rfl
  | cons a rest ih => cases a <;> simp_all [withValues]

/-- The switch of a letter and those of the letters after it, all of which must stand for switches. -/
def cluster (s : Switch) : List Char → Except UsageError (List Setting)
  | [] => .ok [⟨s, []⟩]
  | c :: rest =>
    match Switch.ofLetter? c with
    | none => .error (.needlessValue s (String.ofList (c :: rest)))
    | some next => do return ⟨s, []⟩ :: (← cluster next rest)

/-- The values in the text attached to a switch. -/
def attachedValues (text : String) : List String := if text = separator then [] else [text]

/-- A switch given by its name, with an attached value and the values that follow it. It takes as many
of them as it has values. -/
def take (s : Switch) : Option String → List String → Except UsageError Group
  | none, values =>
    match s.arity, values with
    | .none, values => .ok ⟨[⟨s, []⟩], values⟩
    | _, [] => .error (.missingValue s)
    | .one, v :: remaining => .ok ⟨[⟨s, [v]⟩], remaining⟩
    | .several, values => .ok ⟨[⟨s, values⟩], []⟩
  | some v, values =>
    if s.arity = .none then .error (.needlessValue s v) else .ok ⟨[⟨s, attachedValues v⟩], values⟩

/-- What an argument means together with the values that follow it. -/
def group : Argument → List String → Except UsageError Group
  | .value text, values => .ok ⟨[], text :: values⟩
  | .unknown text, values => .ok ⟨[], text :: values⟩
  | .named s attached, values => take s attached values
  | .lettered s afterEquals tail, values =>
    if afterEquals && tail.isEmpty then .error (.needlessValue s "")
    else do return ⟨← cluster s tail, values⟩

end Argument

end IdiomLint.CommandLine
