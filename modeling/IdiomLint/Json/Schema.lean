import IdiomLint.Json.Basic

/-!
# Schemas

A schema says which form a JSON value must have. `Schema.violations` lists everything that is wrong
with a value: first the sort of the value, then what is wrong with its members in the order of the
schema, then the members that are missing, then those that are unknown.
-/

namespace IdiomLint

/-- A form of JSON values. -/
inductive Schema where
  /-- Any string. -/
  | string
  /-- One of some strings. -/
  | choice (options : List String)
  /-- An integer, also one written with a fraction of zero, not below a minimum. -/
  | integer (minimum : Nat)
  /-- A number, not below a minimum. -/
  | number (minimum : Nat)
  /-- An array whose items have a form. -/
  | array (items : Schema)
  /-- Any object. -/
  | anyObject
  /-- An object with known members only, some of which must be there. -/
  | object (properties : List (String × Schema)) (required : List String)

namespace Schema

/-- A step from a value to a part of it. -/
inductive Step where
  | key (name : String)
  | index (n : Nat)
  deriving DecidableEq

/-- What is wrong with a value. -/
inductive Cause where
  | wrongSort (j : Json) (sort : String)
  | tooSmall (j : Json) (minimum : Nat)
  | notAnOption (j : Json) (options : List String)
  | missing (name : String)
  | unknown (names : List String)

/-- What is wrong, and where. -/
structure Violation where
  path : List Step
  cause : Cause

/-- The wording of what is wrong. -/
def Cause.message : Cause → String
  | .wrongSort j sort => j.literal ++ " is not of type " ++ Quoted.quoted sort
  | .tooSmall j minimum => j.literal ++ " is less than the minimum of " ++ Integer.decimal minimum
  | .notAnOption j options => j.literal ++ " is not one of " ++ (Json.ofStrings options).literal
  | .missing name => Quoted.quoted name ++ " is a required property"
  | .unknown names =>
    let list := ", ".intercalate (names.map Quoted.quoted)
    let verb := if names.length = 1 then "was" else "were"
    "Additional properties are not allowed (" ++ list ++ " " ++ verb ++ " unexpected)"

/-- Is a value an integer? -/
def isInteger : Json → Bool
  | .int _ => true
  | .float x => x.isIntegral
  | _ => false

/-- Is a value a number? -/
def isNumber : Json → Bool
  | .int _ => true
  | .float _ => true
  | _ => false

/-- Is a value a number below a minimum? -/
def isBelow (minimum : Nat) : Json → Bool
  | .int n => decide (n < minimum)
  | .float x => x.compareInt? minimum == some .lt
  | _ => false

/-- A cause at the place itself, unless a condition holds. -/
def check (ok : Bool) (cause : Cause) : List Violation := if ok then [] else [⟨[], cause⟩]

/-- Is a value one of some strings? -/
def isOption (options : List String) : Json → Bool
  | .str s => options.contains s
  | _ => false

/-- Violations found in a part, seen from the whole. -/
def within (step : Step) (vs : List Violation) : List Violation :=
  vs.map fun v => { v with path := step :: v.path }

/-- The names of the members of an object. -/
def memberNames : Json → List String
  | .obj members => members.map (·.1)
  | _ => []

/-- What is wrong with the names of an object's members. -/
def nameViolations (known required : List String) : Json → List Violation
  | .obj members =>
    let names := members.map (·.1)
    let unknown := names.filter fun name => !known.contains name
    (required.filter fun name => !names.contains name).map (fun name => ⟨[], .missing name⟩) ++
      check unknown.isEmpty (.unknown (unknown.mergeSort fun a b => decide (a ≤ b)))
  | _ => []

mutual

/-- Everything that is wrong with a value. -/
def violations : Schema → Json → List Violation
  | .string, .str _ => []
  | .string, j => [⟨[], .wrongSort j "string"⟩]
  | .choice options, j =>
    (match j with
      | .str _ => []
      | _ => [⟨[], .wrongSort j "string"⟩]) ++ check (isOption options j) (.notAnOption j options)
  | .integer minimum, j =>
    check (isInteger j) (.wrongSort j "integer") ++ check (!isBelow minimum j) (.tooSmall j minimum)
  | .number minimum, j =>
    check (isNumber j) (.wrongSort j "number") ++ check (!isBelow minimum j) (.tooSmall j minimum)
  | .array items, .arr js =>
    (js.zipIdx.map fun (j, n) => within (.index n) (violations items j)).flatten
  | .array _, j => [⟨[], .wrongSort j "array"⟩]
  | .anyObject, .obj _ => []
  | .anyObject, j => [⟨[], .wrongSort j "object"⟩]
  | .object properties required, .obj members =>
    memberViolations properties (.obj members) ++
      nameViolations (properties.map (·.1)) required (.obj members)
  | .object _ _, j => [⟨[], .wrongSort j "object"⟩]

/-- Everything that is wrong with the known members of an object, in the order of the schema. -/
def memberViolations : List (String × Schema) → Json → List Violation
  | [], _ => []
  | (name, s) :: rest, j =>
    (match j.get? name with
      | some member => within (.key name) (violations s member)
      | none => []) ++ memberViolations rest j

end

/-- Is one step beyond another? Names are compared by code points, places in an array as numbers. -/
def Step.isBeyond : Step → Step → Bool
  | .key a, .key b => decide (b < a)
  | .index a, .index b => decide (b < a)
  | _, _ => false

/-- Is one path beyond another? The first different step decides. -/
def pathBeyond : List Step → List Step → Bool
  | a :: as, b :: bs => if a = b then pathBeyond as bs else a.isBeyond b
  | _ :: _, [] => true
  | [], _ => false

/-- Is one violation more telling than another? It is if it lies less deep, or as deep but beyond the
other. -/
def Violation.outranks (v w : Violation) : Bool :=
  v.path.length < w.path.length || (v.path.length == w.path.length && pathBeyond v.path w.path)

/-- The most telling violation, the first one of several. -/
def mostTelling : List Violation → Option Violation
  | [] => none
  | v :: rest => some (rest.foldl (fun best w => if w.outranks best then w else best) v)

/-- A step as text. -/
def Step.text : Step → String
  | .key name => name
  | .index n => Integer.decimal n

/-- Does one list of texts come before another, or is it the same? -/
def textsBefore : List String → List String → Bool
  | [], _ => true
  | _ :: _, [] => false
  | a :: as, b :: bs => if a = b then textsBefore as bs else decide (a < b)

/-- Violations in the order of their paths, the steps being compared as texts. -/
def inPathOrder (vs : List Violation) : List Violation :=
  vs.mergeSort fun v w => textsBefore (v.path.map Step.text) (w.path.map Step.text)

end Schema

end IdiomLint
