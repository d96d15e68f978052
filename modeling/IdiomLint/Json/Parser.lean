import IdiomLint.Json.Token

/-!
# Reading JSON

`Json.parse?` reads a text as one JSON value. The arrays and objects that are still open are kept on a
stack while the tokens are worked through once.
-/

namespace IdiomLint.Json

/-- An array or object that is not complete, its parts so far in reverse. -/
inductive Frame where
  | array (items : List Json)
  /-- The last key has no value yet. -/
  | object (members : List (String × Json)) (key : String)

/-- Set a member of an object, given in reverse, in the place of an earlier one of the same key. -/
def setMember (members : List (String × Json)) (key : String) (j : Json) : List (String × Json) :=
  if members.any (·.1 == key) then
    members.map fun member => if member.1 == key then (key, j) else member
  else (key, j) :: members

mutual

/-- Read the tokens that follow a complete value. -/
def parseAfter (j : Json) : List Frame → List JsonToken → Option Json
  | [], [] => some j
  | .array items :: frames, .comma :: rest => parseValue (.array (j :: items) :: frames) rest
  | .array items :: frames, .closeArray :: rest =>
    parseAfter (.arr (j :: items).reverse) frames rest
  | .object members key :: frames, .comma :: .string next :: .colon :: rest =>
    parseValue (.object (setMember members key j) next :: frames) rest
  | .object members key :: frames, .closeObject :: rest =>
    parseAfter (.obj (setMember members key j).reverse) frames rest
  | _, _ => none
termination_by _ ts => ts.length

/-- Read the tokens of a value and all that follow it. -/
def parseValue (frames : List Frame) : List JsonToken → Option Json
  | .scalar j :: rest => parseAfter j frames rest
  | .string s :: rest => parseAfter (.str s) frames rest
  | .openArray :: .closeArray :: rest => parseAfter (.arr []) frames rest
  | .openArray :: rest => parseValue (.array [] :: frames) rest
  | .openObject :: .closeObject :: rest => parseAfter (.obj []) frames rest
  | .openObject :: .string key :: .colon :: rest => parseValue (.object [] key :: frames) rest
  | _ => none
termination_by ts => ts.length

end

/-- Read a text as one JSON value. -/
def parse? (s : String) : Option Json := (JsonToken.tokens? s.toList).bind (parseValue [])

end IdiomLint.Json
