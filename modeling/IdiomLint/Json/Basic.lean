import IdiomLint.Number.DecimalText
import IdiomLint.Text.Quoted

/-!
# JSON data

Integers and floating-point numbers are different values, and an object keeps its members in order.
`Json.literal` shows a value in messages.
-/

namespace IdiomLint

/-- A JSON value. -/
inductive Json where
  | null
  | bool (b : Bool)
  | int (n : Int)
  | float (x : Binary64)
  | str (s : String)
  | arr (items : List Json)
  | obj (members : List (String × Json))

namespace Json

instance : Inhabited Json := ⟨.null⟩

/-- The member of an object under a key. -/
def get? (j : Json) (key : String) : Option Json :=
  match j with
  | .obj members => members.lookup key
  | _ => none

/-- An array of texts. -/
def ofStrings (items : List String) : Json := .arr (items.map .str)

mutual

/-- A value as messages show it. -/
def literal : Json → String
  | .null => "None"
  | .bool b => if b then "True" else "False"
  | .int n => Integer.decimal n
  | .float x => x.text
  | .str s => Quoted.quoted s
  | .arr items => "[" ++ ", ".intercalate (literals items) ++ "]"
  | .obj members => "\x7b" ++ ", ".intercalate (literalMembers members) ++ "\x7d"

/-- The items of an array as messages show them. -/
def literals : List Json → List String
  | [] => []
  | j :: rest => literal j :: literals rest

/-- The members of an object as messages show them. -/
def literalMembers : List (String × Json) → List String
  | [] => []
  | (key, j) :: rest => (Quoted.quoted key ++ ": " ++ literal j) :: literalMembers rest

end

end Json

end IdiomLint
