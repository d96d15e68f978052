import IdiomLint.Moment
import IdiomLint.Number.DecimalText
import IdiomLint.Text.Hex
import IdiomLint.Text.Quoted

/-!
# Data

What a configuration file can hold. Nothing is said about the sort of a datum in advance, so a setting
may turn out to be of the wrong sort when it is used. `Datum.shown?` and `Datum.literal?` are the two
ways in which messages show data; they differ in the quotes around a text, and neither shows an integer
that has more digits than decimal text may have.
-/

namespace IdiomLint

/-- A datum. The entries of a table stay in order. -/
inductive Datum where
  | null
  | bool (b : Bool)
  | int (n : Int)
  | float (x : Binary64)
  | text (s : String)
  | bytes (bs : List UInt8)
  | moment (m : Moment)
  | pair (first second : Datum)
  | list (items : List Datum)
  | set (items : List Datum)
  | table (entries : List (Datum × Datum))
  /-- A list or table that the datum itself stands in. -/
  | enclosing (isTable : Bool)

namespace Datum

instance : Inhabited Datum := ⟨.null⟩

/-- The name of a sort of data in messages. -/
def sort : Datum → String
  | .null => "NoneType"
  | .bool _ => "bool"
  | .int _ => "int"
  | .float _ => "float"
  | .text _ => "str"
  | .bytes _ => "bytes"
  | .moment ⟨_, _, _, none⟩ => "date"
  | .moment _ => "datetime"
  | .pair _ _ => "tuple"
  | .list _ => "list"
  | .set _ => "set"
  | .table _ => "dict"
  | .enclosing isTable => if isTable then "dict" else "list"

/-! ## Showing data -/

/-- One byte between quotes. -/
def escapeByte (quote : Char) (b : UInt8) : List Char :=
  let c := Char.ofNat b.toNat
  if c = '\\' ∨ c = quote then ['\\', c]
  else if c = '\n' then ['\\', 'n']
  else if c = '\r' then ['\\', 'r']
  else if c = '\t' then ['\\', 't']
  else if 0x20 ≤ b ∧ b < 0x7F then [c]
  else '\\' :: 'x' :: Hex.digits 2 b.toNat

/-- Bytes between quotes. -/
def bytesLiteral (bs : List UInt8) : String :=
  let quote := Quoted.quoteFor (bs.map fun b => Char.ofNat b.toNat)
  String.ofList ('b' :: quote :: bs.flatMap (escapeByte quote) ++ [quote])

mutual

/-- A datum inside a list or a table. -/
def literal? : Datum → Option String
  | .null => some "None"
  | .bool b => some (if b then "True" else "False")
  | .int n => Integer.decimal? n
  | .float x => some x.text
  | .text s => some (Quoted.quoted s)
  | .bytes bs => some (bytesLiteral bs)
  | .moment m => some m.literal
  | .pair a b => do return "(" ++ (← literal? a) ++ ", " ++ (← literal? b) ++ ")"
  | .list items => do return "[" ++ ", ".intercalate (← literals? items) ++ "]"
  | .set [] => some "set()"
  | .set (d :: rest) => do
    return "\x7b" ++ ", ".intercalate ((← literal? d) :: (← literals? rest)) ++ "\x7d"
  | .table entries => do return "\x7b" ++ ", ".intercalate (← literalEntries? entries) ++ "\x7d"
  | .enclosing isTable => some (if isTable then "\x7b...\x7d" else "[...]")

/-- The items of a list. -/
def literals? : List Datum → Option (List String)
  | [] => some []
  | d :: rest => do return (← literal? d) :: (← literals? rest)

/-- The entries of a table. -/
def literalEntries? : List (Datum × Datum) → Option (List String)
  | [] => some []
  | (k, d) :: rest => do
    return ((← literal? k) ++ ": " ++ (← literal? d)) :: (← literalEntries? rest)

end

/-- A datum by itself: a text stands without quotes. -/
def shown? : Datum → Option String
  | .text s => some s
  | .moment m => some m.shown
  | d => literal? d

/-! ## Comparing data -/

/-- Is there something to a datum? Nothing, falsehood, zero and what is empty do not count. -/
def isSubstantial : Datum → Bool
  | .null => false
  | .bool b => b
  | .int n => n != 0
  | .float x => !x.sameInt 0
  | .text s => !s.isEmpty
  | .bytes bs => !bs.isEmpty
  | .list items => !items.isEmpty
  | .set items => !items.isEmpty
  | .table entries => !entries.isEmpty
  | .moment _ | .pair _ _ | .enclosing _ => true

/-- The number that a datum counts as: truth values count as 1 and 0. -/
def integer? : Datum → Option Int
  | .bool b => some (if b then 1 else 0)
  | .int n => some n
  | _ => none

/-- The items of a datum: of a list, a pair or a set its items, of a text its characters, of bytes their
numbers, of a table its keys. -/
def items? : Datum → Option (List Datum)
  | .text s => some (s.toList.map fun c => .text (String.singleton c))
  | .bytes bs => some (bs.map fun b => .int b.toNat)
  | .pair a b => some [a, b]
  | .list items => some items
  | .set items => some items
  | .table entries => some (entries.map (·.1))
  | _ => none

mutual

/-- Are two data equal? Numbers are compared by value whatever their sort, sets and tables without
regard to order. -/
def same : Datum → Datum → Bool
  | .null, .null => true
  | .text s, .text t => s == t
  | .bytes bs, .bytes others => bs == others
  | .moment m, .moment n => m.same n
  | .pair a b, .pair c d => same a c && same b d
  | .list items, .list others => sameItems items others
  | .set items, .set others => items.length == others.length && containedIn items others
  | .table entries, .table others => entries.length == others.length && sameEntries entries others
  | .float x, .float y => x.same y
  | .float x, d => (d.integer?.map x.sameInt).getD false
  | .bool b, .float x => x.sameInt (if b then 1 else 0)
  | .int n, .float x => x.sameInt n
  | .bool b, d => d.integer? == some (if b then 1 else 0)
  | .int n, d => d.integer? == some n
  | _, _ => false

/-- Are two lists equal item by item? -/
def sameItems : List Datum → List Datum → Bool
  | [], [] => true
  | d :: rest, e :: others => same d e && sameItems rest others
  | _, _ => false

/-- Does each item have an equal one among others? -/
def containedIn : List Datum → List Datum → Bool
  | [], _ => true
  | d :: rest, others => others.any (same d) && containedIn rest others

/-- Does each entry have an equal partner among others? -/
def sameEntries : List (Datum × Datum) → List (Datum × Datum) → Bool
  | [], _ => true
  | (k, d) :: rest, others =>
    others.any (fun (k', d') => same k k' && same d d') && sameEntries rest others

end

/-! ## Tables -/

/-- Are two data one key? An undefined number, which equals nothing, is the same key as itself. -/
def sameKey : Datum → Datum → Bool
  | .float x, .float y => x == y || x.same y
  | d, e => same d e

/-- The entry of a table under a text. -/
def lookup? {α : Type} (entries : List (Datum × α)) (key : String) : Option α :=
  entries.findSome? fun
    | (.text s, a) => if s == key then some a else none
    | _ => none

/-- Put something under a key. A key that is there already keeps its place. -/
def insert {α : Type} (entries : List (Datum × α)) (key : Datum) (a : α) : List (Datum × α) :=
  if entries.any fun (k, _) => sameKey k key then
    entries.map fun (k, old) => if sameKey k key then (k, a) else (k, old)
  else entries ++ [(key, a)]

/-- A table made of entries in order. Of several entries under one key the last one counts. -/
def tableOf {α : Type} (entries : List (Datum × α)) : List (Datum × α) :=
  entries.foldl (fun table (key, a) => insert table key a) []

end Datum

end IdiomLint
