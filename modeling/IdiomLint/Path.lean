import IdiomLint.Text.Hex
import IdiomLint.Text.Utf8

/-!
# Paths

Paths are texts; names are separated by slashes, `.` names the directory itself and `..` its parent.
All functions here go by the text alone.
-/

namespace IdiomLint.Path

/-- The pieces between slashes. -/
def splitSlash : List Char → List (List Char)
  | [] => [[]]
  | c :: rest =>
    if c = '/' then [] :: splitSlash rest
    else
      match splitSlash rest with
      | [] => [[c]]
      | piece :: others => (c :: piece) :: others

/-- The pieces of a path between slashes. -/
def pieces (path : String) : List String := (splitSlash path.toList).map String.ofList

/-- Can there be a file of this path? No path holds the character whose number is zero. -/
def isPossible (path : String) : Bool := !path.toList.contains '\x00'

/-- Does a path begin at the root? -/
def isAbsolute (path : String) : Bool := path.toList.head? == some '/'

/-- Go one name further from a directory, given by its names in reverse. Above the root there is
nothing. -/
def step (names : List String) (name : String) : List String :=
  if name == "" || name == "." then names
  else if name == ".." then names.drop 1
  else name :: names

/-- The names of an absolute path, empty names, `.` and `..` resolved. -/
def names (path : String) : List String := ((pieces path).foldl step []).reverse

/-- The absolute path made of names. -/
def ofNames (ns : List String) : String := "/" ++ "/".intercalate ns

/-- Append a path to a directory; an absolute path stays as it is. -/
def join (directory path : String) : String :=
  if isAbsolute path then path
  else if directory.isEmpty || directory.toList.getLast? == some '/' then directory ++ path
  else directory ++ "/" ++ path

/-- Two slashes at the front, but not more, are kept apart from one. -/
def extraSlash (path : String) : String :=
  match path.toList with
  | '/' :: '/' :: '/' :: _ => ""
  | '/' :: '/' :: _ => "/"
  | _ => ""

/-- A path as seen from a directory, made absolute and resolved. -/
def absolute (directory path : String) : String :=
  let whole := join directory path
  extraSlash whole ++ ofNames (names whole)

/-- A path as seen from a directory, resolved to the names below the root. -/
def resolved (directory path : String) : String := ofNames (names (join directory path))

/-- What two lists have in common at the front is taken away. -/
def dropCommon : List String → List String → List String × List String
  | a :: as, b :: bs => if a == b then dropCommon as bs else (a :: as, b :: bs)
  | as, bs => (as, bs)

/-- The way from one absolute path to another. -/
def relative (path start : String) : String :=
  let (up, down) := dropCommon (names start) (names path)
  let all := up.map (fun _ => "..") ++ down
  if all.isEmpty then "." else "/".intercalate all

/-- The last name of a path; nothing if the path ends in a slash. -/
def baseName (path : String) : String := ((pieces path).getLast?).getD ""

/-- The part before the last name, without slashes at its end unless it consists of slashes. -/
def directoryName (path : String) : String :=
  let front := (path.toList.reverse.dropWhile (· != '/')).reverse
  let trimmed := (front.reverse.dropWhile (· == '/')).reverse
  String.ofList (if trimmed.isEmpty then front else trimmed)

/-- The ending of the last name, from its last point on. Points at the front of the name begin no
ending. -/
def ending (path : String) : String :=
  let name := (baseName path).toList.dropWhile (· == '.')
  match name.reverse.span (· != '.') with
  | (_, []) => ""
  | (tail, _ :: _) => String.ofList ('.' :: tail.reverse)

/-- An upper-case hexadecimal digit. -/
def upperDigit (n : Nat) : Char := if n < 10 then Char.ofNat (48 + n) else Char.ofNat (55 + n)

/-- A byte that stands for itself in the path of an address. -/
def isPlain (b : UInt8) : Bool :=
  let c := Char.ofNat b.toNat
  b < 128 && (c.isAlphanum || c == '_' || c == '.' || c == '-' || c == '~' || c == '/')

/-- A byte in the path of an address. -/
def escapeByte (b : UInt8) : List Char :=
  if isPlain b then [Char.ofNat b.toNat]
  else ['%', upperDigit (b.toNat / 16), upperDigit (b.toNat % 16)]

/-- The address of an absolute path. -/
def address (path : String) : String :=
  "file://" ++ String.ofList ((Utf8.encode path).flatMap escapeByte)

end IdiomLint.Path
