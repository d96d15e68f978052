import IdiomLint.Path
import IdiomLint.Text.Quoted

/-!
# File trees

The files and directories that a run can see, as one value, and the working directory. Paths are
followed name by name: what comes before a name must be a directory that exists.
-/

namespace IdiomLint

/-- A file with its bytes, or a directory with its entries by name. -/
inductive FileTree where
  | file (content : List UInt8)
  | directory (entries : List (String × FileTree))

namespace FileTree

/-- What is reached from here by following names. -/
def get? : FileTree → List String → Option FileTree
  | t, [] => some t
  | .directory entries, name :: rest => (entries.lookup name).bind (·.get? rest)
  | .file _, _ :: _ => none

/-- Is it a directory? -/
def isDirectory : FileTree → Bool
  | .directory _ => true
  | .file _ => false

/-- The entries of a directory with one entry set. -/
def setEntry (entries : List (String × FileTree)) (name : String) (t : FileTree) :
    List (String × FileTree) :=
  if entries.any (·.1 == name) then entries.map fun e => if e.1 == name then (name, t) else e
  else entries ++ [(name, t)]

/-- Put something at a place. Directories on the way are made where there is nothing; a file on the
way stays as it is. -/
def put : FileTree → List String → FileTree → FileTree
  | _, [], new => new
  | .file content, _ :: _, _ => .file content
  | .directory entries, name :: rest, new =>
    let old := (entries.lookup name).getD (.directory [])
    .directory (setEntry entries name (old.put rest new))

/-- Make sure that there is a directory at a place. What is there already stays. -/
def makeDirectory (t : FileTree) (names : List String) : FileTree :=
  if (t.get? names).isSome then t else t.put names (.directory [])

mutual

/-- The paths of the files below a directory whose own path is given. Directories whose names begin
with a point are not entered. -/
def filesBelow (path : String) : FileTree → List String
  | .file _ => []
  | .directory entries => entryFiles path entries

/-- The paths of the files among the entries of a directory and below them. -/
def entryFiles (path : String) : List (String × FileTree) → List String
  | [] => []
  | (name, .file _) :: rest => Path.join path name :: entryFiles path rest
  | (name, .directory entries) :: rest =>
    (if name.toList.head? == some '.' then []
      else filesBelow (Path.join path name) (.directory entries)) ++ entryFiles path rest

end

end FileTree

/-- Why there is nothing to read under a path. -/
inductive FileError where
  | notFound
  | notADirectory
  | isADirectory
  | nameTooLong
  deriving DecidableEq

/-- The wording of a file error for a path. -/
def FileError.message (path : String) : FileError → String
  | .notFound => "[Errno 2] No such file or directory: " ++ Quoted.quoted path
  | .notADirectory => "[Errno 20] Not a directory: " ++ Quoted.quoted path
  | .isADirectory => "[Errno 21] Is a directory: " ++ Quoted.quoted path
  | .nameTooLong => "[Errno 36] File name too long: " ++ Quoted.quoted path

/-- A file tree seen from a working directory. -/
structure Disk where
  root : FileTree
  /-- The names from the root to the working directory. -/
  directory : List String

namespace Disk

/-- The path of the working directory. -/
def here (d : Disk) : String := Path.ofNames d.directory

/-- A path made absolute and resolved by its text alone. -/
def absolute (d : Disk) (path : String) : String := Path.absolute d.here path

/-- The most bytes that a name may have. -/
def nameLimit : Nat := 255

/-- The most bytes that a path may have. -/
def pathLimit : Nat := 4095

/-- Go one name further. -/
def step (d : Disk) (names : List String) (name : String) : Except FileError (List String) :=
  match d.root.get? names with
  | none => .error .notFound
  | some (.file _) => .error .notADirectory
  | some (.directory _) =>
    if nameLimit < Utf8.size name then .error .nameTooLong
    else .ok (if name == "" || name == "." then names
      else if name == ".." then names.dropLast
      else names ++ [name])

/-- Where a path leads. -/
def follow (d : Disk) (path : String) : Except FileError (List String) :=
  if path.isEmpty then .error .notFound
  else if pathLimit < Utf8.size path then .error .nameTooLong
  else (Path.pieces path).foldlM d.step (if Path.isAbsolute path then [] else d.directory)

/-- What is found under a path. -/
def find (d : Disk) (path : String) : Except FileError FileTree := do
  match d.root.get? (← d.follow path) with
  | some t => .ok t
  | none => .error .notFound

/-- Is there anything under a path? -/
def has (d : Disk) (path : String) : Bool :=
  match d.find path with
  | .ok _ => true
  | .error _ => false

/-- Is there a file under a path? -/
def isFile (d : Disk) (path : String) : Bool :=
  match d.find path with
  | .ok (.file _) => true
  | _ => false

/-- Is there a directory under a path? -/
def isDirectory (d : Disk) (path : String) : Bool :=
  match d.find path with
  | .ok (.directory _) => true
  | _ => false

/-- The bytes of the file under a path. -/
def read (d : Disk) (path : String) : Except FileError (List UInt8) := do
  match ← d.find path with
  | .file content => .ok content
  | .directory _ => .error .isADirectory

/-- Write a file. The path is resolved by its text. -/
def write (d : Disk) (path : String) (content : List UInt8) : Disk :=
  { d with root := d.root.put (Path.names (d.absolute path)) (.file content) }

/-- Make sure that a directory exists. -/
def makeDirectory (d : Disk) (path : String) : Disk :=
  { d with root := d.root.makeDirectory (Path.names (d.absolute path)) }

end Disk

end IdiomLint
