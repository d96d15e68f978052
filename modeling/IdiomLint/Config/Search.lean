import IdiomLint.File.Tree

/-!
# Searching the configuration file

The configuration file is looked for in a directory, then in the directory above it, and so on up to
the root. In each directory the first of four names counts.
-/

namespace IdiomLint.Config

/-- The names of configuration files, the preferred one first. -/
def fileNames : List String :=
  [".factorylint.yml", ".factorylint.yaml", "factorylint.yml", "factorylint.yaml"]

/-- A list and all shorter lists it begins with, the longest first. -/
def frontsDown {α : Type} (xs : List α) : List (List α) :=
  (List.range (xs.length + 1)).reverse.map xs.take

/-- The directory of a place: the place itself, or the directory that holds it if it is a file. -/
def directoryNames (d : Disk) (path : String) : List String :=
  let names := Path.names (d.absolute path)
  if d.isFile (d.absolute path) then names.dropLast else names

/-- The paths where a configuration file may be, the nearest first. -/
def candidates (d : Disk) (start : String) : List String :=
  let slash := Path.extraSlash (Path.join d.here start)
  (frontsDown (directoryNames d start)).flatMap fun names =>
    fileNames.map (Path.join (slash ++ Path.ofNames names))

/-- The configuration file nearest to a place. -/
def findFile (d : Disk) (start : String) : Option String := (candidates d start).find? d.has

end IdiomLint.Config
