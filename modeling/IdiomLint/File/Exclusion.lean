import IdiomLint.Path
import IdiomLint.Text.CaseFold
import IdiomLint.Text.Glob

/-!
# Excluded files

Directories of third-party code, of generated files and of version control are never analyzed, nor are
files that match a glob of the configuration. Both are looked for in the path below the scanned root,
so that the place of the root itself excludes nothing.
-/

namespace IdiomLint.Exclusion

/-- The directories that are never analyzed. -/
def directories : List String :=
  ["vendor", "node_modules", ".bundle", "bower_components", "tmp", "log", "public/assets",
    "public/packs", "coverage", ".git", ".svn", ".hg", ".idea", ".vscode", ".cache"]

/-- A path with slashes in the place of backslashes. -/
def withSlashes (path : String) : List Char :=
  path.toList.map fun c => if c = '\\' then '/' else c

/-- A path and what follows each of its slashes. -/
def ends (cs : List Char) : List (List Char) :=
  cs :: (Glob.suffixes cs).filterMap fun
    | '/' :: rest => some rest
    | _ => none

/-- Does a name end here? It ends before a slash and at the end of the path, a line feed at the very
end not counted. -/
def endsName : List Char → Bool
  | [] => true
  | '/' :: _ => true
  | ['\n'] => true
  | _ => false

/-- Does a path begin with the name of an excluded directory, case aside? -/
def beginsExcluded (cs : List Char) : Bool :=
  directories.any fun name =>
    match CaseFold.after? name.toList cs with
    | some rest => endsName rest
    | none => false

/-- Is the path in an excluded directory? -/
def isExcluded (path : String) : Bool := (ends (withSlashes path)).any beginsExcluded

/-- Does a path, or what follows one of its slashes, match one of the globs? -/
def matchesAny (path : String) (globs : List String) : Bool :=
  let path := String.ofList (withSlashes path)
  globs.any fun glob => Glob.matchesText glob path || Glob.matchesText ("*/" ++ glob) path

/-- The files that are to be analyzed, seen from the root. -/
def keep (files : List String) (root : String) (globs : List String) : List String :=
  files.filter fun file =>
    let below := Path.relative file root
    !isExcluded below && !matchesAny below globs

end IdiomLint.Exclusion
