import IdiomLint.Adapter
import IdiomLint.Config.Basic
import IdiomLint.Outcome
import IdiomLint.Text.Sorted

/-!
# Collecting files

Which files are analyzed: those of the language under the given paths, except the excluded ones. What
is excluded is decided by the path below each given path.
-/

namespace IdiomLint

/-- The directory that the files under a path are seen from. -/
def scanRoot (d : Disk) (path : String) : String :=
  if d.isDirectory path then d.absolute path else Path.directoryName (d.absolute path)

/-- The files to be analyzed under one path. A path that does not exist is passed over with a
notice. -/
def collectUnder (a : Adapter) (d : Disk) (c : Config) (path : String) :
    Outcome SettingError (List String) :=
  if d.has path then
    .ofExcept (c.keepFiles ((a.filesUnder d path).map d.absolute) (scanRoot d path))
  else do
    .notify (.missingPath path)
    return []

/-- The files to be analyzed under several paths, in order and each of them once. -/
def collectFiles (adapter : Option Adapter) (d : Disk) (c : Config) (paths : List String) :
    Outcome SettingError (List String) := do
  match adapter with
  | none =>
    .notify (.noAdapter rubyLanguage)
    return []
  | some a => return sortDistinct (← paths.mapM (collectUnder a d c)).flatten

end IdiomLint
