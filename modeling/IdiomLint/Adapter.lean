import IdiomLint.File.Tree

/-!
# Adapters

An adapter knows which files are written in a language, and finds them on a disk.
-/

namespace IdiomLint

/-- What is known about the files of a language. -/
structure Adapter where
  name : String
  /-- The endings of its files, each with its point. -/
  extensions : List String

namespace Adapter

/-- Does a name have one of the endings of the language? -/
def accepts (a : Adapter) (name : String) : Bool :=
  a.extensions.any fun ending => ending.toList.isSuffixOf name.toList

/-- The files under a path: the path itself if it is a file of the language, or all files of the
language below it if it is a directory. -/
def filesUnder (a : Adapter) (d : Disk) (path : String) : List String :=
  match d.find path with
  | .ok (.file _) => [path].filter a.accepts
  | .ok (.directory entries) =>
    (FileTree.filesBelow path (.directory entries)).filter fun p => a.accepts (Path.baseName p)
  | .error _ => []

/-- The files under several paths. -/
def listFiles (a : Adapter) (d : Disk) (paths : List String) : List String :=
  paths.flatMap (a.filesUnder d)

end Adapter

/-- The language that is analyzed. -/
def rubyLanguage : String := "ruby"

/-- The adapter for Ruby. -/
def rubyAdapter : Adapter := ⟨rubyLanguage, [".rb", ".rake", ".gemspec"]⟩

end IdiomLint
