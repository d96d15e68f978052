import IdiomLint.Json.Parser
import IdiomLint.Ruby.TreeFile
import IdiomLint.Run

/-!
# The program

The outer layer: it looks at the files that a run can see, does the run, and then does what the run
wants done.
-/

namespace IdiomLint.CommandLine

/-- The environment variable that names the file with the trees of the sources. -/
def treesVariable : String := "FACTORYLINT_TREES"

/-- The grammar: the trees in a file, if one is named. -/
def findGrammar : IO Grammar := do
  let some path ← IO.getEnv treesVariable | return .error .notInstalled
  let some (.arr samples) := Json.parse? (← IO.FS.readFile path) | return .error .incompatible
  let some samples := samples.mapM sampleOf? | return .error .incompatible
  return .ofSamples samples

/-- Can the content of a file of this name matter? -/
def matters (name : String) : Bool :=
  rubyAdapter.accepts name || Config.fileNames.contains name

/-- What is under a path. Links to directories and hidden directories are not entered, and only the
contents that can matter are read. -/
partial def survey (path : String) (top : Bool) : IO (Option FileTree) := do
  let place := (← IO.currentDir) / path
  if ← place.isDir then
    let isLink := (← place.symlinkMetadata).type matches .symlink
    if !top && (isLink || (Path.baseName path).toList.head? == some '.') then
      return some (.directory [])
    let entries ← (← place.readDir).toList.filterMapM fun entry => do
      let found ← survey (Path.join path entry.fileName) false
      return found.map fun t => (entry.fileName, t)
    return some (.directory entries)
  if ← place.pathExists then
    if top || matters (Path.baseName path) then
      return some (.file (← IO.FS.readBinFile place).toList)
    return some (.file [])
  return none

/-- A disk with what is under a path, and with the directories on the way to it. -/
def addPath (d : Disk) (path : String) : IO Disk := do
  let mut d := d
  let pieces := Path.pieces path
  for n in List.range pieces.length do
    let front := "/".intercalate (pieces.take n)
    if !front.isEmpty && (← ((← IO.currentDir) / front).isDir) then d := d.makeDirectory front
  if path.isEmpty then return d
  match ← survey path true with
  | some t => return { d with root := d.root.put (Path.names (d.absolute path)) t }
  | none => return d

/-- The disk as far as a run with some options can see it. -/
def Options.disk (o : Options) : IO Disk := do
  let here := Path.names (← IO.currentDir).toString
  let mut d : Disk := ⟨FileTree.put (.directory []) here (.directory []), here⟩
  for path in o.paths do
    d ← addPath d path
  for path in o.config.toList ++ (o.paths.take 1).flatMap (Config.candidates d) do
    d ← addPath d path
  return d

/-- Do what a run wants done. -/
def Options.perform (o : Options) : Effect → IO Unit
  | .notice n => if o.verbose || n.isUrgent then IO.eprintln n.line else pure ()
  | .print text => IO.print text
  | .write path content => IO.FS.writeBinFile path ⟨content.toArray⟩

/-- A run on the files there are. -/
def Options.runHere (o : Options) : IO UInt32 := do
  let outcome := o.run (← findGrammar) (← o.disk)
  outcome.effects.forM o.perform
  match outcome.result with
  | .ok status => return status.code.toUInt32
  | .error e =>
    IO.eprintln e.message
    return 1

end IdiomLint.CommandLine

open IdiomLint.CommandLine in
/-- The program. -/
def main (args : List String) : IO UInt32 := do
  match Request.read args with
  | .error e =>
    IO.eprintln (usage ++ "\n" ++ programName ++ ": error: " ++ e.message)
    return 2
  | .ok .help =>
    IO.println help
    return 0
  | .ok (.run o) => o.runHere
