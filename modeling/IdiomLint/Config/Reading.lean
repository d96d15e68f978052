import IdiomLint.Config.Basic
import IdiomLint.File.Tree
import IdiomLint.Outcome
import IdiomLint.Text.Sorted
import IdiomLint.Yaml.Reading

/-!
# Reading the configuration file

A configuration file holds a table of settings. Only the names of the settings and the severities in it
are checked; a file that is not there, or in which nothing is said, leaves everything as usual.
-/

namespace IdiomLint

/-- Why a configuration file is refused. -/
inductive ConfigError where
  /-- It cannot be read, or is no YAML. -/
  | unreadable (path : String)
  /-- It holds a datum of another sort. -/
  | notATable (path sort : String)
  /-- There are no settings of these names. -/
  | unknownSettings (path : String) (names : List String)
  /-- A severity is none of the three. -/
  | badSeverity (path shown : String)
  deriving DecidableEq

/-- The wording of a configuration error. -/
def ConfigError.message : ConfigError → String
  | .unreadable path => "Failed to load config from " ++ path
  | .notATable path sort => "Config " ++ path ++ " must be a mapping, got " ++ sort
  | .unknownSettings path names =>
    "Unknown config keys in " ++ path ++ ": " ++ ", ".intercalate names
  | .badSeverity path shown => "Invalid severity '" ++ shown ++ "' in " ++ path

/-- Why no configuration is read. -/
inductive ConfigFault where
  /-- The file is refused. -/
  | refused (e : ConfigError)
  /-- The bytes of the file are no text. -/
  | notText
  /-- A scalar in the file has no value. -/
  | noValue (f : Yaml.Fault)
  /-- The name of a setting is no text. -/
  | nameNotText
  /-- The severities are neither a table nor a list of pairs. -/
  | notPairs
  /-- A pair among the severities has not two items. -/
  | wrongLength
  /-- What should be a severity holds an integer with too many digits. -/
  | integerTooLong
  deriving DecidableEq

namespace Config

/-- The names of the settings. -/
def settingNames : List String :=
  ["enabled_rules", "max_findings_per_file", "max_total_findings", "rule_severities", "exclude"]

/-- The severities that can be set. -/
def severityNames : List String := ["info", "warn", "error"]

/-- Is a datum one of the severities? -/
def isSeverity : Datum → Bool
  | .text s => severityNames.contains s
  | _ => false

/-- The names of settings that are not known, in order. -/
def unknownNames (keys : List Datum) : Except ConfigFault (List String) := do
  let names ← keys.mapM fun
    | .text s => .ok s
    | _ => .error .nameNotText
  return sortTexts (names.filter fun name => !settingNames.contains name)

/-! ## Severities -/

/-- A pair given by a list, a table or a text of two items. -/
def pairOf (doc : Yaml.Document) (r : Yaml.Ref) : Except ConfigFault (Datum × Yaml.Ref) :=
  match doc.items? r with
  | none => .error .notPairs
  | some [key, value] =>
    match Yaml.Document.key? key with
    | some key => .ok (key, value)
    | none => .error .notPairs
  | some _ => .error .wrongLength

/-- The pairs that something gives: the entries of a table, or the items of a list. -/
def pairsOf (doc : Yaml.Document) (r : Yaml.Ref) : Except ConfigFault (List (Datum × Yaml.Ref)) :=
  match doc.entries? r with
  | some entries => .ok entries
  | none =>
    match doc.items? r with
    | some items => items.mapM (pairOf doc)
    | none => .error .notPairs

/-- The refusal of what is none of the severities. It is not shown if it holds an integer with too many
digits. -/
def badSeverity (path : String) (d : Datum) : ConfigFault :=
  match d.shown? with
  | some text => .refused (.badSeverity path text)
  | none => .integerTooLong

/-- The severities that a setting gives. Of several with one key the last one counts. -/
def severitiesOf (path : String) (doc : Yaml.Document) (known : Yaml.Document.Unfolded)
    (setting : Yaml.Ref) : Except ConfigFault (List (Datum × Datum)) := do
  let pairs ← if doc.isSubstantial setting then pairsOf doc setting else .ok []
  let table := (Datum.tableOf pairs).map fun (key, r) => (key, doc.datum known r)
  match table.find? fun (_, d) => !isSeverity d with
  | some (_, d) => .error (badSeverity path d)
  | none => return table

/-! ## Settings -/

/-- The configuration given by a table of settings, the collection of a number in a document. -/
def ofTable (path : String) (doc : Yaml.Document) (n : Nat) (entries : List (Datum × Yaml.Ref)) :
    Except ConfigFault Config := do
  let unknown ← unknownNames (entries.map (·.1))
  if !unknown.isEmpty then .error (.refused (.unknownSettings path unknown))
  let others := entries.filter fun (key, _) => !key.same (.text "rule_severities")
  -- The severities may refer to the whole table, which then stands there without them.
  let doc := doc.withCollection n (.table others)
  let known := doc.unfolded
  let severities ← severitiesOf path doc known
    ((Datum.lookup? entries "rule_severities").getD (.scalar .null))
  let setting (name : String) (usual : Datum) : Datum :=
    ((Datum.lookup? others name).map (doc.datum known)).getD usual
  let usual : Config := {}
  return {
    enabledRules := setting "enabled_rules" usual.enabledRules
    perFile := setting "max_findings_per_file" usual.perFile
    inAll := setting "max_total_findings" usual.inAll
    severities := .table severities
    exclude := setting "exclude" usual.exclude }

/-- The configuration given by a document. -/
def ofDocument (path : String) (doc : Yaml.Document) : Except ConfigFault Config :=
  match doc.root, doc.entries? doc.root with
  | .collection n, some entries => ofTable path doc n entries
  | r, _ =>
    if doc.isSubstantial r then .error (.refused (.notATable path (doc.sort r))) else .ok {}

/-- A fault in the text of a configuration file. -/
def faultOf (path : String) : Yaml.Fault → ConfigFault
  | .invalid => .refused (.unreadable path)
  | .notText => .notText
  | f => .noValue f

/-- The configuration in the bytes of a file. -/
def ofBytes (path : String) (bytes : List UInt8) : Except ConfigFault Config := do
  let doc ← (Yaml.read (.ofBytes bytes)).mapError (faultOf path)
  ofDocument path doc

/-- The configuration in a file, or the usual one if there is no such file. -/
def load (d : Disk) (path : String) : Outcome ConfigFault Config :=
  if !d.has path then pure {}
  else
    match d.read path with
    | .error _ => .fail (.refused (.unreadable path))
    | .ok bytes => do
      let config ← .ofExcept (ofBytes path bytes)
      .notify (.loadedConfig path)
      return config

end Config

end IdiomLint
