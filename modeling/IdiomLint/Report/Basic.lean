import IdiomLint.Finding
import IdiomLint.Json.Printer
import IdiomLint.Path
import IdiomLint.Text.Position
import IdiomLint.Text.Sorted

/-!
# Reports

What is printed at the end of a run: the findings, how much was looked at and how long it took. A
report is written as JSON or as text for people.
-/

namespace IdiomLint

/-- How a report is written. -/
inductive Format where
  | json
  /-- For people to read. -/
  | text
  deriving DecidableEq

namespace Format

/-- All formats. -/
def all : List Format := [.json, .text]

/-- The name of a format. -/
def name : Format → String
  | .json => "json"
  | .text => "pretty"

/-- The format of a name. -/
def ofName? (name : String) : Option Format := all.find? (·.name == name)

end Format

/-- The times taken, in milliseconds, by name. -/
abbrev Metrics := List (String × Json)

/-- What a report is made of. -/
structure Report where
  findings : List Finding
  files : Int
  rules : Int
  metrics : Metrics
  /-- The texts of the files by their paths. -/
  texts : List (String × String) := []
  /-- The files that were corrected. -/
  corrected : List String := []
  /-- The directory that paths are seen from. -/
  directory : String := "/"
  /-- Are places given by line and column where the text is known? -/
  placed : Bool := true

/-- Why a report cannot be written. -/
inductive ReportError where
  /-- A finding holds something that JSON cannot express, such as a piece of a syntax tree. -/
  | notPlain
  /-- There can be no file of a path. -/
  | impossiblePath
  /-- An integer has more digits than decimal text may have. -/
  | integerTooLong
  /-- One of the times is larger than all floating-point numbers. -/
  | hugeMetric
  /-- One of the times is not known. -/
  | missingMetric
  /-- There is no such format. -/
  | unknownFormat (format : String)

/-- The wording of a report error, where it has one. -/
def ReportError.message : ReportError → String
  | .notPlain => "a finding holds a piece of a syntax tree"
  | .impossiblePath => "there can be no such file"
  | .integerTooLong => "an integer has too many digits"
  | .hugeMetric => "a time is too large"
  | .missingMetric => "a time is missing"
  | .unknownFormat format => "Unknown format: " ++ format

namespace Report

/-! ## JSON -/

/-- The version of the format of the report. -/
def protocolVersion : String := "1"

/-- The version of the program. -/
def engineVersion : String := "0.1.0"

mutual

/-- A value of the syntax tree as JSON. A node has no such form. -/
def termJson? : Value → Option Json
  | .nil => some .null
  | .bool b => some (.bool b)
  | .int n => some (.int n)
  | .float x => some (.float x)
  | .text s => some (.str s)
  | .tuple items => (termsJson? items).map .arr
  | .node _ _ _ => none

/-- Values of the syntax tree as JSON. -/
def termsJson? : List Value → Option (List Json)
  | [] => some []
  | v :: rest => do return (← termJson? v) :: (← termsJson? rest)

end

mutual

/-- A datum as JSON. Dates, bytes, and tables with other keys than texts have no such form. -/
def datumJson? : Datum → Option Json
  | .null => some .null
  | .bool b => some (.bool b)
  | .int n => some (.int n)
  | .float x => some (.float x)
  | .text s => some (.str s)
  | .pair a b => do return .arr [← datumJson? a, ← datumJson? b]
  | .list items => (dataJson? items).map .arr
  | .table entries => (entriesJson? entries).map .obj
  | .bytes _ | .moment _ | .set _ | .enclosing _ => none

/-- Data as JSON. -/
def dataJson? : List Datum → Option (List Json)
  | [] => some []
  | d :: rest => do return (← datumJson? d) :: (← dataJson? rest)

/-- The entries of a table as JSON. -/
def entriesJson? : List (Datum × Datum) → Option (List (String × Json))
  | [] => some []
  | (.text key, d) :: rest => do return (key, ← datumJson? d) :: (← entriesJson? rest)
  | _ :: _ => none

end

/-- A piece of additional information as JSON. -/
def detailJson? : Detail → Option Json
  | .data j => some j
  | .term v => termJson? v

/-- A range as JSON. -/
def rangeJson (r : PositionRange) : Json :=
  .obj [("startLine", .int r.first.line), ("startCol", .int r.first.column),
    ("endLine", .int r.last.line), ("endCol", .int r.last.column)]

/-- The range between two offsets of a text. -/
def rangeIn (text : String) (start stop : Int) : Json :=
  rangeJson (PositionRange.ofBytes (Utf8.encode text) start stop)

/-- An edit as JSON. -/
def editJson (text : String) (e : Edit) : Json :=
  .obj [("start_byte", .int e.start), ("end_byte", .int e.stop), ("replacement", .str e.replacement),
    ("range", rangeIn text e.start e.stop)]

/-- The comment that suppresses a rule. -/
def suppressionHint (rule : String) : String := "# factorylint: ignore[" ++ rule ++ "]"

/-- The place of a file, resolved to the names below the root. -/
def resolve (directory file : String) : Except ReportError String :=
  if Path.isPossible file then .ok (Path.resolved directory file) else .error .impossiblePath

/-- Something that JSON may not be able to express. -/
def plain (j : Option Json) : Except ReportError Json :=
  match j with
  | some j => .ok j
  | none => .error .notPlain

/-- A finding as JSON. Edits and additional information are left out when there are none. Positions
are those in the text of the file, or in the empty text if that is not known. -/
def findingJson (directory : String) (texts : List (String × String)) (f : Finding) :
    Except ReportError Json := do
  let path ← resolve directory f.file
  let text := (texts.lookup path).getD ""
  let autofix := if f.fixable then [("autofix", Json.arr (f.edits.map (editJson text)))] else []
  let details ← (f.details.getD []).mapM fun (name, d) => do return (name, ← plain (detailJson? d))
  let severity ← plain (datumJson? f.severity)
  let extra := if details.isEmpty then [] else [("meta", Json.obj details)]
  return .obj ([("rule_id", .str f.rule), ("message", .str f.message), ("file_path", .str path),
    ("uri", .str (Path.address path)), ("start_byte", .int f.start), ("end_byte", .int f.stop),
    ("range", rangeIn text f.start f.stop), ("severity", severity),
    ("suppression_hint", .str (suppressionHint f.rule))] ++ autofix ++ extra)

/-- The whole report as JSON. -/
def toJson (r : Report) : Except ReportError Json := do
  let findings ← r.findings.mapM (findingJson r.directory r.texts)
  let corrected ← r.corrected.mapM (resolve r.directory)
  let corrected := if corrected.isEmpty then [] else [("corrected_files", Json.ofStrings corrected)]
  return .obj ([("factorylint.protocol", .str protocolVersion), ("engine_version", .str engineVersion),
    ("files_scanned", .int r.files), ("rules_run", .int r.rules), ("findings", .arr findings),
    ("metrics", .obj r.metrics)] ++ corrected)

/-! ## Text -/

/-- The files that have findings, in order. -/
def filesWithFindings (r : Report) : List String := sortDistinct (r.findings.map (·.file))

/-- Where a finding begins: its line and column, or its offset. -/
def place (r : Report) (f : Finding) : Except ReportError String := do
  match r.texts.lookup (← resolve r.directory f.file), r.placed with
  | some text, true =>
    let p := Position.inCharacters (Utf8.encode text) f.start
    return Integer.decimal p.line ++ ":" ++ Integer.decimal p.column
  | _, _ => return "byte " ++ Integer.decimal f.start

/-- The line for a finding. -/
def findingLine (r : Report) (f : Finding) : Except ReportError String := do
  let place ← r.place f
  match f.severity.shown? with
  | some severity =>
    return f.file ++ ":" ++ place ++ ": " ++ severity ++ ": " ++ f.message ++ " (" ++ f.rule ++ ")"
  | none => .error .integerTooLong

/-- A time with one decimal. -/
def metric (r : Report) (name : String) : Except ReportError String :=
  match r.metrics.lookup name with
  | some (.int n) =>
    let x := Binary64.ofInt n
    if x.isFinite then .ok x.fixedOne else .error .hugeMetric
  | some (.float x) => .ok x.fixedOne
  | _ => .error .missingMetric

/-- The report for people: the findings file by file, the corrected files, and a summary. -/
def toText (r : Report) : Except ReportError String := do
  let findings ← (r.filesWithFindings.flatMap fun file =>
    r.findings.filter (·.file == file)).mapM r.findingLine
  let corrected := r.corrected.map (· ++ ": corrected")
  let summary := Integer.decimal r.files ++ " files inspected, " ++
    Integer.decimal r.findings.length ++ " offenses detected, " ++
    Integer.decimal r.corrected.length ++ " files corrected"
  let times := "Parse " ++ (← r.metric "parse_ms") ++ "ms, rules " ++ (← r.metric "rules_ms") ++
    "ms, total " ++ (← r.metric "total_ms") ++ "ms"
  return "\n".intercalate (findings ++ corrected ++ ["", summary, times])

/-- The report as JSON text. All paths are resolved before anything is written. -/
def toJsonText (r : Report) : Except ReportError String := do
  let _ ← (r.findings.map (·.file) ++ r.corrected).mapM (resolve r.directory)
  match (← r.toJson).text? with
  | some text => return text
  | none => .error .integerTooLong

/-- The report in a format. -/
def write (r : Report) : Format → Except ReportError String
  | .json => r.toJsonText
  | .text => r.toText

/-- The report in the format of a name. -/
def render (r : Report) (name : String) : Except ReportError String :=
  match Format.ofName? name with
  | some format => r.write format
  | none => .error (.unknownFormat name)

end Report

end IdiomLint
