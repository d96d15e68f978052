import IdiomLint.Json.Schema

/-!
# The form of the report

The schemas that the JSON report and the findings in it satisfy, and what is said about values that do
not.
-/

namespace IdiomLint.Report

/-- The form of a range of lines and columns. -/
def rangeForm : Schema :=
  .object [("startLine", .integer 1), ("startCol", .integer 0), ("endLine", .integer 1),
    ("endCol", .integer 0)] ["startLine", "startCol", "endLine", "endCol"]

/-- The form of an edit. -/
def editForm : Schema :=
  .object [("start_byte", .integer 0), ("end_byte", .integer 0), ("replacement", .string),
    ("range", rangeForm)] ["start_byte", "end_byte", "replacement", "range"]

/-- The severities of findings. -/
def severities : List String := ["info", "warn", "error"]

/-- The form of a finding. -/
def findingForm : Schema :=
  .object [("rule_id", .string), ("message", .string), ("file_path", .string), ("uri", .string),
    ("start_byte", .integer 0), ("end_byte", .integer 0), ("range", rangeForm),
    ("severity", .choice severities), ("autofix", .array editForm), ("suppression_hint", .string),
    ("meta", .anyObject)]
    ["rule_id", "message", "file_path", "uri", "start_byte", "end_byte", "range", "severity"]

/-- The form of the times taken. -/
def metricsForm : Schema :=
  .object [("parse_ms", .number 0), ("rules_ms", .number 0), ("total_ms", .number 0)]
    ["parse_ms", "rules_ms", "total_ms"]

/-- The form of a whole report. -/
def form : Schema :=
  .object [("factorylint.protocol", .string), ("engine_version", .string),
    ("files_scanned", .integer 0), ("rules_run", .integer 0), ("findings", .array findingForm),
    ("corrected_files", .array .string), ("metrics", metricsForm)]
    ["factorylint.protocol", "engine_version", "files_scanned", "rules_run", "findings", "metrics"]

/-- For each value that is no finding, its place and the most telling of its violations. -/
def findingFaults (findings : List Json) : List String :=
  (findings.zipIdx.filterMap fun (j, n) =>
    (Schema.mostTelling (findingForm.violations j)).map fun v =>
      "Finding " ++ Integer.decimal n ++ ": " ++ v.cause.message)

/-- All violations of a value that is no report. -/
def faults (report : Json) : List String :=
  (Schema.inPathOrder (form.violations report)).map fun v =>
    "Output validation: " ++ v.cause.message

end IdiomLint.Report
