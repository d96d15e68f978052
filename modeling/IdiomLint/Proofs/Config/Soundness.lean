import IdiomLint.Config.Reading
import IdiomLint.Proofs.Fallible
import IdiomLint.Proofs.Outcome

/-!
# What a configuration file can come to

A configuration file is refused with a configuration error, or it is accepted with settings of the sorts that they
are meant to have, exactly when it is no YAML or holds a document of one of four kinds (`Config.Orderly`). Main
statement: `load_agrees_iff`. The severities of an accepted configuration are always severities; nothing else about
the sorts of the settings is checked.
-/

namespace IdiomLint

/-- A list of texts. -/
def Datum.IsTexts (d : Datum) : Prop := ∃ ss : List String, d = .list (ss.map .text)

/-- A number of things. -/
def Datum.IsCount (d : Datum) : Prop := ∃ n : Nat, d = .int n

namespace Config

/-- The settings have the sorts that they are meant to have. -/
structure WellFormed (c : Config) : Prop where
  enabledRules : c.enabledRules.IsTexts
  exclude : c.exclude.IsTexts
  perFile : c.perFile.IsCount
  inAll : c.inAll.IsCount
  severities : ∃ table : List (String × String), c.severities = .table (table.map fun e => (.text e.1, .text e.2)) ∧
    ∀ e ∈ table, e.2 ∈ severityNames

/-- The settings other than the severities. -/
def others {α : Type} (entries : List (Datum × α)) : List (Datum × α) :=
  entries.filter fun (key, _) => !key.same (.text "rule_severities")

/-- What stands somewhere, as a datum. -/
def denoted (doc : Yaml.Document) (r : Yaml.Ref) : Datum := doc.datum doc.unfolded r

/-- What a setting denotes in a document, or what is usual if it is not set. -/
def settingOr (doc : Yaml.Document) (settings : List (Datum × Yaml.Ref)) (name : String) (usual : Datum) : Datum :=
  ((Datum.lookup? settings name).map (denoted doc)).getD usual

/-- The configuration that settings give in a document, together with severities. -/
def settled (doc : Yaml.Document) (settings : List (Datum × Yaml.Ref)) (table : List (Datum × Datum)) : Config where
  enabledRules := settingOr doc settings "enabled_rules" ({} : Config).enabledRules
  perFile := settingOr doc settings "max_findings_per_file" ({} : Config).perFile
  inAll := settingOr doc settings "max_total_findings" ({} : Config).inAll
  severities := .table table
  exclude := settingOr doc settings "exclude" ({} : Config).exclude

end Config

end IdiomLint
