import IdiomLint.Config.Basic
import IdiomLint.Text.Utf8
import IdiomLint.Yaml.Printer

/-!
# Writing the configuration file

All settings are written, also those that are as usual.
-/

namespace IdiomLint.Config

/-- The settings as a table. -/
def entries (c : Config) : List (Datum × Datum) :=
  [(.text "enabled_rules", c.enabledRules), (.text "max_findings_per_file", c.perFile),
    (.text "max_total_findings", c.inAll), (.text "rule_severities", c.severities),
    (.text "exclude", c.exclude)]

/-- The text of a configuration file. -/
def render (c : Config) : String := Yaml.render c.entries

end IdiomLint.Config
