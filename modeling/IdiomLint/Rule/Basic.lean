import IdiomLint.Finding

/-!
# Rules

A rule looks at one file at a time and lists its findings, or fails.
-/

namespace IdiomLint

/-- What a rule is given to look at. -/
structure RuleContext where
  path : String
  text : String
  /-- The syntax tree of the text, if there is one. -/
  tree : Option Node

/-- Why a rule failed. -/
inductive RuleFailure where
  /-- An integer has more digits than decimal text may have. -/
  | integerTooLong
  /-- An argument of a call has no text in the source. -/
  | argumentWithoutSource
  /-- The rule gave up for a reason of its own. -/
  | gaveUp
  deriving DecidableEq

/-- A rule. -/
structure Rule where
  id : String
  /-- The languages it is written for. -/
  languages : List String
  /-- What it finds in a file. -/
  visit : RuleContext → Except RuleFailure (List Finding)

end IdiomLint
