import IdiomLint.Idiom.CreateList
import IdiomLint.Rule.Basic
import IdiomLint.Syntax.Walk

/-!
# The rule `factory.create_list`

Every block that creates the same record several times is an offence; the edit that mends it replaces
the block.
-/

namespace IdiomLint.CreateListRule

/-- The identifier of the rule. -/
def id : String := "factory.create_list"

/-- What the rule says about an offence. -/
def message : String := "Prefer create_list."

/-- A failure to write the replacement is a failure of the rule. -/
def failure : ReplacementError → RuleFailure
  | .integerTooLong => .integerTooLong
  | .argumentWithoutSource => .argumentWithoutSource

/-- The finding for a detected block. It covers the call that repeats the block. -/
def finding (path : String) (i : Idiom) : Except RuleFailure Finding := do
  let edit ← i.edit.mapError failure
  .ok {
    rule := id
    message
    file := path
    start := i.repeatCall.start
    stop := i.repeatCall.stop
    severity := .text "warn"
    autofix := some [edit]
    details := some [("factory", .term i.factory), ("count", .data (.int i.count)),
      ("replacement", .data (.str edit.replacement))] }

/-- The blocks of a tree that create the same record several times, in the order of the walk. -/
def idioms (tree : Node) : List Idiom :=
  (tree.walk.filter (·.kind == "block")).filterMap fun n => detect n.toValue

/-- The findings of the rule in a file. -/
def visit (context : RuleContext) : Except RuleFailure (List Finding) :=
  match context.tree with
  | none => .ok []
  | some tree => (idioms tree).mapM (finding context.path)

end IdiomLint.CreateListRule

namespace IdiomLint

/-- The rule that prefers `create_list`. -/
def createListRule : Rule := ⟨CreateListRule.id, ["ruby"], CreateListRule.visit⟩

end IdiomLint
