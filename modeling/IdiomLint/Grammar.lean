import IdiomLint.Outcome
import IdiomLint.Ruby.Conversion

/-!
# Grammars

A grammar reads a source text and makes a concrete tree of it. Everything that happens to a text after
that is the same for every grammar.
-/

namespace IdiomLint

/-- What a grammar makes of a text. -/
structure Parsed where
  tree : Ruby.ConcreteNode
  /-- Are there places that the grammar could not read? -/
  hasErrors : Bool

/-- Why there is no grammar. -/
inductive GrammarError where
  | notInstalled
  | incompatible
  deriving DecidableEq

/-- The wording of a grammar error. -/
def GrammarError.message : GrammarError → String
  | .notInstalled =>
    "tree-sitter-ruby not available: import of tree_sitter halted; None in sys.modules"
  | .incompatible => "could not initialize Ruby parser: incompatible grammar"

/-- A way to read texts, or the reason why there is none. -/
abbrev Grammar := Except GrammarError (String → Parsed)

/-- Why a text has no syntax tree. -/
inductive ParseError where
  | noGrammar (e : GrammarError)
  | oddTree (e : Ruby.TreeError)

/-- The syntax tree of a text. -/
def Grammar.parse (g : Grammar) (text : String) : Outcome ParseError Node := do
  let parsed ← .ofExcept ((g.map (· text)).mapError .noGrammar)
  if parsed.hasErrors then .notify .partialTree
  .ofExcept ((Ruby.convert (Utf8.encode text) parsed.tree).mapError .oddTree)

end IdiomLint
