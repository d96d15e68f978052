import IdiomLint.Adapter
import IdiomLint.Config.Basic
import IdiomLint.Outcome
import IdiomLint.Rule.CreateList
import IdiomLint.Text.LowerCase

/-!
# Registry

The rules and adapters that are known. Both are kept in the order in which they were registered; of
two rules with one identifier, and of two adapters for one language, the first one stays. The rules
are kept twice, as a list and by their identifiers.
-/

namespace IdiomLint

/-- Something that a module offers as a rule. -/
inductive Offer where
  /-- A rule, or a class together with the rule that is made of it. -/
  | rule (r : Rule)
  /-- Something else, with the text that shows it. -/
  | other (shown : String)

/-- Why there cannot be a package of a name. -/
inductive PackageFault where
  /-- The name is empty. -/
  | noName
  /-- The name begins with a dot, so it is relative to another package, and there is none. -/
  | relativeName

/-- The rules and adapters that are known. -/
structure Registry where
  rules : List Rule := []
  /-- The rules by identifier. -/
  index : List (String × Rule) := []
  /-- The adapters by language. -/
  adapters : List (String × Adapter) := []

namespace Registry

/-- The identifiers of all rules. -/
def ruleIds (r : Registry) : List String := r.index.map (·.1)

/-- The rule with an identifier. -/
def rule? (r : Registry) (id : String) : Option Rule := r.index.lookup id

/-- Register a rule unless its identifier is taken. -/
def addRule (r : Registry) (rule : Rule) : Registry :=
  if (r.rule? rule.id).isSome then r
  else { r with rules := r.rules ++ [rule], index := r.index ++ [(rule.id, rule)] }

/-- Forget all rules and adapters. -/
def clear (_ : Registry) : Registry := ⟨[], [], []⟩

/-- The adapter for a language. -/
def adapter? (r : Registry) (language : String) : Option Adapter := r.adapters.lookup language

/-- Register an adapter unless the language has one. -/
def addAdapter (r : Registry) (language : String) (adapter : Adapter) : Registry :=
  if (r.adapter? language).isSome then r
  else { r with adapters := r.adapters ++ [(language, adapter)] }

/-- The languages that have an adapter. -/
def languages (r : Registry) : List String := r.adapters.map (·.1)

/-- The first adapter that knows the ending of a file, case aside. -/
def adapterForFile? (r : Registry) (path : String) : Option Adapter :=
  let ending := LowerCase.ofText (Path.ending path)
  (r.adapters.find? fun (_, a) => a.extensions.contains ending).map (·.2)

/-- The rules for a language. -/
def rulesFor (r : Registry) (language : String) : List Rule :=
  r.rules.filter (·.languages.contains language)

/-- Is a setting the list of the single glob that matches everything? -/
def isEverything : Datum → Bool
  | .list [.text "*"] => true
  | _ => false

/-- The rules for a language that one of the globs of a setting matches. -/
def enabledRules (r : Registry) (setting : Datum) (language : String) :
    Except SettingError (List Rule) := do
  let rules := r.rulesFor language
  if !setting.isSubstantial then return []
  if isEverything setting then return rules
  rules.filterM fun rule => do
    Datum.anyGlob (fun glob => Glob.matchesText glob rule.id) (← setting.items)

/-- Register everything that a module offers. What is no rule is passed over with a notice. -/
def addOffers {ε : Type} (r : Registry) (module : String) : List Offer → Outcome ε Registry
  | [] => pure r
  | .rule rule :: rest => (r.addRule rule).addOffers module rest
  | .other shown :: rest => do
    .notify (.notARule shown module)
    r.addOffers module rest

/-- The modules that come with the program, each with the rules in it and below it. -/
def packages : List (String × List Rule) :=
  [("factorylint", [createListRule]), ("factorylint.rules", [createListRule]),
    ("factorylint.rules.factory_create_list", [createListRule]), ("factorylint.engine", []),
    ("factorylint.engine.errors", [])]

/-- The modules among them that hold no other modules. -/
def leaves : List String :=
  ["factorylint.rules.factory_create_list", "factorylint.engine.errors"]

/-- The names of the modules that enclose a module, and its own, the outermost first. -/
def enclosing (name : String) : List String :=
  let parts := name.splitOn "."
  (List.range parts.length).map fun n => ".".intercalate (parts.take (n + 1))

/-- Why a module cannot be loaded: the first of the modules around it that is not there. -/
def missingReason (name : String) : String :=
  let missing := ((enclosing name).find? fun n => (packages.lookup n).isNone).getD name
  let reason := "No module named " ++ Quoted.quoted missing
  match leaves.find? fun leaf => (leaf ++ ".").toList.isPrefixOf missing.toList with
  | some leaf => reason ++ "; " ++ Quoted.quoted leaf ++ " is not a package"
  | none => reason

/-- Why there cannot be a package of a name, if so. -/
def nameFault? (name : String) : Option PackageFault :=
  match name.toList with
  | [] => some .noName
  | '.' :: _ => some .relativeName
  | _ => none

/-- Register the rules of a package. A package that is not there is passed over with a notice. -/
def addPackage (r : Registry) (name : String) : Outcome PackageFault Registry :=
  match nameFault? name, packages.lookup name with
  | some fault, _ => .fail fault
  | none, some rules => pure (rules.foldl addRule r)
  | none, none => do
    .notify (.missingPackage name (missingReason name))
    return r

/-- Register the rules of several packages, and count the new ones. -/
def discover (r : Registry) (names : List String) : Outcome PackageFault (Registry × Nat) := do
  let after ← names.foldlM addPackage r
  return (after, after.rules.length - r.rules.length)

end Registry

end IdiomLint
