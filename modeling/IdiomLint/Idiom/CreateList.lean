import IdiomLint.Edit.Basic
import IdiomLint.Pattern.Match
import IdiomLint.Syntax.Call
import IdiomLint.Syntax.Printer

/-!
# Repeated creation of records

    # bad
    3.times { create :user }

    # good
    create_list :user, 3

    # good: the index changes each record
    3.times { |n| create :user, created_at: n.months.ago }

`detect` recognizes a block of the first form and `Idiom.replacement` writes the second one, with the
receiver, the parentheses and the remaining arguments of the call as they stand in the source.
-/

namespace IdiomLint

/-- A call `n.times` on an integer literal. -/
def repeatPattern : Pattern :=
  .node "send" [.capture "count_node" (.node "int" [.capture "count" .any]), .value (.text "times")]

/-- A block without parameters on such a call. -/
def blockPattern : Pattern :=
  .node "block" [.ref "n_times" repeatPattern, .node "args" [], .rest]

/-- A call of `create` on nothing or on a plain constant, with the name of a factory. -/
def createPattern : Pattern :=
  .node "send"
    [.capture "receiver" (.oneOf [.node "const" [.value .nil, .any], .value .nil]),
      .value (.text "create"), .node "sym" [.capture "factory" .any], .capture "options" .rest]

/-- The parts of a block that creates the same record several times. -/
structure Idiom where
  /-- The whole block. -/
  block : Node
  /-- The call `n.times`. -/
  repeatCall : Node
  countNode : Node
  count : Int
  /-- The call `create`. -/
  createCall : Node
  receiver : Value
  factory : Value
  /-- The arguments after the name of the factory. -/
  options : List Value

/-- The items of a tuple. -/
def tupleItems? : Value → Option (List Value)
  | .tuple items => some items
  | _ => none

/-- The integer of an integer literal. -/
def integer? : Value → Option Int
  | .int n => some n
  | _ => none

/-- The parts of a block that creates the same record several times, if the value is one. -/
def detect (v : Value) : Option Idiom := do
  let _ ← blockPattern.match? v
  let block ← v.node?
  let (repeatCall, _, body) ← block.blockParts?
  let repeated ← repeatPattern.match? repeatCall
  let created ← createPattern.match? body
  some {
    block
    repeatCall := ← repeatCall.node?
    countNode := ← (← repeated.get? "count_node").node?
    count := ← integer? (← repeated.get? "count")
    createCall := ← body.node?
    receiver := ← created.get? "receiver"
    factory := ← created.get? "factory"
    options := ← tupleItems? (← created.get? "options") }

/-- Why no replacement can be written. -/
inductive ReplacementError where
  /-- An integer has more digits than decimal text may have. -/
  | integerTooLong
  /-- An argument is no node, so it has no text in the source. -/
  | argumentWithoutSource
  deriving DecidableEq

namespace Idiom

/-- The source texts of arguments, each after a comma. -/
def optionTexts : List Value → Except ReplacementError String
  | [] => .ok ""
  | .node kind children layout :: rest => do
    let tail ← optionTexts rest
    .ok (", " ++ (Node.mk kind children layout).source ++ tail)
  | _ :: _ => .error .argumentWithoutSource

/-- The arguments of the replacement: the factory, the count, and the others as they stand. -/
def argumentTexts (i : Idiom) : Except ReplacementError String := do
  let factory ← match i.factory.plain? with
    | some name => .ok name
    | none => .error .integerTooLong
  let count ← match Integer.decimal? i.count with
    | some digits => .ok digits
    | none => .error .integerTooLong
  let options ← optionTexts i.options
  .ok (":" ++ factory ++ ", " ++ count ++ options)

/-- The source text of the receiver with a point after it; nothing if there is none. -/
def receiverText (i : Idiom) : String :=
  match i.receiver.node? with
  | some receiver => receiver.source ++ "."
  | none => ""

/-- The call of `create_list` that does the same as the block. -/
def replacement (i : Idiom) : Except ReplacementError String := do
  let arguments ← i.argumentTexts
  let call := i.receiverText ++ "create_list"
  .ok (if i.createCall.parenthesized then call ++ "(" ++ arguments ++ ")" else call ++ " " ++ arguments)

/-- The edit that puts the replacement in the place of the block. -/
def edit (i : Idiom) : Except ReplacementError Edit := do
  let text ← i.replacement
  .ok ⟨i.block.start, i.block.stop, text⟩

end Idiom

end IdiomLint
