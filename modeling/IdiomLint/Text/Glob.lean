/-!
# Globs

In a glob `*` stands for any text, `?` for any character and `[...]` for a character of a class; all
else stands for itself. A class lists characters and ranges and is negated by a leading `!`. A glob
matches whole texts, and no character, not even a slash or a line feed, is special in them.
-/

namespace IdiomLint

/-- One item of a glob. -/
inductive GlobItem where
  /-- Any text. -/
  | star
  /-- Any character. -/
  | any
  /-- A character that stands for itself. -/
  | char (c : Char)
  /-- A character inside, or if negated outside, some ranges. -/
  | set (negated : Bool) (ranges : List (Char × Char))
  deriving DecidableEq

namespace Glob

/-- The end of a class whose opening bracket has been read: the content of the class and what follows
its closing bracket. That is the first closing bracket which is not the first character of the
content, an exclamation mark not counted. -/
def classEnd? (cs : List Char) : Option (List Char × List Char) :=
  let (mark, rest) := match cs with
    | '!' :: r => (['!'], r)
    | r => ([], r)
  let (first, rest) := match rest with
    | ']' :: r => ([']'], r)
    | r => ([], r)
  match rest.span (· != ']') with
  | (_, []) => none
  | (body, _ :: tail) => some (mark ++ first ++ body, tail)

/-- Cut the content of a class into the pieces between its range hyphens. The first `skip` characters
are no range hyphens, and after one the next two characters are none either. -/
def piecesFrom (skip : Nat) (current : List Char) : List Char → List (List Char)
  | [] => [current.reverse]
  | c :: rest =>
    match skip with
    | skip + 1 => piecesFrom skip (c :: current) rest
    | 0 => if c = '-' then current.reverse :: piecesFrom 2 [] rest else piecesFrom 0 (c :: current) rest

/-- A hyphen at the very end is a character of the last piece. -/
def keepLastHyphen : List (List Char) → List (List Char)
  | [] => []
  | [piece] => [piece]
  | [piece, []] => [piece ++ ['-']]
  | piece :: rest => piece :: keepLastHyphen rest

/-- The pieces of the content of a class. -/
def pieces (content : List Char) : List (List Char) :=
  let skip := match content with
    | '!' :: _ => 2
    | _ => 1
  keepLastHyphen (piecesFrom skip [] content)

/-- Remove, from the last one on, the ranges that begin after their end, with both ends. -/
def dropEmptyRanges : List (List Char) → List (List Char)
  | [] => []
  | piece :: rest =>
    match dropEmptyRanges rest with
    | [] => [piece]
    | next :: others =>
      match piece.getLast?, next.head? with
      | some low, some high =>
        if high < low then (piece.dropLast ++ next.drop 1) :: others else piece :: next :: others
      | _, _ => piece :: next :: others

/-- The ranges between neighbouring pieces. -/
def rangesBetween : List (List Char) → List (Char × Char)
  | piece :: next :: rest =>
    match piece.getLast?, next.head? with
    | some low, some high => (low, high) :: rangesBetween (next :: rest)
    | _, _ => rangesBetween (next :: rest)
  | _ => []

/-- All ranges of a class: every character of a piece, and those between pieces. -/
def rangesOf (pieces : List (List Char)) : List (Char × Char) :=
  pieces.flatten.map (fun c => (c, c)) ++ rangesBetween pieces

/-- The class with a given content. An exclamation mark in front negates it, also one that has come
to the front by the removal of a range; if it was the lower end of a range, the hyphen becomes a
character. -/
def classOf (content : List Char) : GlobItem :=
  match dropEmptyRanges (pieces content) with
  | ['!'] :: next :: rest => .set true (('-', '-') :: rangesOf (next :: rest))
  | ('!' :: piece) :: rest => .set true (rangesOf (piece :: rest))
  | all => .set false (rangesOf all)

/-- The items of a glob. The first argument is a bound on their number; the length of the text is
one. -/
def itemsWithin : Nat → List Char → List GlobItem
  | _, [] => []
  | 0, _ :: _ => []
  | fuel + 1, c :: rest =>
    if c = '*' then .star :: itemsWithin fuel rest
    else if c = '?' then .any :: itemsWithin fuel rest
    else if c = '[' then
      match classEnd? rest with
      | some (content, tail) => classOf content :: itemsWithin fuel tail
      | none => .char '[' :: itemsWithin fuel rest
    else .char c :: itemsWithin fuel rest

/-- The items of a glob. -/
def items (glob : List Char) : List GlobItem := itemsWithin glob.length glob

/-- All ends of a list, the list itself first. -/
def suffixes {α : Type} : List α → List (List α)
  | [] => [[]]
  | a :: rest => (a :: rest) :: suffixes rest

/-- Does an item stand for a character? -/
def accepts (c : Char) : GlobItem → Bool
  | .star => false
  | .any => true
  | .char d => c == d
  | .set negated ranges => ranges.any (fun r => r.1 ≤ c && c ≤ r.2) != negated

/-- Do items stand for a text? -/
def matchItems : List GlobItem → List Char → Bool
  | [], cs => cs.isEmpty
  | .star :: rest, cs => (suffixes cs).any (matchItems rest)
  | item :: rest, cs =>
    match cs with
    | [] => false
    | c :: cs => accepts c item && matchItems rest cs

/-! ## All ends of a text at once

Trying every end of a text for each star takes a number of steps that doubles with each star. Going
through the items from the last one on, and keeping the answer for every end of the text, takes as many
steps as there are items times characters. -/

/-- Is there a yes in a list, from each place on? -/
def anyFrom : List Bool → List Bool
  | [] => []
  | b :: rest =>
    let more := anyFrom rest
    (b || more.headD false) :: more

/-- The answers for an item that stands for one character, given those for the items after it. -/
def oneMore (item : GlobItem) : List Char → List Bool → List Bool
  | c :: cs, _ :: answers => (accepts c item && answers.headD false) :: oneMore item cs answers
  | _, _ => [false]

/-- Do items stand for a text, and for each of its ends? -/
def answers : List GlobItem → List Char → List Bool
  | [], cs => (suffixes cs).map List.isEmpty
  | .star :: rest, cs => anyFrom (answers rest cs)
  | item :: rest, cs => oneMore item cs (answers rest cs)

theorem suffixes_ne_nil {α : Type} (as : List α) : suffixes as ≠ [] := by
  cases as <;> simp [suffixes]

theorem headD_map_suffixes {α β : Type} (f : List α → β) (as : List α) (b : β) :
    ((suffixes as).map f).headD b = f as := by
  cases as <;> simp [suffixes]

theorem anyFrom_map_suffixes (f : List Char → Bool) (cs : List Char) :
    anyFrom ((suffixes cs).map f) = (suffixes cs).map fun ds => (suffixes ds).any f := by
  induction cs with
  | nil => simp [suffixes, anyFrom]
  | cons c cs ih =>
    rw [suffixes, List.map_cons, anyFrom, ih, headD_map_suffixes]
    simp [suffixes]

theorem oneMore_map_suffixes (item : GlobItem) (f : List Char → Bool) (cs : List Char) :
    oneMore item cs ((suffixes cs).map f) =
      (suffixes cs).map fun
        | [] => false
        | d :: ds => accepts d item && f ds := by
  induction cs with
  | nil => simp [suffixes, oneMore]
  | cons c cs ih =>
    rw [suffixes, List.map_cons, oneMore, ih, headD_map_suffixes]
    simp

/-- The answers are those that trying every end of the text gives. -/
theorem answers_eq (items : List GlobItem) (cs : List Char) :
    answers items cs = (suffixes cs).map (matchItems items) := by
  induction items with
  | nil =>
    rw [answers]
    exact List.map_congr_left fun ds _ => by rw [matchItems]
  | cons item rest ih =>
    cases item with
    | star =>
      rw [answers, ih, anyFrom_map_suffixes]
      exact List.map_congr_left fun ds _ => by rw [matchItems]
    | any | char | set =>
      rw [answers, ih, oneMore_map_suffixes]
      · refine List.map_congr_left fun ds _ => ?_
        cases ds <;> simp [matchItems]
      · simp

/-- Does a glob match a text? -/
def matchesText (glob text : String) : Bool := (answers (items glob.toList) text.toList).headD false

theorem matchesText_eq (glob text : String) :
    matchesText glob text = matchItems (items glob.toList) text.toList := by
  rw [matchesText, answers_eq, headD_map_suffixes]

end Glob

end IdiomLint
