/-!
# Edit scripts

`script` describes how one list of lines becomes another: stretches that stay and stretches that are
replaced. It looks for the longest common stretch, the first one of several, and goes on to both
sides of it. In long lists a line that occurs very often is no beginning of a common stretch, but a
stretch found without it is extended over it.
-/

namespace IdiomLint.Diff

/-- A stretch of lines that stays, or one that is replaced by another. -/
inductive Segment where
  | same (lines : List String)
  | change (old new : List String)
  deriving DecidableEq

/-- The lines of a segment before the change. -/
def Segment.old : Segment → List String
  | .same lines => lines
  | .change old _ => old

/-- The lines of a segment after the change. -/
def Segment.new : Segment → List String
  | .same lines => lines
  | .change _ new => new

/-- An old line with the places of the new lines that are equal to it and may begin a common
stretch. -/
structure Anchored where
  line : String
  places : List Nat

/-- A common stretch: where it begins in both lists, and its length. -/
structure Common where
  old : Nat
  new : Nat
  size : Nat
  deriving DecidableEq

/-- The common stretches that end with an old line, each given by the place of its last new line and
its length, from the places of the old line and the stretches that end one line earlier. Places
ascend. -/
def row : List Nat → List (Nat × Nat) → List (Nat × Nat)
  | [], _ => []
  | j :: places, earlier =>
    let earlier := earlier.dropWhile (·.1 + 1 < j)
    let before := match earlier with
      | (place, length) :: _ => if place + 1 = j then length else 0
      | [] => 0
    (j, before + 1) :: row places earlier

/-- The best stretch so far and those that end in a row, `i` being the place of the old line. The first
one of several is the best. -/
def bestInRow (best : Common) (i : Nat) : List (Nat × Nat) → Common
  | [] => best
  | (j, length) :: rest =>
    bestInRow (if best.size < length then ⟨i + 1 - length, j + 1 - length, length⟩ else best) i rest

/-- Go through the old lines from place `i` on, given the row of the line before. New lines count from
`low` on and before `high`. -/
def bestFrom (low high : Nat) (best : Common) (i : Nat) (earlier : List (Nat × Nat)) :
    List Anchored → Common
  | [] => best
  | a :: as =>
    let places := (a.places.dropWhile (· < low)).takeWhile (· < high)
    let lengths := row places earlier
    bestFrom low high (bestInRow best i lengths) (i + 1) lengths as

/-- The number of lines that two lists have in common at the front. -/
def commonLength : List Anchored → List String → Nat
  | a :: as, b :: bs => if a.line == b then commonLength as bs + 1 else 0
  | _, _ => 0

/-- The longest common stretch, extended to both sides as far as lines agree. The new lines are those
from place `low` on; the stretch is given by its places in the two lists at hand. -/
def longestCommon (low : Nat) (as : List Anchored) (bs : List String) : Common :=
  let best := bestFrom low (low + bs.length) ⟨0, low, 0⟩ 0 [] as
  let new := best.new - low
  let back := commonLength (as.take best.old).reverse (bs.take new).reverse
  let ahead := commonLength (as.drop (best.old + best.size)) (bs.drop (new + best.size))
  ⟨best.old - back, new - back, back + best.size + ahead⟩

/-- Lines that are replaced, if there are any. -/
def changeOf (old new : List String) : List Segment :=
  if old.isEmpty && new.isEmpty then [] else [.change old new]

/-- The script between two lists, the second one beginning at place `low`; every step of the recursion
takes at least one old line. -/
def scriptWithin : Nat → Nat → List Anchored → List String → List Segment
  | 0, _, as, bs => changeOf (as.map (·.line)) bs
  | fuel + 1, low, as, bs =>
    let found := longestCommon low as bs
    if found.size = 0 then changeOf (as.map (·.line)) bs
    else
      let next := found.new + found.size
      scriptWithin fuel low (as.take found.old) (bs.take found.new) ++
        .same (((as.drop found.old).take found.size).map (·.line)) ::
          scriptWithin fuel (low + next) (as.drop (found.old + found.size)) (bs.drop next)

/-- Put stretches that stay together when nothing stands between them. -/
def joinSame : List Segment → List Segment
  | .same a :: rest =>
    match joinSame rest with
    | .same b :: others => .same (a ++ b) :: others
    | others => .same a :: others
  | s :: rest => s :: joinSame rest
  | [] => []

/-- The places at which a line stands in a list, the first place being given. -/
def placesFrom (place : Nat) (line : String) : List String → List Nat
  | [] => []
  | b :: bs => if b == line then place :: placesFrom (place + 1) line bs
    else placesFrom (place + 1) line bs

/-- The places in the new list where a line may begin a common stretch. In lists of at least 200 lines
a line that occurs very often begins none. -/
def anchors (bs : List String) (line : String) : List Nat :=
  let places := placesFrom 0 line bs
  if 200 ≤ bs.length && bs.length / 100 + 1 < places.length then [] else places

/-- How a list of lines becomes another. -/
def script (as bs : List String) : List Segment :=
  joinSame (scriptWithin as.length 0 (as.map fun line => ⟨line, anchors bs line⟩) bs)

end IdiomLint.Diff
