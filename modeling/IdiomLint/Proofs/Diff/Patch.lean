import IdiomLint.Diff.Unified
import IdiomLint.Proofs.Text.Cutting

/-!
# Patches

What a unified diff says to one who reads it line by line: file names, and hunks with the lines that stay, go
and come. The header of a hunk tells how many lines follow, so that a line in a hunk is never taken for a header
(`Patch.readFrom`). A patch is applied when the lines of every hunk that stay and go stand where its header says.

Patches that are written one after the other are read again (`Patch.readAll_written`).
-/

namespace IdiomLint.Diff

/-- A line of a hunk: it stays, goes or comes. -/
inductive PatchLine where
  | keep (line : String)
  | drop (line : String)
  | add (line : String)
  deriving DecidableEq

namespace PatchLine

/-- The line if it is there before the change. -/
def old? : PatchLine → Option String
  | .keep line | .drop line => some line
  | .add _ => none

/-- The line if it is there after the change. -/
def new? : PatchLine → Option String
  | .keep line | .add line => some line
  | .drop _ => none

/-- The line after its mark. -/
def written : PatchLine → String
  | .keep line => " " ++ line
  | .drop line => "-" ++ line
  | .add line => "+" ++ line

/-- What a line says in a hunk of which `old` and `new` lines are still to come, and how many are then. -/
def read? (old new : Nat) (line : String) : Option (PatchLine × Nat × Nat) :=
  match line.toList with
  | ' ' :: line => if 0 < old ∧ 0 < new then some (.keep (String.ofList line), old - 1, new - 1) else none
  | '-' :: line => if 0 < old then some (.drop (String.ofList line), old - 1, new) else none
  | '+' :: line => if 0 < new then some (.add (String.ofList line), old, new - 1) else none
  | _ => none

end PatchLine

/-- A stretch of lines: how many lines are before it, and how many it has. -/
structure Extent where
  before : Nat
  count : Nat
  deriving DecidableEq

namespace Extent

/-- A number in decimal digits. -/
def number? (cs : List Char) : Option Nat :=
  if !cs.isEmpty && cs.all Char.isDigit then some (Nat.ofDigitChars 10 cs 0) else none

/-- A stretch as a header gives it: the number of its first line and its count, one line if there is no count. A
stretch without lines is given by the line before it. -/
def read? (cs : List Char) : Option Extent :=
  match cs.splitOn ',' with
  | [first] =>
    match number? first with
    | some (before + 1) => some ⟨before, 1⟩
    | _ => none
  | [first, count] =>
    match number? first, number? count with
    | some before, some 0 => some ⟨before, 0⟩
    | some (before + 1), some count => some ⟨before, count⟩
    | _, _ => none
  | _ => none

end Extent

/-- A hunk of a patch: the stretches it is about, and its lines. -/
structure PatchHunk where
  old : Extent
  new : Extent
  lines : List PatchLine
  deriving DecidableEq

/-- What a patch says about one file, and the lines in which it says so. -/
structure Patch where
  oldName : String
  newName : String
  hunks : List PatchHunk
  source : List String
  deriving DecidableEq

namespace PatchHunk

/-- The lines of a hunk before the change. -/
def oldLines (h : PatchHunk) : List String := h.lines.filterMap PatchLine.old?

/-- The lines of a hunk after the change. -/
def newLines (h : PatchHunk) : List String := h.lines.filterMap PatchLine.new?

/-- The stretches in the header of a hunk. -/
def header? (line : String) : Option (Extent × Extent) :=
  match line.toList.splitOn ' ' with
  | [['@', '@'], '-' :: old, '+' :: new, ['@', '@', '\n']] =>
    match Extent.read? old, Extent.read? new with
    | some old, some new => some (old, new)
    | _, _ => none
  | _ => none

/-- Lines with hunks applied to them, of which the first `old` lines are done and have become `new` lines. The
lines of a hunk before the change must stand where its header says. -/
def applyAll : List PatchHunk → Nat → Nat → List String → Option (List String)
  | [], _, _, lines => some lines
  | h :: hunks, old, new, lines =>
    let gap := h.old.before - old
    if old ≤ h.old.before ∧ gap ≤ lines.length ∧ h.new.before = new + gap ∧
        (lines.drop gap).take h.oldLines.length = h.oldLines then
      (applyAll hunks (h.old.before + h.oldLines.length) (h.new.before + h.newLines.length)
        (lines.drop (gap + h.oldLines.length))).map (lines.take gap ++ h.newLines ++ ·)
    else none

end PatchHunk

namespace Patch

/-- The lines of a text, as a reader takes them for whom `ends` are the characters that end a line. -/
def linesOf (ends : Char → Bool) (text : String) : List String :=
  (Lines.cutBy ends text.toList).map String.ofList

/-- The text that a patch makes of a text. -/
def apply (ends : Char → Bool) (p : Patch) (text : String) : Option String :=
  (PatchHunk.applyAll p.hunks 0 0 (linesOf ends text)).map String.join

/-- What is read from some line on: the rest of the hunk and of the patch that are open there, the lines of these
rests, and the patches after them. -/
structure Reading where
  lines : List PatchLine
  hunks : List PatchHunk
  source : List String
  patches : List Patch

namespace Reading

/-- At the end nothing is open. -/
def empty : Reading := ⟨[], [], [], []⟩

/-- With a line of a hunk in front. -/
def withLine (line : String) (l : PatchLine) (r : Reading) : Reading :=
  { r with lines := l :: r.lines, source := line :: r.source }

/-- With the header of a hunk in front. -/
def withHeader (line : String) (stretches : Extent × Extent) (r : Reading) : Reading :=
  ⟨[], ⟨stretches.1, stretches.2, r.lines⟩ :: r.hunks, line :: r.source, r.patches⟩

/-- With two lines in front that name a file. -/
def withNames (line next : String) (oldName newName : String) (r : Reading) : Reading :=
  ⟨[], [], [], ⟨oldName, newName, r.hunks, line :: next :: r.source⟩ :: r.patches⟩

end Reading

/-- The name in a line that begins with a mark three times. -/
def name? (mark : Char) (line : String) : Option String :=
  if [mark, mark, mark, ' '].isPrefixOf line.toList && line.toList.getLast? == some '\n' then
    some (String.ofList (line.toList.drop 4).dropLast)
  else none

/-- What lines say when `old` and `new` lines of a hunk are still to come. -/
def readFrom : List String → Nat → Nat → Option Reading
  | [], old, new => if old = 0 ∧ new = 0 then some .empty else none
  | line :: rest, old, new =>
    if old = 0 ∧ new = 0 then
      match PatchHunk.header? line, rest with
      | some stretches, rest =>
        (readFrom rest stretches.1.count stretches.2.count).map (·.withHeader line stretches)
      | none, [] => none
      | none, next :: rest =>
        match name? '-' line, name? '+' next with
        | some oldName, some newName => (readFrom rest 0 0).map (·.withNames line next oldName newName)
        | _, _ => none
    else
      match PatchLine.read? old new line with
      | some (l, old, new) => (readFrom rest old new).map (·.withLine line l)
      | none => none

/-- The patches in a text. There is no hunk outside a patch. -/
def readAll? (ends : Char → Bool) (text : String) : Option (List Patch) :=
  match readFrom (linesOf ends text) 0 0 with
  | some r => if r.hunks.isEmpty then some r.patches else none
  | none => none

end Patch

/-! ## Numbers and headers -/

namespace Extent

theorem number?_toDigits (n : Nat) : number? (Nat.toDigits 10 n) = some n := by
  have hdigits : (Nat.toDigits 10 n).all Char.isDigit = true :=
    List.all_eq_true.mpr fun c hc => Nat.isDigit_of_mem_toDigits (by decide) (by decide) hc
  have hne : (Nat.toDigits 10 n).isEmpty = false := List.isEmpty_eq_false_iff.mpr Nat.toDigits_ne_nil
  rw [number?, hdigits, hne, Nat.ofDigitChars_ten_toDigits]
  rfl

theorem not_mem_toDigits {c : Char} (hc : c.isDigit = false) (n : Nat) : c ∉ Nat.toDigits 10 n := by
  intro hmem
  rw [Nat.isDigit_of_mem_toDigits (by decide) (by decide) hmem] at hc
  exact absurd hc Bool.noConfusion

theorem toList_rangeText (e : Extent) : (rangeText e.before e.count).toList =
    if e.count = 1 then Nat.toDigits 10 (e.before + 1)
    else if e.count = 0 then Nat.toDigits 10 e.before ++ ',' :: Nat.toDigits 10 0
    else Nat.toDigits 10 (e.before + 1) ++ ',' :: Nat.toDigits 10 e.count := by
  rw [rangeText]
  split
  · simp
  · split
    · simp [toString]
    · simp [toString]

/-- A stretch is read as it is written. -/
theorem read?_rangeText (e : Extent) : read? (rangeText e.before e.count).toList = some e := by
  obtain ⟨before, count⟩ := e
  have hcomma := not_mem_toDigits (c := ',') (by decide)
  rw [toList_rangeText, read?]
  by_cases hone : count = 1
  · rw [if_pos hone, List.splitOn_eq_singleton (hcomma _), hone]
    simp only [number?_toDigits]
  · by_cases hzero : count = 0
    · rw [if_neg hone, if_pos hzero, List.splitOn_append_cons_self_of_not_mem (hcomma _),
        List.splitOn_eq_singleton (hcomma _), hzero]
      simp only [number?_toDigits]
    · obtain ⟨more, rfl⟩ := Nat.exists_eq_succ_of_ne_zero hzero
      rw [if_neg hone, if_neg hzero, List.splitOn_append_cons_self_of_not_mem (hcomma _),
        List.splitOn_eq_singleton (hcomma _)]
      simp only [number?_toDigits, Nat.succ_eq_add_one]

theorem not_mem_rangeText (e : Extent) {c : Char} (hc : c.isDigit = false) (hcomma : c ≠ ',') :
    c ∉ (rangeText e.before e.count).toList := by
  have hdigits := not_mem_toDigits hc
  have hlist : ∀ m n, c ∉ Nat.toDigits 10 m ++ ',' :: Nat.toDigits 10 n := by
    intro m n
    rw [List.mem_append, List.mem_cons, not_or, not_or]
    exact ⟨hdigits m, hcomma, hdigits n⟩
  rw [toList_rangeText]
  split
  · exact hdigits _
  · split
    · exact hlist _ _
    · exact hlist _ _

end Extent

namespace PatchHunk

/-- The header of a hunk as it is written. -/
def header (h : PatchHunk) : String :=
  s!"@@ -{rangeText h.old.before h.old.count} +{rangeText h.new.before h.new.count} @@\n"

theorem toList_header (h : PatchHunk) : h.header.toList = ['@', '@'] ++ ' ' ::
    ('-' :: (rangeText h.old.before h.old.count).toList ++ ' ' ::
      ('+' :: (rangeText h.new.before h.new.count).toList ++ ' ' :: ['@', '@', '\n'])) := by
  simp [header, toString]

theorem header?_header (h : PatchHunk) : header? h.header = some (h.old, h.new) := by
  have hold := h.old.not_mem_rangeText (c := ' ') (by decide) (by decide)
  have hnew := h.new.not_mem_rangeText (c := ' ') (by decide) (by decide)
  rw [header?, toList_header, List.splitOn_append_cons_self_of_not_mem (by decide),
    List.splitOn_append_cons_self_of_not_mem (by simpa using hold),
    List.splitOn_append_cons_self_of_not_mem (by simpa using hnew), List.splitOn_eq_singleton (by decide)]
  simp only [Extent.read?_rangeText]

/-- A header begins with its mark. -/
theorem header?_eq_none {line : String} (h : line.toList.head? ≠ some '@') : header? line = none := by
  rw [header?]
  split
  · next old new hpieces =>
      have hline : [' '].intercalate (line.toList.splitOn ' ') = line.toList := List.intercalate_splitOn ' '
      rw [hpieces] at hline
      rw [← hline] at h
      exact absurd rfl h
  · rfl

/-- A hunk as it is written. -/
def written (h : PatchHunk) : List String := h.header :: h.lines.map PatchLine.written

/-- The header tells how many lines there are. -/
structure Counted (h : PatchHunk) : Prop where
  old : h.old.count = h.oldLines.length
  new : h.new.count = h.newLines.length

end PatchHunk

/-! ## What is written is read -/

namespace Patch

section Reading

variable {line next : String} {rest : List String} {r : Reading}

theorem readFrom_of_line {old new old' new' : Nat} {l : PatchLine} (hopen : ¬ (old = 0 ∧ new = 0))
    (hread : PatchLine.read? old new line = some (l, old', new')) :
    readFrom (line :: rest) old new = (readFrom rest old' new').map (·.withLine line l) := by
  rw [readFrom.eq_def]
  dsimp only
  rw [if_neg hopen, hread]

theorem readFrom_of_header {stretches : Extent × Extent} (hheader : PatchHunk.header? line = some stretches) :
    readFrom (line :: rest) 0 0 =
      (readFrom rest stretches.1.count stretches.2.count).map (·.withHeader line stretches) := by
  rw [readFrom.eq_def]
  dsimp only
  rw [if_pos ⟨rfl, rfl⟩, hheader]

theorem readFrom_of_names {oldName newName : String} (hheader : PatchHunk.header? line = none)
    (hold : name? '-' line = some oldName) (hnew : name? '+' next = some newName) :
    readFrom (line :: next :: rest) 0 0 = (readFrom rest 0 0).map (·.withNames line next oldName newName) := by
  rw [readFrom.eq_def]
  dsimp only
  rw [if_pos ⟨rfl, rfl⟩, hheader]
  dsimp only
  rw [hold, hnew]

/-- No hunk is open after its last line, and a patch that is open begins with a hunk. -/
theorem closed_of_readFrom (h : readFrom rest 0 0 = some r) : r.lines = [] ∧ (r.hunks = [] → r.source = []) := by
  rw [readFrom.eq_def] at h
  split at h
  · rw [if_pos ⟨rfl, rfl⟩, Option.some.injEq] at h
    rw [← h]
    exact ⟨rfl, fun _ => rfl⟩
  · rw [if_pos ⟨rfl, rfl⟩] at h
    split at h
    · obtain ⟨_, _, rfl⟩ := Option.map_eq_some_iff.mp h
      exact ⟨rfl, fun hnil => absurd hnil (List.cons_ne_nil _ _)⟩
    · exact absurd h (Option.some_ne_none r).symm
    · split at h
      · obtain ⟨_, _, rfl⟩ := Option.map_eq_some_iff.mp h
        exact ⟨rfl, fun _ => rfl⟩
      · exact absurd h (Option.some_ne_none r).symm

/-- Every line that is read has its place in what is read. -/
theorem source_of_readFrom {ls : List String} {old new : Nat} (h : readFrom ls old new = some r) :
    r.source ++ r.patches.flatMap source = ls := by
  fun_induction readFrom ls old new generalizing r with
  | case1 => 
      rw [Option.some.injEq] at h
      rw [← h]
      rfl
  | case2 => exact absurd h (Option.some_ne_none r).symm
  | case3 line _ _ _ _ rest _ ih =>
      obtain ⟨later, hlater, rfl⟩ := Option.map_eq_some_iff.mp h
      exact congrArg (line :: ·) (ih hlater)
  | case4 => exact absurd h (Option.some_ne_none r).symm
  | case5 line _ _ _ next rest _ _ _ _ _ ih =>
      obtain ⟨later, hlater, rfl⟩ := Option.map_eq_some_iff.mp h
      exact congrArg (line :: next :: ·) (ih hlater)
  | case6 => exact absurd h (Option.some_ne_none r).symm
  | case7 line rest _ _ _ _ _ _ _ ih =>
      obtain ⟨later, hlater, rfl⟩ := Option.map_eq_some_iff.mp h
      exact congrArg (line :: ·) (ih hlater)
  | case8 => exact absurd h (Option.some_ne_none r).symm

end Reading

theorem read?_written (l : PatchLine) (ls : List PatchLine) :
    PatchLine.read? ((l :: ls).filterMap PatchLine.old?).length ((l :: ls).filterMap PatchLine.new?).length
      l.written = some (l, (ls.filterMap PatchLine.old?).length, (ls.filterMap PatchLine.new?).length) := by
  cases l <;> simp [PatchLine.written, PatchLine.read?, List.filterMap_cons, PatchLine.old?, PatchLine.new?]

/-- The lines of a hunk are read until there are as many as its header says. -/
theorem readFrom_lines (ls : List PatchLine) (rest : List String) :
    readFrom (ls.map PatchLine.written ++ rest) (ls.filterMap PatchLine.old?).length
        (ls.filterMap PatchLine.new?).length =
      (readFrom rest 0 0).map fun r =>
        { r with lines := ls ++ r.lines, source := ls.map PatchLine.written ++ r.source } := by
  induction ls with
  | nil => simp
  | cons l ls ih =>
      have hopen : ¬ (((l :: ls).filterMap PatchLine.old?).length = 0 ∧
          ((l :: ls).filterMap PatchLine.new?).length = 0) := by
        cases l <;> simp [PatchLine.old?, PatchLine.new?]
      rw [List.map_cons, List.cons_append, readFrom_of_line hopen (read?_written l ls), ih, Option.map_map]
      simp only [Reading.withLine, List.cons_append, Function.comp_def]

/-- A hunk is read, and what comes after it. -/
theorem readFrom_hunk {h : PatchHunk} (hcounted : h.Counted) (rest : List String) :
    readFrom (h.written ++ rest) 0 0 = (readFrom rest 0 0).map fun r =>
      { r with hunks := h :: r.hunks, source := h.written ++ r.source } := by
  have hlines := readFrom_lines h.lines rest
  rw [← PatchHunk.oldLines, ← PatchHunk.newLines, ← hcounted.old, ← hcounted.new] at hlines
  rw [PatchHunk.written, List.cons_append, readFrom_of_header h.header?_header, hlines, Option.map_map]
  cases hrest : readFrom rest 0 0 with
  | none => rfl
  | some r =>
      simp only [Option.map_some, Function.comp_apply, Reading.withHeader, (closed_of_readFrom hrest).1,
        List.append_nil, List.cons_append]

theorem readFrom_hunks {hs : List PatchHunk} (hcounted : ∀ h ∈ hs, h.Counted) (rest : List String) :
    readFrom (hs.flatMap PatchHunk.written ++ rest) 0 0 = (readFrom rest 0 0).map fun r =>
      { r with hunks := hs ++ r.hunks, source := hs.flatMap PatchHunk.written ++ r.source } := by
  induction hs with
  | nil => simp
  | cons h hs ih =>
      rw [List.forall_mem_cons] at hcounted
      rw [List.flatMap_cons, List.append_assoc, readFrom_hunk hcounted.1, ih hcounted.2, Option.map_map]
      simp only [List.append_assoc, List.cons_append, Function.comp_def]

/-- The lines of a patch as they are written. -/
def written (p : Patch) : List String :=
  s!"--- {p.oldName}\n" :: s!"+++ {p.newName}\n" :: p.hunks.flatMap PatchHunk.written

/-- A patch that stands as it is written, with the counts that its lines have. -/
structure Written (p : Patch) : Prop where
  source : p.source = p.written
  counted : ∀ h ∈ p.hunks, h.Counted

theorem name?_of_toList {mark : Char} {line name : String}
    (h : line.toList = [mark, mark, mark, ' '] ++ (name.toList ++ ['\n'])) : name? mark line = some name := by
  have hlast : ([mark, mark, mark, ' '] ++ (name.toList ++ ['\n'])).getLast? = some '\n' := by
    rw [← List.append_assoc, List.getLast?_concat]
  rw [name?, h, List.isPrefixOf_iff_prefix.mpr (List.prefix_append _ _), hlast]
  simp

/-- Patches that follow one another are read. -/
theorem readFrom_patches {ps : List Patch} (hps : ∀ p ∈ ps, p.Written) :
    readFrom (ps.flatMap written) 0 0 = some ⟨[], [], [], ps⟩ := by
  induction ps with
  | nil => rfl
  | cons p ps ih =>
      rw [List.forall_mem_cons] at hps
      have hold : (s!"--- {p.oldName}\n").toList = ['-', '-', '-', ' '] ++ (p.oldName.toList ++ ['\n']) := by
        simp [toString]
      have hnew : (s!"+++ {p.newName}\n").toList = ['+', '+', '+', ' '] ++ (p.newName.toList ++ ['\n']) := by
        simp [toString]
      have hheader : PatchHunk.header? (s!"--- {p.oldName}\n") = none :=
        PatchHunk.header?_eq_none (by rw [hold]; simp)
      rw [List.flatMap_cons, written, List.cons_append, List.cons_append,
        readFrom_of_names hheader (name?_of_toList hold) (name?_of_toList hnew), readFrom_hunks hps.1.counted,
        ih hps.2]
      simp only [Option.map_some, Reading.withNames, List.append_nil]
      rw [← written, ← hps.1.source]

/-- **Patches are read from a text exactly when its lines are those in which they are written.** -/
theorem readAll?_eq_some_iff {ends : Char → Bool} {text : String} {ps : List Patch} (hps : ∀ p ∈ ps, p.Written) :
    readAll? ends text = some ps ↔ linesOf ends text = ps.flatMap written := by
  have hsource : ps.flatMap source = ps.flatMap written :=
    List.flatMap_congr fun p hp => (hps p hp).source
  rw [readAll?, ← hsource]
  constructor
  · intro h
    split at h
    · next r hread =>
        rw [Option.ite_none_right_eq_some, List.isEmpty_iff, Option.some.injEq] at h
        obtain ⟨hnone, rfl⟩ := h
        rw [← source_of_readFrom hread, (closed_of_readFrom hread).2 hnone, List.nil_append]
    · exact absurd h (Option.some_ne_none ps).symm
  · intro h
    rw [h, hsource, readFrom_patches hps]
    rfl

end Patch

end IdiomLint.Diff
