import IdiomLint.Proofs.Correction.Inspection
import IdiomLint.Proofs.Diff.Hunks
import IdiomLint.Proofs.Diff.Script

/-!
# Reading differences back

The difference between two texts is a patch that makes one text of the other (`Change.apply_patch`). A reader
reads it, and the differences after it, exactly when every line that is shown but the very last one ends in a line
break: the last line of a text may have none, and there is no mark for that. Main statement: `readAll?_shown_iff`.
-/

namespace IdiomLint.Diff

/-- A text, what becomes of it, and the path of the file. -/
structure Change where
  old : String
  new : String
  path : String

namespace Change

/-- How the change is shown. -/
def diff (c : Change) : String := unified c.old c.new c.path

/-- The hunks of the change. -/
def hunks (c : Change) : List PatchHunk :=
  (Diff.hunks (script (Lines.ofText c.old) (Lines.ofText c.new))).map Hunk.toPatch

/-- The name of the file before the change. -/
def oldName (c : Change) : String := s!"a/{c.path}"

/-- The name of the file after the change. -/
def newName (c : Change) : String := s!"b/{c.path}"

/-- The lines in which the change is shown. -/
def lines (c : Change) : List String := Patch.written ⟨c.oldName, c.newName, c.hunks, []⟩

/-- What the change says to one who reads it. -/
def patch (c : Change) : Patch := ⟨c.oldName, c.newName, c.hunks, c.lines⟩

/-- A change of a text that a reader breaks into the same lines, in a file whose path is on one line. -/
structure Fits (ends : Char → Bool) (c : Change) : Prop where
  different : c.old ≠ c.new
  path : ∀ x ∈ c.path.toList, ends x = false
  old : Patch.linesOf ends c.old = Lines.ofText c.old
  new : Patch.linesOf ends c.new = Lines.ofText c.new

variable {ends : Char → Bool} {c : Change}

theorem join_ofText (s : String) : String.join (Lines.ofText s) = s := by
  rw [← String.toList_inj, String.toList_join, Lines.ofText, List.flatMap_map]
  simp only [String.toList_ofList]
  rw [List.flatMap_id', Lines.flatten_keepingEnds]

theorem applyAll_hunks (c : Change) :
    PatchHunk.applyAll c.hunks 0 0 (Lines.ofText c.old) = some (Lines.ofText c.new) := by
  have h := Diff.applyAll_hunks (script (Lines.ofText c.old) (Lines.ofText c.new))
  rwa [script_old, script_new] at h

theorem written_patch (c : Change) : c.patch.Written where
  source := rfl
  counted h hh := by
    obtain ⟨hunk, _, rfl⟩ := List.mem_map.mp hh
    exact hunk.counted_toPatch

/-- A change that changes something has a hunk. -/
theorem hunks_ne_nil (h : c.old ≠ c.new) : c.hunks ≠ [] := by
  intro hnil
  have happly := c.applyAll_hunks
  rw [hnil, applyAll_nil, Option.some.injEq] at happly
  exact h (by rw [← join_ofText c.old, happly, join_ofText])

/-- The lines in which a change is shown make up its difference. -/
theorem join_lines (h : c.old ≠ c.new) : String.join c.lines = c.diff := by
  have hne : Diff.hunks (script (Lines.ofText c.old) (Lines.ofText c.new)) ≠ [] := fun hnil =>
    hunks_ne_nil h (by rw [hunks, hnil, List.map_nil])
  have hold : s!"--- a/{c.path}\n" = s!"--- {c.oldName}\n" := by
    rw [← String.toList_inj]
    simp [oldName, toString]
  have hnew : s!"+++ b/{c.path}\n" = s!"+++ {c.newName}\n" := by
    rw [← String.toList_inj]
    simp [newName, toString]
  rw [diff, unified, if_neg (by simpa using hne), hold, hnew, lines, Patch.written, hunks, List.flatMap_map]
  simp only [Hunk.written_toPatch]

/-- The patch makes the new text of the old one. -/
theorem apply_patch (h : c.Fits ends) : c.patch.apply ends c.old = some c.new := by
  rw [Patch.apply, h.old]
  show (PatchHunk.applyAll c.hunks 0 0 _).map String.join = _
  rw [c.applyAll_hunks, Option.map_some, join_ofText]

/-- The lines in which a change is shown: the names of the file, the headers of hunks, and lines of the two texts
after a mark. -/
theorem mem_lines {line : String} (h : line ∈ c.lines) :
    line = s!"--- {c.oldName}\n" ∨ line = s!"+++ {c.newName}\n" ∨ (∃ hunk : PatchHunk, line = hunk.header) ∨
      ∃ l : PatchLine, line = l.written ∧ (∀ text, l.old? = some text → text ∈ Lines.ofText c.old) ∧
        ∀ text, l.new? = some text → text ∈ Lines.ofText c.new := by
  rw [lines, Patch.written, List.mem_cons, List.mem_cons, List.mem_flatMap] at h
  refine h.imp_right (Or.imp_right ?_)
  rintro ⟨hunk, hhunk, hline⟩
  refine (List.mem_cons.mp hline).imp (fun hheader => ⟨hunk, hheader⟩) fun hline => ?_
  obtain ⟨l, hl, rfl⟩ := List.mem_map.mp hline
  obtain ⟨hold, hnew⟩ := mem_of_applyAll c.applyAll_hunks hunk hhunk
  exact ⟨l, rfl, fun text htext => hold text (List.mem_filterMap.mpr ⟨l, hl, htext⟩),
    fun text htext => hnew text (List.mem_filterMap.mpr ⟨l, hl, htext⟩)⟩

end Change

/-! ## Readers -/

/-- One who breaks lines at line feeds, and only at line breaks. -/
structure Reader where
  ends : Char → Bool
  feed : ends '\n' = true
  breaks : ∀ c, ends c = true → Lines.isBreak c = true

namespace Reader

/-- Lines end at line feeds alone. -/
def feeds : Reader where
  ends c := c == '\n'
  feed := rfl
  breaks c hc := by rw [beq_iff_eq.mp hc]; rfl

/-- Lines end at every line break there is. -/
def allBreaks : Reader := ⟨Lines.isBreak, rfl, fun _ => id⟩

/-- One who breaks lines wherever a text is broken finds the lines of every text. -/
theorem fits_allBreaks {c : Change} (h : c.old ≠ c.new) (hpath : ∀ x ∈ c.path.toList, Lines.isBreak x = false) :
    c.Fits allBreaks.ends where
  different := h
  path := hpath
  old := by rw [Patch.linesOf, allBreaks, Lines.cutBy_isBreak, Lines.ofText]
  new := by rw [Patch.linesOf, allBreaks, Lines.cutBy_isBreak, Lines.ofText]

theorem eq_false (r : Reader) {c : Char} (hc : Lines.isBreak c = false) : r.ends c = false := by
  rw [Bool.eq_false_iff]
  intro hends
  rw [r.breaks c hends] at hc
  exact absurd hc Bool.noConfusion

/-- The reader takes a text for one line, which does not go on with the break before it. -/
def StandsAlone (r : Reader) (line : String) : Prop :=
  Lines.IsLine r.ends line.toList ∧ line.toList.head? ≠ some '\n'

variable (r : Reader)

/-- A line that ends in its first line feed. -/
theorem standsAlone_of_feed {line : String} {c : Char} {cs : List Char} (hline : line.toList = c :: cs ++ ['\n'])
    (h : ∀ x ∈ c :: cs, r.ends x = false) : r.StandsAlone line := by
  rw [StandsAlone, hline]
  refine ⟨Lines.isLine_append_feed r.feed h, ?_⟩
  rw [List.cons_append, List.head?_cons, ne_eq, Option.some.injEq]
  rintro rfl
  rw [List.forall_mem_cons, r.feed] at h
  exact absurd h.1 Bool.noConfusion

/-- A line after a mark. -/
theorem standsAlone_of_mark {line written : String} {mark : Char} (hwritten : written.toList = mark :: line.toList)
    (hmark : Lines.isBreak mark = false) (hline : Lines.IsLine r.ends line.toList) : r.StandsAlone written := by
  have hne : ∀ c, Lines.isBreak c = true → mark ≠ c := by
    rintro c hc rfl
    rw [hc] at hmark
    exact absurd hmark Bool.noConfusion
  refine ⟨hwritten ▸ hline.cons (r.eq_false hmark) (hne _ (by decide)), ?_⟩
  rw [hwritten, List.head?_cons, ne_eq, Option.some.injEq]
  exact hne _ (by decide)

theorem isBreak_of_mem_rangeText {e : Extent} {c : Char} (h : c ∈ (rangeText e.before e.count).toList) :
    Lines.isBreak c = false := by
  by_contra hbreak
  have hc : c.isDigit = false ∧ c ≠ ',' := by
    simp only [Bool.not_eq_false, Lines.isBreak, Bool.or_eq_true, beq_iff_eq] at hbreak
    rcases hbreak with ((((((((rfl | rfl) | rfl) | rfl) | rfl) | rfl) | rfl) | rfl) | rfl) | rfl <;> decide
  exact e.not_mem_rangeText hc.1 hc.2 h

/-- The header of a hunk ends in its only line break. -/
theorem exists_toList_header (h : PatchHunk) : ∃ cs, h.header.toList = '@' :: cs ++ ['\n'] ∧
    ∀ x ∈ '@' :: cs, Lines.isBreak x = false := by
  refine ⟨['@', ' ', '-'] ++ (rangeText h.old.before h.old.count).toList ++
    ([' ', '+'] ++ (rangeText h.new.before h.new.count).toList ++ [' ', '@', '@']), ?_, ?_⟩
  · rw [h.toList_header]
    simp
  · intro x hx
    simp only [List.mem_cons, List.mem_append, List.not_mem_nil, or_false] at hx
    rcases hx with rfl | ((rfl | rfl | rfl) | hx) | ((rfl | rfl) | hx) | rfl | rfl | rfl
    all_goals first | decide | exact isBreak_of_mem_rangeText hx

theorem isLine_of_mem_linesOf {line text : String} (h : line ∈ Patch.linesOf r.ends text) :
    Lines.IsLine r.ends line.toList := by
  obtain ⟨cs, hcs, rfl⟩ := List.mem_map.mp h
  rw [String.toList_ofList]
  exact Lines.isLine_of_mem_cutBy hcs

/-- Each of the lines in which a change is shown is one line for the reader. -/
theorem standsAlone_of_mem_lines {c : Change} (hc : c.Fits r.ends) {line : String} (hline : line ∈ c.lines) :
    r.StandsAlone line := by
  have hname : ∀ {line : String} (mark side : Char), Lines.isBreak mark = false → Lines.isBreak side = false →
      line.toList = mark :: mark :: mark :: ' ' :: side :: '/' :: c.path.toList ++ ['\n'] → r.StandsAlone line := by
    intro line mark side hmark hside hline
    refine r.standsAlone_of_feed hline ?_
    simp only [List.forall_mem_cons]
    exact ⟨r.eq_false hmark, r.eq_false hmark, r.eq_false hmark, r.eq_false (by decide), r.eq_false hside,
      r.eq_false (by decide), hc.path⟩
  rcases Change.mem_lines hline with rfl | rfl | ⟨hunk, rfl⟩ | ⟨l, rfl, hold, hnew⟩
  · exact hname '-' 'a' (by decide) (by decide) (by simp [Change.oldName, toString])
  · exact hname '+' 'b' (by decide) (by decide) (by simp [Change.newName, toString])
  · obtain ⟨cs, hheader, hcs⟩ := exists_toList_header hunk
    exact r.standsAlone_of_feed hheader fun x hx => r.eq_false (hcs x hx)
  · rw [← hc.old] at hold
    rw [← hc.new] at hnew
    cases l with
    | keep text =>
        exact r.standsAlone_of_mark (String.toList_append ..) (by decide) (r.isLine_of_mem_linesOf (hold text rfl))
    | drop text =>
        exact r.standsAlone_of_mark (String.toList_append ..) (by decide) (r.isLine_of_mem_linesOf (hold text rfl))
    | add text =>
        exact r.standsAlone_of_mark (String.toList_append ..) (by decide) (r.isLine_of_mem_linesOf (hnew text rfl))

/-- A text is empty, or its last line ends in a break. -/
def Finished (text : String) : Prop := ∀ c, text.toList.getLast? = some c → r.ends c = true

theorem ended_of_mem_linesOf {text line : String} (htext : r.Finished text) (h : line ∈ Patch.linesOf r.ends text) :
    Lines.Ended r.ends line.toList := by
  obtain ⟨cs, hcs, rfl⟩ := List.mem_map.mp h
  rw [String.toList_ofList]
  exact Lines.ended_of_mem_cutBy r.feed htext hcs

/-- Each of the lines in which a change is shown ends in a break if the texts do. -/
theorem ended_of_mem_lines {c : Change} (hc : c.Fits r.ends) (hold : r.Finished c.old) (hnew : r.Finished c.new)
    {line : String} (hline : line ∈ c.lines) : Lines.Ended r.ends line.toList := by
  have hfeed : ∀ {line : String} (cs : List Char), line.toList = cs ++ ['\n'] → Lines.Ended r.ends line.toList :=
    fun _ h => ⟨'\n', by rw [h, List.getLast?_concat], r.feed⟩
  have hmark : ∀ {mark text : String}, Lines.Ended r.ends text.toList → Lines.Ended r.ends (mark ++ text).toList := by
    rintro mark text ⟨last, hlast, hends⟩
    exact ⟨last, by rw [String.toList_append, List.getLast?_append, hlast]; rfl, hends⟩
  rcases Change.mem_lines hline with rfl | rfl | ⟨hunk, rfl⟩ | ⟨l, rfl, htextOld, htextNew⟩
  · exact hfeed ("--- a/".toList ++ c.path.toList) (by simp [Change.oldName, toString])
  · exact hfeed ("+++ b/".toList ++ c.path.toList) (by simp [Change.newName, toString])
  · obtain ⟨cs, hheader, _⟩ := exists_toList_header hunk
    exact hfeed _ hheader
  · rw [← hc.old] at htextOld
    rw [← hc.new] at htextNew
    cases l with
    | keep text => exact hmark (r.ended_of_mem_linesOf hold (htextOld text rfl))
    | drop text => exact hmark (r.ended_of_mem_linesOf hold (htextOld text rfl))
    | add text => exact hmark (r.ended_of_mem_linesOf hnew (htextNew text rfl))

/-- Lines that are put together are read as they were exactly when all but the last one end in a break. -/
theorem linesOf_join_iff {ls : List String} (h : ∀ line ∈ ls, r.StandsAlone line) :
    Patch.linesOf r.ends (String.join ls) = ls ↔ ∀ line ∈ ls.dropLast, Lines.Ended r.ends line.toList := by
  have hmap : Patch.linesOf r.ends (String.join ls) = ls ↔
      Lines.cutBy r.ends (ls.map String.toList).flatten = ls.map String.toList := by
    rw [Patch.linesOf, String.toList_join, List.flatMap_def]
    constructor
    · intro h
      conv_rhs => rw [← h]
      simp
    · intro h
      rw [h]
      simp
  rw [hmap, Lines.cutBy_flatten_iff r.feed]
  · rw [← List.map_dropLast, List.forall_mem_map]
  · rw [List.forall_mem_map]
    exact fun line hline => (h line hline).1
  · rw [List.forall_mem_map]
    exact fun line hline => (h line hline).2

end Reader

/-! ## Differences one after the other -/

/-- What is shown of several changes. -/
def shown (changes : List Change) : String := String.join (changes.map Change.diff)

theorem shown_cons (c : Change) (changes : List Change) : shown (c :: changes) = c.diff ++ shown changes :=
  String.join_cons

theorem join_flatMap_lines {changes : List Change} (h : ∀ c ∈ changes, c.old ≠ c.new) :
    String.join (changes.flatMap Change.lines) = shown changes := by
  have hlines : ∀ c ∈ changes, c.lines.flatMap String.toList = c.diff.toList := by
    intro c hc
    rw [← Change.join_lines (h c hc), String.toList_join]
  rw [← String.toList_inj, shown, String.toList_join, String.toList_join, List.flatMap_assoc, List.flatMap_map]
  exact List.flatMap_congr hlines

/-- **The differences are read as the patches that they are exactly when every line that is shown but the last one
ends in a break.** -/
theorem readAll?_shown_iff (r : Reader) {changes : List Change} (h : ∀ c ∈ changes, c.Fits r.ends) :
    Patch.readAll? r.ends (shown changes) = some (changes.map Change.patch) ↔
      ∀ line ∈ (changes.flatMap Change.lines).dropLast, Lines.Ended r.ends line.toList := by
  have hwritten : ∀ p ∈ changes.map Change.patch, p.Written := by
    rw [List.forall_mem_map]
    exact fun c _ => c.written_patch
  have hlines : ∀ line ∈ changes.flatMap Change.lines, r.StandsAlone line := by
    intro line hline
    obtain ⟨c, hc, hline⟩ := List.mem_flatMap.mp hline
    exact r.standsAlone_of_mem_lines (h c hc) hline
  rw [Patch.readAll?_eq_some_iff hwritten, ← join_flatMap_lines fun c hc => (h c hc).different, List.flatMap_map]
  exact r.linesOf_join_iff hlines

/-- Differences between texts that end in a break are read as the patches that they are. -/
theorem readAll?_shown_of_finished (r : Reader) {changes : List Change} (h : ∀ c ∈ changes, c.Fits r.ends)
    (hfinished : ∀ c ∈ changes, r.Finished c.old ∧ r.Finished c.new) :
    Patch.readAll? r.ends (shown changes) = some (changes.map Change.patch) := by
  refine (readAll?_shown_iff r h).mpr fun line hline => ?_
  obtain ⟨c, hc, hline⟩ := List.mem_flatMap.mp (List.dropLast_subset _ hline)
  exact r.ended_of_mem_lines (h c hc) (hfinished c hc).1 (hfinished c hc).2 hline

end IdiomLint.Diff
