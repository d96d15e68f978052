import IdiomLint.Proofs.Diff.Patch

/-!
# The hunks of a script

The hunks of a script leave out lines that stay, and say by their places how many. Applied to the old lines of the
script they give its new lines (`applyAll_hunks`): while segments are gathered, the open hunk, the lines left out
in front of it and the segments to come make up what is still to be done.
-/

namespace IdiomLint.Diff

/-- The lines of a segment, each as a line of a hunk. -/
def Segment.lines : Segment → List PatchLine
  | .same lines => lines.map .keep
  | .change old new => old.map .drop ++ new.map .add

theorem Segment.map_written_lines (s : Segment) : s.lines.map PatchLine.written = s.marked := by
  cases s <;> simp [lines, marked, PatchLine.written, Function.comp_def]

theorem Segment.filterMap_old_lines (s : Segment) : s.lines.filterMap PatchLine.old? = s.old := by
  cases s <;> simp [lines, Segment.old, List.filterMap_map, PatchLine.old?, Function.comp_def]

theorem Segment.filterMap_new_lines (s : Segment) : s.lines.filterMap PatchLine.new? = s.new := by
  cases s <;> simp [lines, Segment.new, List.filterMap_map, PatchLine.new?, Function.comp_def]

namespace Hunk

/-- A hunk of a script as one of a patch. -/
def toPatch (h : Hunk) : PatchHunk :=
  ⟨⟨h.oldStart, h.old.length⟩, ⟨h.newStart, h.new.length⟩, h.segments.flatMap Segment.lines⟩

theorem oldLines_toPatch (h : Hunk) : h.toPatch.oldLines = h.old := by
  simp only [PatchHunk.oldLines, toPatch, List.filterMap_flatMap, Segment.filterMap_old_lines]
  rfl

theorem newLines_toPatch (h : Hunk) : h.toPatch.newLines = h.new := by
  simp only [PatchHunk.newLines, toPatch, List.filterMap_flatMap, Segment.filterMap_new_lines]
  rfl

theorem counted_toPatch (h : Hunk) : h.toPatch.Counted where
  old := by rw [oldLines_toPatch, toPatch]
  new := by rw [newLines_toPatch, toPatch]

/-- A hunk is shown as it is written in a patch. -/
theorem written_toPatch (h : Hunk) : h.toPatch.written = h.render := by
  rw [PatchHunk.written, render, toPatch, List.map_flatMap]
  simp only [Segment.map_written_lines]
  rfl

end Hunk

/-! ## Applying the hunks -/

theorem applyAll_nil (oldDone newDone : Nat) (lines : List String) :
    PatchHunk.applyAll [] oldDone newDone lines = some lines := rfl

/-- Lines with a hunk applied to them: those in front of it stay, its old lines give way to its new lines. -/
theorem applyAll_cons {h : Hunk} {oldDone newDone : Nat} {gap : List String}
    (hold : h.oldStart = oldDone + gap.length) (hnew : h.newStart = newDone + gap.length) (hs : List PatchHunk)
    (rest : List String) :
    PatchHunk.applyAll (h.toPatch :: hs) oldDone newDone (gap ++ (h.old ++ rest)) =
      (PatchHunk.applyAll hs (h.oldStart + h.old.length) (h.newStart + h.new.length) rest).map
        (gap ++ h.new ++ ·) := by
  have hgap : h.toPatch.old.before - oldDone = gap.length := by
    show h.oldStart - oldDone = gap.length
    omega
  rw [PatchHunk.applyAll, Hunk.oldLines_toPatch, Hunk.newLines_toPatch, hgap, List.drop_left, List.take_left,
    List.take_left, List.length_append, if_pos, ← List.length_append, ← List.append_assoc, List.drop_left]
  · rfl
  · refine ⟨?_, Nat.le_add_right _ _, hnew, rfl⟩
    show oldDone ≤ h.oldStart
    omega

/-- The lines of hunks that can be applied are lines before or after the change. -/
theorem mem_of_applyAll {hs : List PatchHunk} : ∀ {oldDone newDone : Nat} {lines result : List String},
    PatchHunk.applyAll hs oldDone newDone lines = some result →
      ∀ h ∈ hs, (∀ line ∈ h.oldLines, line ∈ lines) ∧ ∀ line ∈ h.newLines, line ∈ result := by
  induction hs with
  | nil => exact fun _ h hh => absurd hh List.not_mem_nil
  | cons first hs ih =>
      intro oldDone newDone lines result happly
      rw [PatchHunk.applyAll, Option.ite_none_right_eq_some] at happly
      obtain ⟨⟨_, _, _, hstand⟩, happly⟩ := happly
      obtain ⟨later, hlater, rfl⟩ := Option.map_eq_some_iff.mp happly
      intro h hh
      rcases List.mem_cons.mp hh with rfl | hh
      · refine ⟨fun line hline => ?_, fun line hline => by simp [hline]⟩
        rw [← hstand] at hline
        exact List.mem_of_mem_drop (List.mem_of_mem_take hline)
      · obtain ⟨hold, hnew⟩ := ih hlater h hh
        exact ⟨fun line hline => List.mem_of_mem_drop (hold line hline),
          fun line hline => List.mem_append_right _ (hnew line hline)⟩

/-- A hunk is open: `gap` is what is left out between the lines that are done and the hunk, and the counts of lines
are those of the hunk's end. -/
structure Gathering (oldDone newDone : Nat) (gap : List String) (old new : Nat) (current : Hunk) : Prop where
  segments : current.segments ≠ []
  oldStart : current.oldStart = oldDone + gap.length
  newStart : current.newStart = newDone + gap.length
  oldEnd : old = current.oldStart + (current.segments.reverse.flatMap Segment.old).length
  newEnd : new = current.newStart + (current.segments.reverse.flatMap Segment.new).length

section Gathering

variable {oldDone newDone old new : Nat} {gap : List String} {current : Hunk}

theorem Gathering.isEmpty_segments (h : Gathering oldDone newDone gap old new current) :
    current.segments.isEmpty = false :=
  List.isEmpty_eq_false_iff.mpr h.segments

/-- A segment is put into the open hunk. -/
theorem Gathering.put (h : Gathering oldDone newDone gap old new current) (s : Segment) :
    Gathering oldDone newDone gap (old + s.old.length) (new + s.new.length)
      { current with segments := s :: current.segments } where
  segments := List.cons_ne_nil _ _
  oldStart := h.oldStart
  newStart := h.newStart
  oldEnd := by simp [h.oldEnd, Nat.add_assoc]
  newEnd := by simp [h.newEnd, Nat.add_assoc]

/-- The open hunk is closed and applied. -/
theorem Gathering.applyAll_close (h : Gathering oldDone newDone gap old new current) (hs : List PatchHunk)
    (rest : List String) :
    PatchHunk.applyAll (Hunk.toPatch { current with segments := current.segments.reverse } :: hs) oldDone newDone
        (gap ++ (current.segments.reverse.flatMap Segment.old ++ rest)) =
      (PatchHunk.applyAll hs old new rest).map (gap ++ current.segments.reverse.flatMap Segment.new ++ ·) := by
  have happly := applyAll_cons (h := { current with segments := current.segments.reverse }) h.oldStart h.newStart
    hs rest
  rw [h.oldEnd, h.newEnd]
  exact happly

theorem take_append_takeLast (n : Nat) (lines : List String) :
    lines.take (lines.length - n) ++ takeLast n lines = lines :=
  List.take_append_drop _ _

/-- A hunk is opened with the last lines of a stretch, the others being left out. -/
theorem gathering_same {kept : List String} (hold : old = oldDone + gap.length + kept.length)
    (hnew : new = newDone + gap.length + kept.length) :
    Gathering oldDone newDone gap old new ⟨old - kept.length, new - kept.length, [.same kept]⟩ where
  segments := List.cons_ne_nil _ _
  oldStart := by show old - kept.length = _; omega
  newStart := by show new - kept.length = _; omega
  oldEnd := by
    show old = old - kept.length + (kept ++ []).length
    rw [List.append_nil]
    omega
  newEnd := by
    show new = new - kept.length + (kept ++ []).length
    rw [List.append_nil]
    omega

theorem length_takeLast (n : Nat) (lines : List String) : (takeLast n lines).length = min n lines.length := by
  rw [takeLast, List.length_drop]
  omega

/-- Between two hunks the lines beyond the context of both are left out. -/
theorem exists_left_out {lines : List String} (h : 2 * context < lines.length) :
    ∃ left, lines.drop context = left ++ takeLast context lines ∧
      lines.length = (lines.take context).length + left.length + (takeLast context lines).length := by
  refine ⟨(lines.drop context).take ((lines.drop context).length - context), ?_, ?_⟩
  · have hlast : takeLast context (lines.drop context) = takeLast context lines := by
      rw [takeLast, takeLast, List.drop_drop, List.length_drop]
      congr 1
      omega
    rw [← hlast, take_append_takeLast]
  · simp only [List.length_take, List.length_drop, length_takeLast]
    omega

/-- **What is still to be done while segments are gathered into hunks**: the lines left out in front of the open
hunk stay, its old lines and those of the segments to come give way to the new ones. -/
theorem applyAll_gather (segments : List Segment) :
    ∀ {oldDone newDone old new : Nat} {gap : List String} {current : Hunk},
      Gathering oldDone newDone gap old new current →
      PatchHunk.applyAll ((gather old new current segments).map Hunk.toPatch) oldDone newDone
          (gap ++ (current.segments.reverse.flatMap Segment.old ++ segments.flatMap Segment.old)) =
        some (gap ++ current.segments.reverse.flatMap Segment.new ++ segments.flatMap Segment.new) := by
  induction segments with
  | nil =>
      intro oldDone newDone old new gap current h
      rw [gather, h.isEmpty_segments, if_neg Bool.false_ne_true, List.map_singleton, List.flatMap_nil,
        h.applyAll_close]
      rfl
  | cons s segments ih =>
      intro oldDone newDone old new gap current h
      have hput := ih (h.put s)
      simp only [List.reverse_cons, List.flatMap_append, List.flatMap_singleton, List.append_assoc] at hput
      simp only [List.flatMap_cons, List.append_assoc]
      cases s with
      | change a b => exact hput
      | same lines =>
          rw [gather]
          split
          · next hlast =>
              -- After the last change no more than the context is shown.
              have hclose := (h.put (.same (lines.take context))).applyAll_close [] (lines.drop context)
              simp only [List.reverse_cons, List.flatMap_append, List.flatMap_singleton, List.append_assoc,
                Segment.old, Segment.new, List.take_append_drop, applyAll_nil, Option.map_some] at hclose
              rw [List.isEmpty_iff.mp hlast, h.isEmpty_segments, if_neg Bool.false_ne_true]
              simp only [List.map_singleton, List.reverse_cons, List.flatMap_nil, List.append_nil]
              exact hclose
          · rw [h.isEmpty_segments, if_neg Bool.false_ne_true]
            split
            · next hlong =>
                obtain ⟨left, hleft, hlength⟩ := exists_left_out hlong
                have hclose := (h.put (.same (lines.take context))).applyAll_close
                have hopen : Gathering (old + (lines.take context).length) (new + (lines.take context).length) left
                    (old + lines.length) (new + lines.length) _ :=
                  gathering_same (by omega : _ = _ + (takeLast context lines).length) (by omega)
                have hrest := ih hopen
                simp only [List.reverse_cons, List.reverse_nil, List.nil_append, List.flatMap_append,
                  List.flatMap_singleton, List.append_assoc, Segment.old, Segment.new] at hclose hrest ⊢
                have hlines : ∀ rest, lines ++ rest =
                    lines.take context ++ (left ++ (takeLast context lines ++ rest)) := by
                  intro rest
                  rw [← List.append_assoc left, ← hleft, ← List.append_assoc, List.take_append_drop]
                rw [List.map_cons, hlines, hlines, hclose, hrest, Option.map_some]
            · exact hput

end Gathering

/-- **The hunks of a script, applied to its old lines, give its new lines.** -/
theorem applyAll_hunks (segments : List Segment) :
    PatchHunk.applyAll ((hunks segments).map Hunk.toPatch) 0 0 (segments.flatMap Segment.old) =
      some (segments.flatMap Segment.new) := by
  cases segments with
  | nil => rfl
  | cons s segments =>
      cases s with
      | change a b =>
          have hopen : Gathering 0 0 [] a.length b.length ⟨0, 0, [.change a b]⟩ :=
            ⟨List.cons_ne_nil _ _, rfl, rfl, by simp [Segment.old], by simp [Segment.new]⟩
          have h := applyAll_gather segments hopen
          simpa [hunks, gather, Segment.old, Segment.new] using h
      | same lines =>
          rw [hunks, gather]
          split
          · next hlast =>
              rw [List.isEmpty_iff.mp hlast]
              rfl
          · have hlength := congrArg List.length (take_append_takeLast context lines)
            rw [List.length_append] at hlength
            have hopen : Gathering 0 0 (lines.take (lines.length - context)) (0 + lines.length) (0 + lines.length) _ :=
              gathering_same (by omega : _ = _ + (takeLast context lines).length) (by omega)
            have h := applyAll_gather segments hopen
            simp only [List.reverse_cons, List.reverse_nil, List.nil_append, List.flatMap_singleton, Segment.old,
              Segment.new, ← List.append_assoc, take_append_takeLast] at h
            exact h

end IdiomLint.Diff
