import IdiomLint.Proofs.Edit.Splice
import IdiomLint.Proofs.Ruby.Repeats
import IdiomLint.Proofs.Ruby.Soundness

/-!
# One pass of correction

The findings of the rule in a tree that comes from a well-formed concrete tree are offered to a corrector
in the order the rule gives them. Main statement: nothing fails, the edits of the outermost blocks are
accepted and applied, those of the nested ones are left out (`pass_replaces_outermost`).
-/

namespace IdiomLint

open Ruby (outerRepeat nestedText)

/-! ## The edits of the findings -/

/-- The edit of a block, without a replacement if there is none. -/
def Idiom.written (i : Idiom) : Edit := ⟨i.start, i.stop, i.replacement.toOption.getD ""⟩

theorem Idiom.edit_eq_written {i : Idiom} (h : ∃ e, i.edit = .ok e) : i.edit = .ok i.written := by
  obtain ⟨e, he⟩ := h
  obtain ⟨text, htext, _⟩ := bind_eq_ok.mp he
  rw [written, edit, htext]
  rfl

/-- Blocks with edits have findings with these edits, one each. -/
theorem CreateListRule.exists_findings_map (path : String) {is : List Idiom}
    (h : ∀ i ∈ is, i.edit = .ok i.written) :
    ∃ findings, is.mapM (finding path) = .ok findings ∧
      findings.map Finding.edits = is.map fun i => [i.written] := by
  induction is with
  | nil => exact ⟨[], rfl, rfl⟩
  | cons i is ih =>
      rw [List.forall_mem_cons] at h
      obtain ⟨findings, hfindings, hedits⟩ := ih h.2
      have hfinding : ∃ f, finding path i = .ok f ∧ f.edits = [i.written] := by
        rw [finding, h.1]
        exact ⟨_, rfl, rfl⟩
      obtain ⟨f, hf, hedit⟩ := hfinding
      refine ⟨f :: findings, ?_, ?_⟩
      · rw [List.mapM_cons, hf, hfindings]
        rfl
      · rw [List.map_cons, hedit, hedits]
        rfl

theorem CreateListRule.exists_findings (path : String) {is : List Idiom}
    (h : ∀ i ∈ is, i.edit = .ok i.written) :
    ∃ findings, is.mapM (finding path) = .ok findings ∧
      findings.flatMap Finding.edits = is.map Idiom.written := by
  obtain ⟨findings, hfindings, hedits⟩ := exists_findings_map path h
  refine ⟨findings, hfindings, ?_⟩
  rw [List.flatMap_def, hedits, ← List.flatMap_def]
  exact List.map_eq_flatMap.symm

/-! ## The pass -/

theorem mem_idiomsAll_of_outermost {tree : Node} {i : Idiom} (h : i ∈ outermost tree) :
    i ∈ Nest.idiomsAll tree.toValue.nests :=
  (idiomsAll_perm _).mem_iff.mpr (List.mem_append_left _ h)

theorem mem_idiomsAll_of_nested {tree : Node} {i : Idiom} (h : i ∈ nested tree) :
    i ∈ Nest.idiomsAll tree.toValue.nests :=
  (idiomsAll_perm _).mem_iff.mpr (List.mem_append_right _ h)

/-- A pass of correction accepts the edits of the outermost blocks, leaves out those of the nested ones,
and rewrites the text by the accepted edits, without a failure on the way. -/
theorem pass_replaces_outermost {path text : String} {root : Ruby.ConcreteNode} {tree : Node}
    (hroot : root.WellFormed text.toList) (hintegers : root.IntegersFit (Utf8.encode text))
    (hconvert : Ruby.convert (Utf8.encode text) root = .ok tree) :
    ∃ findings accepted skipped corrected,
      CreateListRule.visit ⟨path, text, some tree⟩ = .ok findings ∧
      (CreateListRule.idioms tree).Perm (outermost tree ++ nested tree) ∧
      (outermost tree).mapM Idiom.edit = .ok accepted ∧
      (nested tree).mapM Idiom.edit = .ok skipped ∧
      (Corrector.offerFindings { text } findings).1 = { text, accepted, skipped } ∧
      Corrector.corrected { text, accepted, skipped } = .ok corrected ∧
      ∃ ordered, ordered.Perm accepted ∧
        Edit.Rewrites 0 ordered (Utf8.encode text) (Utf8.encode corrected) := by
  have hsound := Ruby.sound_of_convert hroot hintegers hconvert
  have hsettled := hsound.settled
  -- No replacement fails, so the rule finds all blocks.
  have hedit : ∀ i ∈ Nest.idiomsAll tree.toValue.nests, i.edit = .ok i.written := by
    intro i hi
    obtain ⟨e, he, _⟩ := hsound.fits.exists_edit i hi
    exact Idiom.edit_eq_written ⟨e, he⟩
  obtain ⟨findings, hvisit, hfindings⟩ := CreateListRule.exists_findings path hedit
  rw [← CreateListRule.idioms_eq] at hvisit
  have hoffer := @Corrector.offerAll_nests _ Idiom.written (fun i => ⟨rfl, rfl⟩) _ _ _ hsettled
    { text } (by simp)
  -- The accepted edits stand apart from each other and between characters, so they can be applied.
  have hplace : ∀ e ∈ (outermost tree).map Idiom.written, e.start < e.stop ∧ 0 ≤ e.start ∧
      Utf8.Boundary text.toList e.start.toNat ∧ Utf8.Boundary text.toList e.stop.toNat := by
    intro e he
    obtain ⟨i, hi, rfl⟩ := List.mem_map.mp he
    have hinside := hsettled.inside i (mem_idiomsAll_of_outermost hi)
    have hfirst := hinside.first
    exact ⟨hinside.nonempty, by show 0 ≤ i.start; omega, hinside.boundaries⟩
  have hapart : ((outermost tree).map Idiom.written).Pairwise
      fun a b => a.stop ≤ b.start ∨ b.stop ≤ a.start := by
    rw [outermost, List.map_map, List.pairwise_map]
    exact hsettled.apart
  obtain ⟨corrected, hcorrected⟩ := Edit.applyEdits_of_inOrder
    (Edit.inOrder_sorted (fun e he => (hplace e he).1) hapart) fun e he => (hplace e he).2
  refine ⟨findings, (outermost tree).map Idiom.written, (nested tree).map Idiom.written, corrected,
    hvisit, ?_, ?_, ?_, ?_, hcorrected, _, Edit.sorted_perm _, Edit.rewrites_of_applyEdits hcorrected⟩
  · rw [CreateListRule.idioms_eq]
    exact idiomsAll_perm _
  · exact mapM_eq_ok fun i hi => hedit i (mem_idiomsAll_of_outermost hi)
  · exact mapM_eq_ok fun i hi => hedit i (mem_idiomsAll_of_nested hi)
  · rw [Corrector.offerFindings, hfindings, hoffer]
    simp [outermost, nested]

/-- The pass on a block with another one in its arguments. -/
theorem pass_replaces_outermost_nested : ∃ tree,
    outerRepeat.WellFormed nestedText.toList ∧ outerRepeat.IntegersFit (Utf8.encode nestedText) ∧
    Ruby.convert (Utf8.encode nestedText) outerRepeat = .ok tree ∧
    ∃ findings accepted skipped corrected,
      CreateListRule.visit ⟨"a.rb", nestedText, some tree⟩ = .ok findings ∧
      (CreateListRule.idioms tree).Perm (outermost tree ++ nested tree) ∧
      (outermost tree).mapM Idiom.edit = .ok accepted ∧
      (nested tree).mapM Idiom.edit = .ok skipped ∧
      (Corrector.offerFindings { text := nestedText } findings).1 =
        { text := nestedText, accepted, skipped } ∧
      Corrector.corrected { text := nestedText, accepted, skipped } = .ok corrected ∧
      ∃ ordered, ordered.Perm accepted ∧
        Edit.Rewrites 0 ordered (Utf8.encode nestedText) (Utf8.encode corrected) := by
  have hroot : outerRepeat.WellFormed nestedText.toList := by decide +kernel
  have hintegers : outerRepeat.IntegersFit (Utf8.encode nestedText) := by decide +kernel
  obtain ⟨tree, htree⟩ := Ruby.exists_convert_outerRepeat (Utf8.encode nestedText)
  exact ⟨tree, hroot, hintegers, htree, pass_replaces_outermost hroot hintegers htree⟩

end IdiomLint
