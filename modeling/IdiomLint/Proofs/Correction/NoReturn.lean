import IdiomLint.Proofs.Correction.Origin
import IdiomLint.Proofs.Correction.Writes
import IdiomLint.Proofs.Ruby.NoReturn

/-!
# Corrections without carriage returns

What is read from a file has no carriage returns in it, and the edits of the rule bring none in. So there
are none in a corrected text either, and it is read from the file as it was written
(`Corrects.noReturn`).
-/

namespace IdiomLint

open Utf8 (returnByte)

/-! ## Edits -/

namespace Edit

theorem returnByte_not_mem_splice {e : Edit} {bytes : List UInt8} (hbytes : returnByte ∉ bytes)
    (he : NoReturn e.replacement) : returnByte ∉ e.splice bytes := by
  rw [splice, List.mem_append, List.mem_append]
  rintro ((hfront | hmiddle) | hback)
  · exact hbytes (List.mem_of_mem_take hfront)
  · exact (Utf8.noReturn_iff _).mp he hmiddle
  · exact hbytes (List.mem_of_mem_drop hback)

theorem returnByte_not_mem_applyInOrder {es : List Edit} : ∀ {bytes bytes' : List UInt8},
    returnByte ∉ bytes → (∀ e ∈ es, NoReturn e.replacement) → applyInOrder bytes es = .ok bytes' →
      returnByte ∉ bytes' := by
  induction es with
  | nil =>
      intro bytes bytes' hbytes _ h
      cases h
      exact hbytes
  | cons e es ih =>
      intro bytes bytes' hbytes hes h
      rw [List.forall_mem_cons] at hes
      rw [applyInOrder] at h
      split at h
      · exact ih (returnByte_not_mem_splice hbytes hes.1) hes.2 h
      · exact absurd h (by simp)

end Edit

theorem noReturn_of_applyEdits {text text' : String} {es : List Edit} (htext : NoReturn text)
    (hes : ∀ e ∈ es, NoReturn e.replacement) (h : applyEdits text es = .ok text') : NoReturn text' := by
  rw [applyEdits] at h
  split at h
  · exact absurd h (by simp)
  · obtain ⟨bytes, hbytes, h⟩ := bind_eq_ok.mp h
    split at h
    · next edited hedited =>
        cases h
        have hordered : ∀ e ∈ (Edit.sorted es).reverse, NoReturn e.replacement := by
          intro e he
          exact hes e (List.mem_mergeSort.mp (List.mem_reverse.mp he))
        rw [Utf8.noReturn_iff, Utf8.encode_of_decode? hedited]
        exact Edit.returnByte_not_mem_applyInOrder ((Utf8.noReturn_iff text).mp htext) hordered hbytes
    · exact absurd h (by simp)

/-! ## Findings -/

/-- The edits of a finding bring in no carriage return. -/
def Finding.Clear (f : Finding) : Prop := ∀ e ∈ f.edits, NoReturn e.replacement

/-- No kind in the trees of the grammar has a carriage return in it. -/
def Grammar.Plain (g : Grammar) : Prop := ∀ parse, g = .ok parse → ∀ text, (parse text).tree.Plain

namespace Analyzer

/-- The analyzer has a grammar whose kinds have no carriage return in them, and no rules but the one that
comes with the program. -/
structure Plain (a : Analyzer) : Prop where
  grammar : ∀ g ∈ a.grammar, g.Plain
  rules : ∀ rule ∈ a.rules, rule = createListRule

theorem clear_of_runRules {a : Analyzer} (ha : a.Plain) {path text : String} {r : FileResult}
    (htext : NoReturn text) (h : (a.runRules path text).result = .ok r) : ∀ f ∈ r.findings, f.Clear := by
  rcases of_result_runRules h with ⟨_, rfl⟩ | ⟨parse, tree, found, hparse, hconvert, hfound, rfl⟩
  · exact List.forall_mem_nil _
  · have hclear := Ruby.clear_of_convert ((Utf8.noReturn_iff text).mp htext)
      (ha.grammar _ hparse parse rfl text) hconvert
    have hall : ∀ f ∈ found, f.Clear := by
      refine forall_of_findingsFrom (fun rule hrule new hnew f hf severity => ?_) (List.forall_mem_nil _) hfound
      rw [ha.rules rule hrule] at hnew
      exact CreateListRule.noReturn_of_visit hclear hnew f hf
    exact fun f hf => hall f (List.mem_filter.mp hf).1

/-- Passes of correction bring no carriage return into a text. -/
theorem Corrects.noReturn {a : Analyzer} (ha : a.Plain) {path : String} {passes : Nat} {text last : String}
    {findings remaining : List Finding} {edits : List (List Edit)}
    (h : Corrects a path passes text findings edits last remaining) (htext : NoReturn text)
    (hfindings : ∀ f ∈ findings, f.Clear) : NoReturn last := by
  induction h with
  | exhausted => exact htext
  | stable _ => exact htext
  | @pass passes text next last findings remaining c result later hc _ hnext hresult _ ih =>
      have hnext : NoReturn next := by
        subst hc
        refine noReturn_of_applyEdits ?_ ?_ hnext
        · rw [Corrector.offerFindings, Corrector.text_offerAll]
          exact htext
        · intro e he
          obtain ⟨f, hf, he⟩ := Corrector.mem_accepted_offerFindings he
          exact hfindings f hf e he
      exact ih hnext (clear_of_runRules ha hnext hresult)

theorem noReturn_of_correctText {a : Analyzer} (ha : a.Plain) {path text last : String}
    {remaining : List Finding} (htext : NoReturn text)
    (h : (a.correctText path text).result = .ok (last, remaining)) : NoReturn last := by
  obtain ⟨result, hresult, h⟩ := Outcome.result_bind_eq_ok.mp h
  obtain ⟨edits, hedits⟩ := corrects_of_correctFrom _ h
  exact hedits.noReturn ha htext (clear_of_runRules ha htext hresult)

end Analyzer

end IdiomLint
