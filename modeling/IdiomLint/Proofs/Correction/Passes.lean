import IdiomLint.Correction
import IdiomLint.Proofs.Edit.Frame
import IdiomLint.Proofs.Edit.Gathering
import IdiomLint.Proofs.Outcome

/-!
# Several passes of correction

`Corrects` follows a correction pass by pass and keeps the edits that each pass applies. What none of them
touches is in the text after the last pass (`Corrects.keeps`).
-/

namespace IdiomLint

namespace Analyzer

/-- At most so many passes correct a text with some findings: the edits of each pass, the text after the
last one and the findings in it. -/
inductive Corrects (a : Analyzer) (path : String) :
    Nat → String → List Finding → List (List Edit) → String → List Finding → Prop
  | exhausted {text : String} {findings : List Finding} : Corrects a path 0 text findings [] text findings
  | stable {passes : Nat} {text : String} {findings : List Finding} :
      (Corrector.offerFindings { text } findings).1.accepted = [] →
      Corrects a path (passes + 1) text findings [] text findings
  | pass {passes : Nat} {text next last : String} {findings remaining : List Finding} {c : Corrector}
      {result : FileResult} {later : List (List Edit)} :
      (Corrector.offerFindings { text } findings).1 = c → c.accepted ≠ [] →
      c.corrected = .ok next → (a.runRules path next).result = .ok result →
      Corrects a path passes next result.findings later last remaining →
      Corrects a path (passes + 1) text findings (c.accepted :: later) last remaining

variable {a : Analyzer} {path : String}

theorem corrected_offerFindings {text : String} {findings : List Finding} {accepted : List Edit}
    (h : (Corrector.offerFindings { text } findings).1.accepted = accepted) :
    (Corrector.offerFindings { text } findings).1.corrected = applyEdits text accepted := by
  rw [Corrector.corrected, h, Corrector.offerFindings, Corrector.text_offerAll]

/-- A correction that succeeds is made of passes. -/
theorem corrects_of_correctFrom (passes : Nat) : ∀ {text last : String} {findings remaining : List Finding},
    (a.correctFrom path passes text findings).result = .ok (last, remaining) →
      ∃ edits, Corrects a path passes text findings edits last remaining := by
  induction passes with
  | zero =>
      intro text last findings remaining h
      cases h
      exact ⟨[], .exhausted⟩
  | succ passes ih =>
      intro text last findings remaining h
      rw [correctFrom] at h
      obtain ⟨_, _, h⟩ := Outcome.result_bind_eq_ok.mp h
      split at h
      · next hnone =>
          cases h
          exact ⟨[], .stable (List.isEmpty_iff.mp hnone)⟩
      · next hsome =>
          obtain ⟨next, hnext, h⟩ := Outcome.result_bind_eq_ok.mp h
          obtain ⟨result, hresult, h⟩ := Outcome.result_bind_eq_ok.mp h
          obtain ⟨later, hlater⟩ := ih h
          exact ⟨_, .pass rfl (fun hempty => hsome (List.isEmpty_iff.mpr hempty))
            (mapError_eq_ok.mp hnext) hresult hlater⟩

/-- Passes that can be made are made. -/
theorem Corrects.result_correctFrom {passes : Nat} {text last : String} {findings remaining : List Finding}
    {edits : List (List Edit)} (h : Corrects a path passes text findings edits last remaining) :
    (a.correctFrom path passes text findings).result = .ok (last, remaining) := by
  induction h with
  | exhausted => rfl
  | stable hnone =>
      rw [Corrector.offerFindings] at hnone
      unfold correctFrom
      refine Outcome.result_bind_eq_ok.mpr ⟨(), rfl, ?_⟩
      rw [if_pos (List.isEmpty_iff.mpr hnone)]
      rfl
  | pass hc hsome hnext hresult _ ih =>
      subst hc
      rw [Corrector.offerFindings] at hsome hnext
      unfold correctFrom
      refine Outcome.result_bind_eq_ok.mpr ⟨(), rfl, ?_⟩
      rw [if_neg fun hempty => hsome (List.isEmpty_iff.mp hempty)]
      refine Outcome.result_bind_eq_ok.mpr ⟨_, mapError_eq_ok.mpr hnext, ?_⟩
      exact Outcome.result_bind_eq_ok.mpr ⟨_, hresult, ih⟩

/-- Bytes that no edit of any pass touches are in the corrected text. -/
theorem Corrects.keeps {passes : Nat} {text last : String} {findings remaining : List Finding}
    {edits : List (List Edit)} (h : Corrects a path passes text findings edits last remaining) :
    ∀ {front middle back : List UInt8}, Utf8.encode text = front ++ (middle ++ back) → middle ≠ [] →
      Edit.Untouched edits front.length middle.length →
      ∃ front' back', Utf8.encode last = front' ++ (middle ++ back') ∧
        (front'.length : Int) = Edit.movedThrough edits front.length := by
  induction h with
  | exhausted =>
      intro front middle back htext _ _
      exact ⟨front, back, htext, rfl⟩
  | stable _ =>
      intro front middle back htext _ _
      exact ⟨front, back, htext, rfl⟩
  | @pass passes text next last findings remaining c result later hc _ hnext _ _ ih =>
      intro front middle back htext hmiddle huntouched
      obtain ⟨houtside, hlater⟩ := huntouched
      have hsame : c.text = text := by
        rw [← hc]
        exact Corrector.text_offerAll _ _
      rw [Corrector.corrected, hsame] at hnext
      obtain ⟨front', back', hnext, hplace⟩ := Edit.keeps_of_applyEdits hnext htext hmiddle houtside
      -- For the later passes the bytes stand where this one has moved them.
      rw [← hplace] at hlater
      obtain ⟨front'', back'', hlast, hthrough⟩ := ih hnext hmiddle hlater
      refine ⟨front'', back'', hlast, ?_⟩
      rw [hthrough, hplace]
      rfl

end Analyzer

end IdiomLint
