import Mathlib.Data.List.Perm.Subperm
import IdiomLint.Proofs.Edit.Overlap

/-!
# Edits that a corrector gathers

An edit offered to a corrector is left out exactly when it overlaps one that was accepted before. `Gathered` keeps the
verdicts in the order in which the edits were offered; offering one more edit adds one more verdict
(`Gathered.exists_offer`). In the end the accepted edits do not overlap, no edit that was left out could be added to
them, and they are applied without a conflict (`serveAll_sifts`).
-/

namespace IdiomLint

open Edit

namespace Corrector

/-! ## Offering -/

/-- An edit that overlaps none of the accepted ones is accepted. -/
theorem offer_of_free {c : Corrector} {e : Edit} (h : ∀ a ∈ c.accepted, e.overlaps a = false) :
    (c.offer e).1 = { c with accepted := c.accepted ++ [e] } := by
  have hnone : c.accepted.find? e.overlaps = none := by
    rw [List.find?_eq_none]
    intro a ha
    rw [h a ha]
    exact Bool.false_ne_true
  rw [offer, hnone]

/-- An edit that overlaps an accepted one is left out. -/
theorem offer_of_overlap {c : Corrector} {a e : Edit} (ha : a ∈ c.accepted) (h : e.overlaps a = true) :
    (c.offer e).1 = { c with skipped := c.skipped ++ [e] } := by
  have hfound : (c.accepted.find? e.overlaps).isSome = true := by
    rw [List.find?_isSome]
    exact ⟨a, ha, h⟩
  obtain ⟨b, hb⟩ := Option.isSome_iff_exists.mp hfound
  rw [offer, hb]

theorem offerAll_append (es fs : List Edit) : ∀ c : Corrector,
    (c.offerAll (es ++ fs)).1 = ((c.offerAll es).1.offerAll fs).1 := by
  induction es with
  | nil => intro c; rfl
  | cons e es ih =>
      intro c
      exact ih (c.offer e).1

theorem text_offer (c : Corrector) (e : Edit) : (c.offer e).1.text = c.text := by
  unfold offer
  split <;> rfl

/-- Offering edits leaves the text as it is. -/
theorem text_offerAll (es : List Edit) : ∀ c : Corrector, (c.offerAll es).1.text = c.text := by
  induction es with
  | nil => intro c; rfl
  | cons e es ih =>
      intro c
      show ((c.offer e).1.offerAll es).1.text = c.text
      rw [ih, text_offer]

/-! ## Verdicts -/

/-- An edit is left out exactly when it overlaps one that was accepted before. -/
def Fair (judged : List (Edit × Bool)) : Prop :=
  ∀ front e good back, judged = front ++ (e, good) :: back →
    (good = false ↔ ∃ a, (a, true) ∈ front ∧ Overlap a e)

/-- A corrector has gathered edits with these verdicts on them, in the order in which they were offered. -/
structure Gathered (c : Corrector) (judged : List (Edit × Bool)) : Prop where
  /-- Each edit ends where it begins, or later. -/
  le : ∀ v ∈ judged, v.1.start ≤ v.1.stop
  /-- The accepted edits are those that were found good, in order. -/
  accepted : c.accepted = (judged.filter fun v => v.2).map Prod.fst
  /-- The edits left out are all others, in order. -/
  skipped : c.skipped = (judged.filter fun v => !v.2).map Prod.fst
  fair : Fair judged
  apart : Apart c.accepted

theorem gathered_nil (text : String) : Gathered { text } [] where
  le := by simp
  accepted := rfl
  skipped := rfl
  fair := by simp [Fair]
  apart := List.Pairwise.nil

variable {c : Corrector} {judged : List (Edit × Bool)}

theorem Gathered.mem_accepted (h : Gathered c judged) {a : Edit} : a ∈ c.accepted ↔ (a, true) ∈ judged := by
  rw [h.accepted]
  simp

theorem Gathered.mem_skipped (h : Gathered c judged) {e : Edit} : e ∈ c.skipped ↔ (e, false) ∈ judged := by
  rw [h.skipped]
  simp

theorem Fair.concat (h : Fair judged) {e : Edit} {good : Bool}
    (hlast : good = false ↔ ∃ a, (a, true) ∈ judged ∧ Overlap a e) : Fair (judged ++ [(e, good)]) := by
  intro front e' good' back hsplit
  rcases List.eq_nil_or_concat back with rfl | ⟨back, last, rfl⟩
  · obtain ⟨rfl, hone⟩ := List.append_inj' hsplit rfl
    cases hone
    exact hlast
  · rw [List.concat_eq_append, ← List.cons_append, ← List.append_assoc] at hsplit
    exact h front e' good' back (List.append_inj' hsplit rfl).1

/-- Offering an edit adds a verdict on it. -/
theorem Gathered.exists_offer (h : Gathered c judged) {e : Edit} (he : e.start ≤ e.stop) :
    ∃ good, Gathered (c.offer e).1 (judged ++ [(e, good)]) := by
  have hle : ∀ good, ∀ v ∈ judged ++ [(e, good)], v.1.start ≤ v.1.stop := by
    intro good v hv
    rcases List.mem_append.mp hv with hv | hv
    · exact h.le v hv
    · rw [List.mem_singleton.mp hv]
      exact he
  have hiff : ∀ a ∈ c.accepted, (e.overlaps a = true ↔ Overlap a e) :=
    fun a ha => overlaps_iff (h.le _ (h.mem_accepted.mp ha)) he
  by_cases hoverlap : ∃ a ∈ c.accepted, Overlap a e
  · obtain ⟨a, ha, hae⟩ := hoverlap
    rw [offer_of_overlap ha ((hiff a ha).mpr hae)]
    refine ⟨false, hle false, ?_, ?_, h.fair.concat ?_, h.apart⟩
    · simpa using h.accepted
    · simpa using h.skipped
    · exact iff_of_true rfl ⟨a, h.mem_accepted.mp ha, hae⟩
  · have hfree : ∀ a ∈ c.accepted, ¬ Overlap a e := fun a ha hae => hoverlap ⟨a, ha, hae⟩
    rw [offer_of_free fun a ha => Bool.eq_false_iff.mpr fun hae => hfree a ha ((hiff a ha).mp hae)]
    refine ⟨true, hle true, ?_, ?_, h.fair.concat ?_, ?_⟩
    · simpa using h.accepted
    · simpa using h.skipped
    · refine iff_of_false (by simp) ?_
      rintro ⟨a, ha, hae⟩
      exact hfree a (h.mem_accepted.mpr ha) hae
    · refine List.pairwise_append.mpr ⟨h.apart, List.pairwise_singleton _ _, ?_⟩
      intro a ha b hb
      rw [List.mem_singleton.mp hb]
      exact hfree a ha

/-- Offering edits adds a verdict on each of them. -/
theorem Gathered.exists_offerAll {es : List Edit} : ∀ {c : Corrector} {judged : List (Edit × Bool)},
    Gathered c judged → (∀ e ∈ es, e.start ≤ e.stop) →
      ∃ later, later.map Prod.fst = es ∧ Gathered (c.offerAll es).1 (judged ++ later) := by
  induction es with
  | nil =>
      intro c judged h _
      exact ⟨[], rfl, by rwa [List.append_nil]⟩
  | cons e es ih =>
      intro c judged h hle
      obtain ⟨he, hle⟩ := List.forall_mem_cons.mp hle
      obtain ⟨good, hoffer⟩ := h.exists_offer he
      obtain ⟨later, rfl, hlater⟩ := ih hoffer hle
      refine ⟨(e, good) :: later, rfl, ?_⟩
      rwa [List.append_assoc] at hlater

/-! ## What has been gathered -/

/-- Accepted and left out together, the edits are all that were offered. -/
theorem Gathered.perm (h : Gathered c judged) : (c.accepted ++ c.skipped).Perm (judged.map Prod.fst) := by
  rw [h.accepted, h.skipped, ← List.map_append]
  exact (List.filter_append_perm _ judged).map Prod.fst

theorem Gathered.exists_overlap (h : Gathered c judged) {e : Edit} (he : e ∈ c.skipped) :
    ∃ a ∈ c.accepted, Overlap a e := by
  obtain ⟨front, back, hsplit⟩ := List.append_of_mem (h.mem_skipped.mp he)
  obtain ⟨a, ha, hae⟩ := (h.fair front e false back hsplit).mp rfl
  refine ⟨a, h.mem_accepted.mpr ?_, hae⟩
  rw [hsplit]
  exact List.mem_append_left _ ha

/-- No edits chosen from the offered ones so that they do not overlap hold the accepted ones and more. -/
theorem Gathered.maximal (h : Gathered c judged) {chosen : List Edit} (hchosen : chosen.Subperm (judged.map Prod.fst))
    (haccepted : c.accepted.Subperm chosen) (hapart : Apart chosen) : chosen.Perm c.accepted := by
  by_contra hperm
  have hlt : c.accepted.length < chosen.length := by
    by_contra hge
    exact hperm (haccepted.perm_of_length_le (Nat.le_of_not_lt hge)).symm
  obtain ⟨e, hsub⟩ := haccepted.exists_of_length_lt hlt
  -- All that was offered beyond the accepted edits was left out.
  have hskipped : e ∈ c.skipped := by
    have hcount := (hsub.trans (hchosen.trans h.perm.symm.subperm)).count_le e
    rw [List.count_cons_self, List.count_append] at hcount
    exact List.count_pos_iff.mp (by omega)
  obtain ⟨a, ha, hae⟩ := h.exists_overlap hskipped
  obtain ⟨part, hpart, hsub⟩ := hsub
  have happart : Apart (e :: c.accepted) := Apart.perm (List.Pairwise.sublist hsub hapart) hpart
  exact (List.pairwise_cons.mp happart).1 a ha hae.symm

/-! ## Calls -/

/-- What a corrector is asked to take: an edit, or a finding with all its edits. -/
inductive Offer where
  | edit (e : Edit)
  | finding (f : Finding)

/-- The edits that are offered. -/
def Offer.edits : Offer → List Edit
  | .edit e => [e]
  | .finding f => f.edits

/-- The corrector after an offer. -/
def serve (c : Corrector) : Offer → Corrector
  | .edit e => (c.offer e).1
  | .finding f => (c.offerFinding f).1

/-- The corrector after several offers. -/
def serveAll (c : Corrector) (offers : List Offer) : Corrector := offers.foldl serve c

theorem serve_eq (c : Corrector) : ∀ o : Offer, c.serve o = (c.offerAll o.edits).1
  | .edit _ => rfl
  | .finding _ => rfl

/-- Offers amount to the edits in them, offered one after the other. -/
theorem serveAll_eq (offers : List Offer) : ∀ c : Corrector,
    c.serveAll offers = (c.offerAll (offers.flatMap Offer.edits)).1 := by
  induction offers with
  | nil => intro c; rfl
  | cons o offers ih =>
      intro c
      rw [List.flatMap_cons, offerAll_append, ← serve_eq]
      exact ih (c.serve o)

/-- Of two edits the second one is left out exactly when they overlap. -/
theorem skipped_serveAll_pair (text : String) {a b : Edit} (ha : a.start ≤ a.stop) (hb : b.start ≤ b.stop) :
    (serveAll { text } [.edit a, .edit b]).skipped = [b] ↔ Overlap a b := by
  have hfirst : (offer { text } a).1 = { text, accepted := [a] } := offer_of_free (by simp)
  show ((offer { text } a).1.offer b).1.skipped = [b] ↔ _
  rw [hfirst]
  constructor
  · intro h
    by_contra hapart
    rw [← overlaps_iff ha hb, Bool.not_eq_true] at hapart
    rw [offer_of_free (by simpa using hapart)] at h
    cases h
  · intro h
    rw [offer_of_overlap List.mem_cons_self ((overlaps_iff ha hb).mpr h)]
    rfl

/-- **A corrector sifts the edits that it is offered.** The accepted edits and those left out are the offered ones by
the verdicts on them, so that an edit is left out exactly when it overlaps one accepted before, and no two accepted ones
overlap. The accepted ones are as many as can be: nothing that was offered can be added without an overlap. Two edits
are in each other's way for a corrector exactly when applying them ends in a conflict, and applying the accepted ones
never does. -/
theorem serveAll_sifts (text : String) (offers : List Offer)
    (hle : ∀ o ∈ offers, ∀ e ∈ o.edits, e.start ≤ e.stop) :
    (∃ judged, judged.map Prod.fst = offers.flatMap Offer.edits ∧ Gathered (serveAll { text } offers) judged) ∧
    (∀ chosen, chosen.Subperm (offers.flatMap Offer.edits) → (serveAll { text } offers).accepted.Subperm chosen →
      Apart chosen → chosen.Perm (serveAll { text } offers).accepted) ∧
    (∀ a b, a.start ≤ a.stop → b.start ≤ b.stop →
      ((serveAll { text } [.edit a, .edit b]).skipped = [b] ↔
        ∃ x y, applyEdits text [a, b] = .error (.conflict x y))) ∧
    ∀ x y, (serveAll { text } offers).corrected ≠ .error (.conflict x y) := by
  have hoffered : ∀ e ∈ offers.flatMap Offer.edits, e.start ≤ e.stop := by
    intro e he
    obtain ⟨o, ho, he⟩ := List.mem_flatMap.mp he
    exact hle o ho e he
  obtain ⟨judged, hjudged, hgathered⟩ := (gathered_nil text).exists_offerAll hoffered
  rw [List.nil_append, ← serveAll_eq] at hgathered
  refine ⟨⟨judged, hjudged, hgathered⟩, ?_, ?_, ?_⟩
  · intro chosen hchosen
    exact hgathered.maximal (hjudged ▸ hchosen)
  · intro a b ha hb
    rw [skipped_serveAll_pair text ha hb, applyEdits_conflict_iff, Apart, List.pairwise_pair, not_not]
  · intro x y hconflict
    exact applyEdits_conflict_iff.mp ⟨x, y, hconflict⟩ hgathered.apart

/-- A finding with two edits that overlap, and an insertion where the first of them ends. -/
theorem serveAll_sifts_insertion :
    let offers : List Offer := [.finding ⟨"rule", "message", "file", 0, 3, .text "warn",
      some [⟨0, 2, "x"⟩, ⟨1, 3, "y"⟩], none⟩, .edit ⟨2, 2, "z"⟩]
    (∀ o ∈ offers, ∀ e ∈ o.edits, e.start ≤ e.stop) ∧
    (∃ judged, judged.map Prod.fst = [⟨0, 2, "x"⟩, ⟨1, 3, "y"⟩, ⟨2, 2, "z"⟩] ∧
      Gathered (serveAll { text := "abc" } offers) judged) ∧
    (serveAll { text := "abc" } offers).accepted = [⟨0, 2, "x"⟩, ⟨2, 2, "z"⟩] ∧
    ∀ x y, (serveAll { text := "abc" } offers).corrected ≠ .error (.conflict x y) := by
  intro offers
  have hle : ∀ o ∈ offers, ∀ e ∈ o.edits, e.start ≤ e.stop := by
    simp [offers, Offer.edits, Finding.edits]
  have hsifts := serveAll_sifts "abc" offers hle
  exact ⟨hle, hsifts.1, rfl, hsifts.2.2.2⟩

end Corrector

end IdiomLint
