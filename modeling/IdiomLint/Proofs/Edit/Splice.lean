import IdiomLint.Edit.Apply
import IdiomLint.Proofs.Fallible
import IdiomLint.Proofs.Text.Utf8

/-!
# What applying edits does to a text

`Rewrites` describes the effect of edits read from the beginning of a text towards its end: stretches
between the edits are kept, the stretch of each edit gives way to its replacement. Applying edits works in
the opposite direction and with checks on the way. Main statements: edits that stand in order between the
characters of a text are applied without a fault (`applyEdits_of_inOrder`), and every text that comes out
of `applyEdits` was rewritten (`rewrites_of_applyEdits`).
-/

namespace IdiomLint.Edit

/-! ## Rewriting -/

/-- The bytes become others by edits in the order of the text; `offset` bytes precede them. -/
inductive Rewrites : Nat → List Edit → List UInt8 → List UInt8 → Prop
  | nil (offset : Nat) (bytes : List UInt8) : Rewrites offset [] bytes bytes
  | cons {offset : Nat} {e : Edit} {edits : List Edit} {kept old rest rest' : List UInt8} :
      e.start = ↑(offset + kept.length) → e.stop = ↑(offset + kept.length + old.length) →
      Rewrites (offset + kept.length + old.length) edits rest rest' →
      Rewrites offset (e :: edits) (kept ++ (old ++ rest))
        (kept ++ (Utf8.encode e.replacement ++ rest'))

/-- The edits do not touch and stand in the order of the text, each with its bounds in order. -/
def InOrder (edits : List Edit) : Prop :=
  (∀ e ∈ edits, e.start ≤ e.stop) ∧ edits.Pairwise fun a b => a.stop ≤ b.start

/-- Enough bytes can be cut in three. -/
theorem exists_append {bytes : List UInt8} {k m : Nat} (h : k + m ≤ bytes.length) :
    ∃ kept old rest, bytes = kept ++ (old ++ rest) ∧ kept.length = k ∧ old.length = m := by
  refine ⟨bytes.take k, (bytes.drop k).take m, (bytes.drop k).drop m, ?_, ?_, ?_⟩
  · rw [List.take_append_drop, List.take_append_drop]
  · rw [List.length_take]
    omega
  · rw [List.length_take, List.length_drop]
    omega

/-- Edits in order between the beginning and the end of the bytes rewrite them. -/
theorem exists_rewrites {edits : List Edit} :
    ∀ {offset : Nat} {bytes : List UInt8}, InOrder edits →
      (∀ e ∈ edits, (offset : Int) ≤ e.start ∧ e.stop ≤ ↑(offset + bytes.length)) →
      ∃ bytes', Rewrites offset edits bytes bytes' := by
  induction edits with
  | nil => intro offset bytes _ _; exact ⟨bytes, .nil offset bytes⟩
  | cons e edits ih =>
      intro offset bytes horder hbounds
      obtain ⟨hle, hpairwise⟩ := horder
      rw [List.forall_mem_cons] at hle hbounds
      obtain ⟨hfirst, hpairwise⟩ := List.pairwise_cons.mp hpairwise
      obtain ⟨⟨hlow, hhigh⟩, hbounds⟩ := hbounds
      obtain ⟨kept, old, rest, rfl, hkept, hold⟩ := exists_append
        (show (e.start - offset).toNat + (e.stop - e.start).toNat ≤ bytes.length by omega)
      have hrest : ∀ a ∈ edits, (↑(offset + kept.length + old.length) : Int) ≤ a.start ∧
          a.stop ≤ ↑(offset + kept.length + old.length + rest.length) := by
        intro a ha
        have hstart := hfirst a ha
        have hstop := (hbounds a ha).2
        simp only [List.length_append] at hstop
        omega
      obtain ⟨rest', hrewrites⟩ := ih ⟨hle.2, hpairwise⟩ hrest
      exact ⟨_, .cons (by omega) (by omega) hrewrites⟩

/-- The edits that rewrite bytes lie between the beginning and the end of the bytes. -/
theorem Rewrites.bounds {offset : Nat} {edits : List Edit} {bytes bytes' : List UInt8}
    (h : Rewrites offset edits bytes bytes') :
    ∀ e ∈ edits, (offset : Int) ≤ e.start ∧ e.start ≤ e.stop ∧ e.stop ≤ ↑(offset + bytes.length) := by
  induction h with
  | nil => simp
  | cons hstart hstop _ ih =>
      rw [List.forall_mem_cons]
      simp only [List.length_append]
      refine ⟨by omega, ?_⟩
      intro a ha
      have hbounds := ih a ha
      omega

/-! ## Applying -/

theorem applyInOrder_append (edits others : List Edit) :
    ∀ bytes, applyInOrder bytes (edits ++ others) =
      (applyInOrder bytes edits >>= fun bytes => applyInOrder bytes others) := by
  induction edits with
  | nil => intro bytes; rfl
  | cons e edits ih =>
      intro bytes
      rw [List.cons_append, applyInOrder, applyInOrder]
      split
      · exact ih _
      · rfl

/-- One edit, applied where it stands. -/
theorem applyInOrder_one {e : Edit} {front old back : List UInt8} (hstart : e.start = ↑front.length)
    (hstop : e.stop = ↑(front.length + old.length)) :
    applyInOrder (front ++ (old ++ back)) [e] =
      .ok (front ++ (Utf8.encode e.replacement ++ back)) := by
  have hinside : e.inside (front ++ (old ++ back)).length = true := by
    simp only [inside, Bool.and_eq_true, decide_eq_true_eq, List.length_append]
    omega
  have hlow : e.start.toNat = front.length := by omega
  have hhigh : e.stop.toNat = (front ++ old).length := by
    rw [List.length_append]
    omega
  rw [applyInOrder, if_pos hinside, applyInOrder, splice, hlow, hhigh, List.take_left,
    ← List.append_assoc front old back, List.drop_left, List.append_assoc]

/-- Applying edits from the last one to the first one rewrites the bytes. -/
theorem Rewrites.applyInOrder_eq_ok {offset : Nat} {edits : List Edit} {bytes bytes' : List UInt8}
    (h : Rewrites offset edits bytes bytes') :
    ∀ front : List UInt8, front.length = offset →
      applyInOrder (front ++ bytes) edits.reverse = .ok (front ++ bytes') := by
  induction h with
  | nil => intro front _; rfl
  | @cons offset e edits kept old rest rest' hstart hstop _ ih =>
      intro front hfront
      have hrest := ih (front ++ kept ++ old) (by simp [hfront, Nat.add_assoc])
      have hone : applyInOrder ((front ++ kept) ++ (old ++ rest')) [e] =
          .ok ((front ++ kept) ++ (Utf8.encode e.replacement ++ rest')) := by
        refine applyInOrder_one ?_ ?_
        · rw [List.length_append, hfront]
          exact hstart
        · rw [List.length_append, hfront]
          exact hstop
      rw [List.reverse_cons, applyInOrder_append, ← List.append_assoc kept old rest,
        ← List.append_assoc front, ← List.append_assoc front, hrest]
      show applyInOrder (front ++ kept ++ old ++ rest') [e] = _
      rw [List.append_assoc (front ++ kept), hone, List.append_assoc]

/-! ## The order of the bounds -/

theorem before_iff {a b : Edit} : before a b = true ↔ a.start < b.start ∨ a.start = b.start ∧ a.stop ≤ b.stop := by
  simp only [before, Bool.or_eq_true, Bool.and_eq_true, decide_eq_true_eq, beq_iff_eq]

theorem before_trans (a b c : Edit) (hab : before a b = true) (hbc : before b c = true) :
    before a c = true := by
  rw [before_iff] at *
  omega

theorem before_total (a b : Edit) : (before a b || before b a) = true := by
  rw [Bool.or_eq_true, before_iff, before_iff]
  omega

theorem sorted_perm (edits : List Edit) : (sorted edits).Perm edits :=
  List.mergeSort_perm edits before

theorem pairwise_sorted (edits : List Edit) : (sorted edits).Pairwise fun a b => before a b = true :=
  List.pairwise_mergeSort before_trans before_total edits

theorem start_le_of_before {a b : Edit} (h : before a b = true) : a.start ≤ b.start := by
  rw [before_iff] at h
  omega

/-! ## The checks -/

theorem firstConflict?_of_pairwise {edits : List Edit}
    (h : edits.Pairwise fun a b => a.stop ≤ b.start) : firstConflict? edits = none := by
  induction edits with
  | nil => rfl
  | cons a edits ih =>
      obtain ⟨ha, hrest⟩ := List.pairwise_cons.mp h
      cases edits with
      | nil => rfl
      | cons b edits =>
          have hab := ha b (by simp)
          rw [firstConflict?, if_neg (by omega)]
          exact ih hrest

/-- Without a conflict between neighbours in the order of the bounds there is none at all. -/
theorem pairwise_of_firstConflict? {edits : List Edit} (hsorted : edits.Pairwise fun a b => before a b = true)
    (h : firstConflict? edits = none) : edits.Pairwise fun a b => a.stop ≤ b.start := by
  induction edits with
  | nil => exact List.Pairwise.nil
  | cons a edits ih =>
      obtain ⟨_, hsorted⟩ := List.pairwise_cons.mp hsorted
      cases edits with
      | nil => exact List.pairwise_singleton _ _
      | cons b edits =>
          rw [firstConflict?] at h
          split at h
          · exact absurd h (by simp)
          · next hab =>
              refine List.pairwise_cons.mpr ⟨?_, ih hsorted h⟩
              rw [List.forall_mem_cons]
              refine ⟨by omega, ?_⟩
              -- The edits after the second one begin where it begins or later.
              intro c hc
              have hbc := start_le_of_before ((List.pairwise_cons.mp hsorted).1 c hc)
              omega

/-- Edits that have been applied have their bounds in order, and the first one ends inside the text. -/
theorem inside_of_applyInOrder {edits : List Edit} :
    ∀ {bytes bytes' : List UInt8}, applyInOrder bytes edits = .ok bytes' →
      (∀ e ∈ edits, 0 ≤ e.start ∧ e.start ≤ e.stop) ∧
        ∀ e, edits.head? = some e → e.stop ≤ bytes.length := by
  induction edits with
  | nil => intro bytes bytes' _; simp
  | cons e edits ih =>
      intro bytes bytes' h
      rw [applyInOrder] at h
      split at h
      · next hinside =>
          simp only [inside, Bool.and_eq_true, decide_eq_true_eq] at hinside
          obtain ⟨⟨hstart, hstop⟩, hle⟩ := hinside
          refine ⟨List.forall_mem_cons.mpr ⟨⟨hstart, hle⟩, (ih h).1⟩, ?_⟩
          intro a ha
          rw [List.head?_cons, Option.some.injEq] at ha
          rw [← ha]
          exact hstop
      · exact absurd h (by simp)

/-- Edits that do not overlap, none of them empty, are in order once they are sorted. -/
theorem inOrder_sorted {edits : List Edit} (hne : ∀ e ∈ edits, e.start < e.stop)
    (h : edits.Pairwise fun a b => a.stop ≤ b.start ∨ b.stop ≤ a.start) : InOrder (sorted edits) := by
  have hmem : ∀ e ∈ sorted edits, e.start < e.stop :=
    fun e he => hne e ((sorted_perm edits).mem_iff.mp he)
  refine ⟨fun e he => Int.le_of_lt (hmem e he), ?_⟩
  have hapart : (sorted edits).Pairwise fun a b => a.stop ≤ b.start ∨ b.stop ≤ a.start :=
    (sorted_perm edits).symm.pairwise h fun hab => hab.symm
  apply (hapart.and (pairwise_sorted edits)).imp_of_mem
  intro a b ha hb hab
  have hane := hmem a ha
  have hbne := hmem b hb
  rw [before_iff] at hab
  omega

/-! ## Applying edits to a text -/

theorem applyEdits_eq_ok {text text' : String} {edits : List Edit} :
    applyEdits text edits = .ok text' ↔
      firstConflict? (sorted edits) = none ∧ ∃ bytes,
        applyInOrder (Utf8.encode text) (sorted edits).reverse = .ok bytes ∧
          Utf8.decode? bytes = .ok text' := by
  unfold applyEdits
  cases hconflict : firstConflict? (sorted edits) with
  | some found => simp [hconflict]
  | none =>
      simp only [hconflict, true_and]
      constructor
      · intro h
        obtain ⟨bytes, happly, h⟩ := bind_eq_ok.mp h
        refine ⟨bytes, happly, ?_⟩
        split at h
        · next hdecode => rw [hdecode, Except.ok.inj h]
        · exact absurd h (by simp)
      · rintro ⟨bytes, happly, hdecode⟩
        refine bind_eq_ok.mpr ⟨bytes, happly, ?_⟩
        rw [hdecode]

/-- The edits that have been applied all end inside the text. -/
theorem stop_le_of_applyInOrder {edits : List Edit} {bytes bytes' : List UInt8}
    (hpairwise : edits.Pairwise fun a b => a.stop ≤ b.start)
    (h : applyInOrder bytes edits.reverse = .ok bytes') : ∀ e ∈ edits, e.stop ≤ bytes.length := by
  obtain ⟨hinside, hlast⟩ := inside_of_applyInOrder h
  intro e he
  rw [← List.mem_reverse] at he
  rw [← List.pairwise_reverse] at hpairwise
  -- The last edit is the first one to be applied, to the text as it was.
  cases hrev : edits.reverse with
  | nil =>
      rw [hrev] at he
      exact absurd he List.not_mem_nil
  | cons last others =>
      rw [hrev] at he hpairwise hlast hinside
      have hstop := hlast last rfl
      rcases List.mem_cons.mp he with rfl | he
      · exact hstop
      · have hbefore := (List.pairwise_cons.mp hpairwise).1 e he
        have hle := (hinside last (by simp)).2
        omega

/-- A text that comes out of `applyEdits` was rewritten by the edits. -/
theorem rewrites_of_applyEdits {text text' : String} {edits : List Edit}
    (h : applyEdits text edits = .ok text') :
    Rewrites 0 (sorted edits) (Utf8.encode text) (Utf8.encode text') := by
  obtain ⟨hconflict, bytes, happly, hdecode⟩ := applyEdits_eq_ok.mp h
  have hinside := (inside_of_applyInOrder happly).1
  have hle : ∀ e ∈ sorted edits, 0 ≤ e.start ∧ e.start ≤ e.stop :=
    fun e he => hinside e (List.mem_reverse.mpr he)
  have hpairwise := pairwise_of_firstConflict? (pairwise_sorted edits) hconflict
  have hstop := stop_le_of_applyInOrder hpairwise happly
  have hbounds : ∀ e ∈ sorted edits, ((0 : Nat) : Int) ≤ e.start ∧
      e.stop ≤ ↑(0 + (Utf8.encode text).length) := by
    intro e he
    rw [Nat.zero_add]
    exact ⟨(hle e he).1, hstop e he⟩
  obtain ⟨bytes', hrewrites⟩ := exists_rewrites ⟨fun e he => (hle e he).2, hpairwise⟩ hbounds
  have happly' := hrewrites.applyInOrder_eq_ok [] rfl
  rw [List.nil_append, List.nil_append, happly] at happly'
  rw [Utf8.encode_of_decode? hdecode, Except.ok.inj happly']
  exact hrewrites

/-- Between characters, edits make a text out of a text. -/
theorem Rewrites.encodeChars {offset : Nat} {edits : List Edit} {bytes bytes' : List UInt8}
    (h : Rewrites offset edits bytes bytes') :
    ∀ cs, bytes = Utf8.encodeChars cs →
      (∀ e ∈ edits, Utf8.Boundary cs (e.start.toNat - offset) ∧
        Utf8.Boundary cs (e.stop.toNat - offset)) →
      ∃ cs', bytes' = Utf8.encodeChars cs' := by
  induction h with
  | nil offset bytes => intro cs hcs _; exact ⟨cs, hcs⟩
  | @cons offset e edits kept old rest rest' hstart hstop hrest ih =>
      intro cs hcs hboundary
      rw [List.forall_mem_cons] at hboundary
      obtain ⟨⟨hfirst, hlast⟩, hboundary⟩ := hboundary
      obtain ⟨a, b, c, rfl, ha, hb⟩ := hfirst.split hlast (by omega)
      have hkept : kept.length = (Utf8.encodeChars a).length := by
        rw [← Utf8.width, ha]
        omega
      have hold : old.length = (Utf8.encodeChars b).length := by
        rw [← Utf8.width]
        omega
      rw [Utf8.encodeChars_append, Utf8.encodeChars_append, List.append_assoc] at hcs
      -- What is kept and what gives way are whole characters.
      obtain ⟨rfl, hback⟩ := List.append_inj hcs hkept
      obtain ⟨rfl, rfl⟩ := List.append_inj hback hold
      have hlater : ∀ k : Nat, e.stop ≤ (k : Int) →
          Utf8.Boundary (a ++ b ++ c) (k - offset) → Utf8.Boundary c
            (k - (offset + (Utf8.encodeChars a).length + (Utf8.encodeChars b).length)) := by
        intro k hk hboundary
        have hwidth : Utf8.width (a ++ b) =
            (Utf8.encodeChars a).length + (Utf8.encodeChars b).length := Utf8.width_append a b
        have hdrop := hboundary.drop (by omega)
        rw [hwidth] at hdrop
        rw [Nat.add_assoc, ← Nat.sub_sub]
        exact hdrop
      have hbounds := hrest.bounds
      obtain ⟨cs', rfl⟩ := ih c rfl (by
        intro x hx
        have hx' := hbounds x hx
        exact ⟨hlater _ (by omega) (hboundary x hx).1, hlater _ (by omega) (hboundary x hx).2⟩)
      refine ⟨a ++ (e.replacement.toList ++ cs'), ?_⟩
      rw [Utf8.encodeChars_append, Utf8.encodeChars_append, Utf8.encode]

/-- Edits in order between the characters of a text are applied without a fault. -/
theorem applyEdits_of_inOrder {text : String} {edits : List Edit} (horder : InOrder (sorted edits))
    (hboundary : ∀ e ∈ edits, 0 ≤ e.start ∧ Utf8.Boundary text.toList e.start.toNat ∧
      Utf8.Boundary text.toList e.stop.toNat) :
    ∃ text', applyEdits text edits = .ok text' := by
  have hmem : ∀ e ∈ sorted edits, e ∈ edits := fun e he => (sorted_perm edits).mem_iff.mp he
  have hbounds : ∀ e ∈ sorted edits, ((0 : Nat) : Int) ≤ e.start ∧
      e.stop ≤ ↑(0 + (Utf8.encode text).length) := by
    intro e he
    obtain ⟨hstart, _, hstop⟩ := hboundary e (hmem e he)
    have hle : e.stop.toNat ≤ (Utf8.encode text).length := hstop.le
    omega
  obtain ⟨bytes', hrewrites⟩ := exists_rewrites horder hbounds
  have happly := hrewrites.applyInOrder_eq_ok [] rfl
  obtain ⟨cs', rfl⟩ := hrewrites.encodeChars text.toList rfl fun e he => (hboundary e (hmem e he)).2
  refine ⟨String.ofList cs', applyEdits_eq_ok.mpr ⟨firstConflict?_of_pairwise horder.2, _, happly, ?_⟩⟩
  have hdecode := Utf8.decode?_encode (String.ofList cs')
  rw [Utf8.encode, String.toList_ofList] at hdecode
  exact hdecode

end IdiomLint.Edit
