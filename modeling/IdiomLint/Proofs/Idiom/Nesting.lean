import IdiomLint.Proofs.Edit.Gathering
import IdiomLint.Proofs.Idiom.Detection
import IdiomLint.Proofs.Syntax.Walk
import IdiomLint.Proofs.Text.Utf8
import IdiomLint.Rule.CreateList

/-!
# Detected blocks inside detected blocks

The detected blocks of a value form a forest: `Value.nests` gives each outermost one with those inside
it. `Settled` says that the blocks of a forest lie in a stretch of the source as they should, the roots
apart from each other and everything else inside its root. From that alone it follows what becomes of
their edits when they are offered in the order of the walk (`offerAll_nests`): the first one to come is
always the outermost one.
-/

namespace IdiomLint

/-! ## The forest -/

/-- A detected block with the detected blocks inside it. -/
inductive Nest where
  | mk (idiom : Idiom) (inner : List Nest)

namespace Nest

/-- The outermost block. -/
def idiom : Nest → Idiom
  | mk i _ => i

/-- The detected blocks inside the outermost one. -/
def inner : Nest → List Nest
  | mk _ ts => ts

mutual

/-- All blocks of a nest, the outermost one first. -/
def idioms : Nest → List Idiom
  | mk i inner => i :: idiomsAll inner

/-- All blocks of several nests. -/
def idiomsAll : List Nest → List Idiom
  | [] => []
  | t :: ts => idioms t ++ idiomsAll ts

end

theorem idioms_eq (t : Nest) : t.idioms = t.idiom :: idiomsAll t.inner := by
  cases t
  rfl

theorem idiomsAll_append (ss ts : List Nest) : idiomsAll (ss ++ ts) = idiomsAll ss ++ idiomsAll ts := by
  induction ss with
  | nil => rfl
  | cons s ss ih => rw [List.cons_append, idiomsAll, idiomsAll, ih, List.append_assoc]

theorem mem_idiomsAll {ts : List Nest} {i : Idiom} :
    i ∈ idiomsAll ts ↔ ∃ t ∈ ts, i = t.idiom ∨ i ∈ idiomsAll t.inner := by
  induction ts with
  | nil => simp [idiomsAll]
  | cons t ts ih =>
      rw [idiomsAll, List.mem_append, ih, idioms_eq, List.mem_cons]
      simp

end Nest

namespace Value

mutual

/-- The detected blocks of a value. -/
def nests : Value → List Nest
  | .node kind children layout =>
    match detect (.node kind children layout) with
    | some i => [⟨i, nestsAll children⟩]
    | none => nestsAll children
  | _ => []

/-- The detected blocks of the values of a list. -/
def nestsAll : List Value → List Nest
  | [] => []
  | v :: vs => nests v ++ nestsAll vs

end

theorem nests_of_detect_eq_none {kind : String} {children : List Value} {layout : Layout}
    (h : detect (.node kind children layout) = none) :
    nests (.node kind children layout) = nestsAll children := by
  unfold nests
  split
  · next i hi =>
      rw [h] at hi
      exact absurd hi (by simp)
  · rfl

theorem nests_of_detect {kind : String} {children : List Value} {layout : Layout} {i : Idiom}
    (h : detect (.node kind children layout) = some i) :
    nests (.node kind children layout) = [⟨i, nestsAll children⟩] := by
  unfold nests
  split
  · next j hj =>
      rw [h, Option.some.injEq] at hj
      rw [hj]
  · next hnone =>
      rw [h] at hnone
      exact absurd hnone (by simp)

theorem nestsAll_append (vs ws : List Value) : nestsAll (vs ++ ws) = nestsAll vs ++ nestsAll ws := by
  induction vs with
  | nil => rfl
  | cons v vs ih => rw [List.cons_append, nestsAll, nestsAll, ih, List.append_assoc]

mutual

/-- The forest holds what is detected in the nodes of the value, in preorder. -/
theorem idiomsAll_nests : ∀ v : Value,
    Nest.idiomsAll v.nests = v.preorder.filterMap fun n => detect n.toValue
  | .node kind children layout => by
    rw [preorder, List.filterMap_cons, ← idiomsAll_nestsAll children]
    cases hdetect : detect (.node kind children layout) with
    | none => rw [nests_of_detect_eq_none hdetect, Node.toValue, hdetect]
    | some i =>
      rw [nests_of_detect hdetect, Node.toValue, hdetect]
      simp [Nest.idiomsAll, Nest.idioms]
  | .nil | .bool _ | .int _ | .float _ | .text _ | .tuple _ => rfl

/-- The same for the values of a list. -/
theorem idiomsAll_nestsAll : ∀ vs : List Value,
    Nest.idiomsAll (nestsAll vs) = (preorderAll vs).filterMap fun n => detect n.toValue
  | [] => rfl
  | v :: vs => by
    rw [nestsAll, preorderAll, Nest.idiomsAll_append, List.filterMap_append, idiomsAll_nests v,
      idiomsAll_nestsAll vs]

end

end Value

/-- The detected blocks of a tree that lie in no other detected block. -/
def outermost (tree : Node) : List Idiom := tree.toValue.nests.map Nest.idiom

/-- The detected blocks of a tree that lie in another detected block. -/
def nested (tree : Node) : List Idiom :=
  tree.toValue.nests.flatMap fun t => Nest.idiomsAll t.inner

/-- Every detected block of a tree is either outermost or nested. -/
theorem idiomsAll_perm (ts : List Nest) :
    (Nest.idiomsAll ts).Perm (ts.map Nest.idiom ++ ts.flatMap fun t => Nest.idiomsAll t.inner) := by
  induction ts with
  | nil => exact List.Perm.refl []
  | cons t ts ih =>
      rw [Nest.idiomsAll, Nest.idioms_eq, List.map_cons, List.flatMap_cons, List.cons_append,
        List.cons_append]
      refine List.Perm.cons _ ((List.Perm.append_left _ ih).trans ?_)
      rw [← List.append_assoc, ← List.append_assoc]
      exact List.Perm.append_right _ List.perm_append_comm

theorem detect_eq_none {n : Node} (h : n.kind ≠ "block") : detect n.toValue = none := by
  rw [Option.eq_none_iff_forall_ne_some]
  intro i hi
  obtain ⟨hvalue, hblock⟩ := detected_of_detect hi
  rw [hblock] at hvalue
  exact h (by injection hvalue)

/-- The rule comes across the detected blocks in the order of the forest. -/
theorem CreateListRule.idioms_eq (tree : Node) :
    CreateListRule.idioms tree = Nest.idiomsAll tree.toValue.nests := by
  rw [CreateListRule.idioms, Value.idiomsAll_nests, Node.walk_eq_preorder, Node.preorder]
  induction tree.toValue.preorder with
  | nil => rfl
  | cons n ns ih =>
      by_cases hkind : n.kind = "block"
      · rw [List.filter_cons_of_pos (by simp [hkind]), List.filterMap_cons, List.filterMap_cons, ih]
      · rw [List.filter_cons_of_neg (by simp [hkind]), List.filterMap_cons, detect_eq_none hkind, ih]

/-! ## Where the blocks of a forest lie -/

/-- Where the block begins. -/
def Idiom.start (i : Idiom) : Int := i.block.start

/-- Where the block ends. -/
def Idiom.stop (i : Idiom) : Int := i.block.stop

/-- Where the block begins and ends. -/
def Idiom.place (i : Idiom) : Int × Int := (i.start, i.stop)

/-- The block takes up a stretch of characters between two places. -/
structure Idiom.Inside (cs : List Char) (low high : Nat) (i : Idiom) : Prop where
  first : (low : Int) ≤ i.start
  nonempty : i.start < i.stop
  last : i.stop ≤ (high : Int)
  /-- Both ends lie between characters. -/
  boundaries : Utf8.Boundary cs i.start.toNat ∧ Utf8.Boundary cs i.stop.toNat

/-- The second block lies in the first one. -/
def Idiom.Holds (i j : Idiom) : Prop := i.start ≤ j.start ∧ j.stop ≤ i.stop

/-- Two blocks have no place in common. -/
def Idiom.Apart (i j : Idiom) : Prop := i.stop ≤ j.start ∨ j.stop ≤ i.start

/-- All blocks of a forest lie between two places, the roots apart, all others inside their root. -/
structure Settled (cs : List Char) (low high : Nat) (ts : List Nest) : Prop where
  inside : ∀ i ∈ Nest.idiomsAll ts, i.Inside cs low high
  within : ∀ t ∈ ts, ∀ j ∈ Nest.idiomsAll t.inner, t.idiom.start ≤ j.start ∧ j.stop ≤ t.idiom.stop
  apart : ts.Pairwise fun s t => s.idiom.Apart t.idiom

variable {cs : List Char}

theorem Idiom.Inside.mono {low high low' high' : Nat} {i : Idiom} (h : i.Inside cs low high) (hlow : low' ≤ low)
    (hhigh : high ≤ high') : i.Inside cs low' high' := by
  have hfirst := h.first
  have hlast := h.last
  exact ⟨by omega, h.nonempty, by omega, h.boundaries⟩

theorem Settled.mono {low high low' high' : Nat} {ts : List Nest} (h : Settled cs low high ts) (hlow : low' ≤ low)
    (hhigh : high ≤ high') : Settled cs low' high' ts :=
  ⟨fun i hi => (h.inside i hi).mono hlow hhigh, h.within, h.apart⟩

theorem Settled.tail {low high : Nat} {t : Nest} {ts : List Nest} (h : Settled cs low high (t :: ts)) :
    Settled cs low high ts := by
  refine ⟨?_, fun s hs => h.within s (List.mem_cons_of_mem t hs), (List.pairwise_cons.mp h.apart).2⟩
  intro i hi
  apply h.inside i
  unfold Nest.idiomsAll
  exact List.mem_append_right _ hi

/-- A block around a forest makes a forest with one root. -/
theorem Settled.around {low high : Nat} {ts : List Nest} (h : Settled cs low high ts) {i : Idiom}
    (hstart : i.start = low) (hstop : i.stop = high) (hinside : i.Inside cs low high) :
    Settled cs low high [⟨i, ts⟩] := by
  refine ⟨?_, ?_, List.pairwise_singleton _ _⟩
  · intro j hj
    obtain ⟨t, ht, hj⟩ := Nest.mem_idiomsAll.mp hj
    obtain rfl := List.mem_singleton.mp ht
    rcases hj with rfl | hj
    · exact hinside
    · exact h.inside j hj
  · intro t ht j hj
    obtain rfl := List.mem_singleton.mp ht
    have hj := h.inside j hj
    rw [show Nest.idiom ⟨i, ts⟩ = i from rfl, hstart, hstop]
    exact ⟨hj.first, hj.last⟩

/-! ## Offering the edits of a forest -/

namespace Corrector

/-- Edits of which each overlaps an accepted one are left out. -/
theorem offerAll_of_overlap {es : List Edit} : ∀ {c : Corrector},
    (∀ e ∈ es, ∃ a ∈ c.accepted, e.overlaps a = true) →
      (c.offerAll es).1 = { c with skipped := c.skipped ++ es } := by
  induction es with
  | nil =>
      intro c _
      rw [List.append_nil]
      rfl
  | cons e es ih =>
      intro c h
      rw [List.forall_mem_cons] at h
      obtain ⟨a, ha, hoverlap⟩ := h.1
      have hrest := @ih { c with skipped := c.skipped ++ [e] } h.2
      show ((c.offer e).1.offerAll es).1 = _
      rw [offer_of_overlap ha hoverlap, hrest]
      simp

/-- The edits of a settled forest, offered in order to a corrector that has nothing in their way: those of
the roots are accepted, all others are left out. -/
theorem offerAll_nests {edit : Idiom → Edit}
    (hedit : ∀ i, (edit i).start = i.start ∧ (edit i).stop = i.stop) {low high : Nat}
    {ts : List Nest} (hts : Settled cs low high ts) : ∀ c : Corrector,
      (∀ a ∈ c.accepted, ∀ t ∈ ts, a.stop ≤ t.idiom.start ∨ t.idiom.stop ≤ a.start) →
      (c.offerAll ((Nest.idiomsAll ts).map edit)).1 =
        { c with
          accepted := c.accepted ++ (ts.map Nest.idiom).map edit
          skipped := c.skipped ++ (ts.flatMap fun t => Nest.idiomsAll t.inner).map edit } := by
  induction ts with
  | nil =>
      intro c _
      simp [Nest.idiomsAll, offerAll]
  | cons t ts ih =>
      intro c hfree
      have hroot := hts.inside t.idiom (Nest.mem_idiomsAll.mpr ⟨t, by simp, Or.inl rfl⟩)
      have hoffer : (c.offer (edit t.idiom)).1 =
          { c with accepted := c.accepted ++ [edit t.idiom] } := by
        apply offer_of_free
        intro a ha
        have hapart := hfree a ha t (by simp)
        simp only [Edit.overlaps, (hedit t.idiom).1, (hedit t.idiom).2, Bool.and_eq_false_iff,
          decide_eq_false_iff_not]
        omega
      -- Whatever lies inside the root overlaps it.
      have hinner : ∀ e ∈ (Nest.idiomsAll t.inner).map edit,
          ∃ a ∈ c.accepted ++ [edit t.idiom], e.overlaps a = true := by
        intro e he
        obtain ⟨j, hj, rfl⟩ := List.mem_map.mp he
        have hwithin := hts.within t (by simp) j hj
        have hj := hts.inside j (Nest.mem_idiomsAll.mpr ⟨t, by simp, Or.inr hj⟩)
        have hnonempty := hj.nonempty
        refine ⟨edit t.idiom, by simp, ?_⟩
        simp only [Edit.overlaps, (hedit t.idiom).1, (hedit t.idiom).2, (hedit j).1, (hedit j).2,
          Bool.and_eq_true, decide_eq_true_eq]
        omega
      have hskip := @offerAll_of_overlap ((Nest.idiomsAll t.inner).map edit)
        { c with accepted := c.accepted ++ [edit t.idiom] } hinner
      -- The roots that come after lie apart from this one.
      have hlater : ∀ a ∈ c.accepted ++ [edit t.idiom], ∀ t' ∈ ts,
          a.stop ≤ t'.idiom.start ∨ t'.idiom.stop ≤ a.start := by
        intro a ha t' ht'
        rcases List.mem_append.mp ha with ha | ha
        · exact hfree a ha t' (List.mem_cons_of_mem t ht')
        · rw [List.mem_singleton.mp ha, (hedit t.idiom).1, (hedit t.idiom).2]
          exact (List.pairwise_cons.mp hts.apart).1 t' ht'
      have hrest := ih hts.tail
        { c with
          accepted := c.accepted ++ [edit t.idiom]
          skipped := c.skipped ++ (Nest.idiomsAll t.inner).map edit } hlater
      rw [Nest.idiomsAll, Nest.idioms_eq, List.cons_append, List.map_cons, List.map_append]
      show ((c.offer (edit t.idiom)).1.offerAll _).1 = _
      rw [hoffer, offerAll_append, hskip, hrest]
      simp

end Corrector

end IdiomLint
