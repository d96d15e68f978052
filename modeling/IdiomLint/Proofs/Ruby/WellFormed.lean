import Mathlib.Data.List.Pairwise
import IdiomLint.Proofs.Text.Utf8
import IdiomLint.Ruby.Conversion

/-!
# Concrete trees as a grammar makes them

A grammar promises where the nodes of its trees lie: inside the source, between characters, a child inside
its parent and its siblings one after the other (`ConcreteNode.WellFormed`). What the conversion takes
from a node is taken from places that lie beside each other.
-/

namespace IdiomLint.Ruby

namespace ConcreteNode

/-- Two nodes have no place in common. -/
def Beside (a b : ConcreteNode) : Prop := a.stop ≤ b.start ∨ b.stop ≤ a.start

/-- The first node lies inside the second one. -/
def Within (a b : ConcreteNode) : Prop := b.start ≤ a.start ∧ a.stop ≤ b.stop

instance : Std.Symm Beside := ⟨fun _ _ => Or.symm⟩

theorem Within.rfl {a : ConcreteNode} : Within a a := ⟨Nat.le_refl _, Nat.le_refl _⟩

theorem Within.trans {a b c : ConcreteNode} (hab : Within a b) (hbc : Within b c) : Within a c :=
  ⟨Nat.le_trans hbc.1 hab.1, Nat.le_trans hab.2 hbc.2⟩

/-- What lies inside nodes beside each other lies beside each other. -/
theorem Beside.of_within {a b c d : ConcreteNode} (h : Beside c d) (ha : Within a c)
    (hb : Within b d) : Beside a b := by
  obtain ⟨_, ha⟩ := ha
  obtain ⟨_, hb⟩ := hb
  unfold Beside at h ⊢
  omega

/-! ## All nodes of a tree -/

/-- Something holds of all nodes of a tree. -/
inductive Everywhere (p : ConcreteNode → Prop) : ConcreteNode → Prop
  | mk {n : ConcreteNode} : p n → (∀ c ∈ n.children, Everywhere p c) → Everywhere p n

theorem Everywhere.here {p : ConcreteNode → Prop} {n : ConcreteNode} (h : n.Everywhere p) : p n := by
  obtain ⟨hp, _⟩ := h
  exact hp

theorem Everywhere.of_child {p : ConcreteNode → Prop} {n c : ConcreteNode} (h : n.Everywhere p)
    (hc : c ∈ n.children) : c.Everywhere p := by
  obtain ⟨_, hchildren⟩ := h
  exact hchildren c hc

mutual

/-- Look at all nodes of a tree. -/
def decideEverywhere (p : ConcreteNode → Prop) [DecidablePred p] :
    (n : ConcreteNode) → Decidable (n.Everywhere p)
  | ⟨kind, named, start, stop, field, children⟩ =>
    match (inferInstance : Decidable (p ⟨kind, named, start, stop, field, children⟩)),
      decideEverywhereAll p children with
    | isTrue h, isTrue hall => isTrue (.mk h hall)
    | isFalse h, _ => isFalse fun hn => h hn.here
    | _, isFalse hall => isFalse fun hn => hall fun _ hc => hn.of_child hc

/-- Look at all nodes of several trees. -/
def decideEverywhereAll (p : ConcreteNode → Prop) [DecidablePred p] :
    (ns : List ConcreteNode) → Decidable (∀ c ∈ ns, c.Everywhere p)
  | [] => isTrue fun _ hc => absurd hc List.not_mem_nil
  | n :: ns =>
    match decideEverywhere p n, decideEverywhereAll p ns with
    | isTrue h, isTrue hall => isTrue (List.forall_mem_cons.mpr ⟨h, hall⟩)
    | isFalse h, _ => isFalse fun hns => h (hns n List.mem_cons_self)
    | _, isFalse hall => isFalse fun hns => hall fun c hc => hns c (List.mem_cons_of_mem n hc)

end

instance (p : ConcreteNode → Prop) [DecidablePred p] (n : ConcreteNode) :
    Decidable (n.Everywhere p) := decideEverywhere p n

/-- A node lies where it should in a source of the given characters, and so do its children in it. -/
structure Placed (cs : List Char) (n : ConcreteNode) : Prop where
  ordered : n.start ≤ n.stop
  first : Utf8.Boundary cs n.start
  last : Utf8.Boundary cs n.stop
  children : ∀ c ∈ n.children, Within c n
  siblings : n.children.Pairwise fun a b => a.stop ≤ b.start

instance (cs : List Char) : DecidablePred (Placed cs) := fun n =>
  decidable_of_iff (n.start ≤ n.stop ∧ Utf8.Boundary cs n.start ∧ Utf8.Boundary cs n.stop ∧
      (∀ c ∈ n.children, n.start ≤ c.start ∧ c.stop ≤ n.stop) ∧
      n.children.Pairwise fun a b => a.stop ≤ b.start)
    ⟨fun ⟨h₁, h₂, h₃, h₄, h₅⟩ => ⟨h₁, h₂, h₃, h₄, h₅⟩, fun ⟨h₁, h₂, h₃, h₄, h₅⟩ => ⟨h₁, h₂, h₃, h₄, h₅⟩⟩

/-- All nodes of the tree lie where they should. -/
def WellFormed (cs : List Char) (n : ConcreteNode) : Prop := n.Everywhere (Placed cs)

instance (cs : List Char) (n : ConcreteNode) : Decidable (n.WellFormed cs) :=
  inferInstanceAs (Decidable (n.Everywhere (Placed cs)))

/-- An integer literal has at most as many digits as decimal text may have. -/
def IntegerFits (source : List UInt8) (n : ConcreteNode) : Prop :=
  n.form = .integer → ∀ k ∈ integerLiteral? (n.text source), k.natAbs < 10 ^ Integer.digitLimit

instance (source : List UInt8) : DecidablePred (IntegerFits source) := fun n =>
  inferInstanceAs (Decidable (n.form = .integer →
    ∀ k ∈ integerLiteral? (n.text source), k.natAbs < 10 ^ Integer.digitLimit))

/-- All integer literals of the tree have at most as many digits as decimal text may have. -/
def IntegersFit (source : List UInt8) (n : ConcreteNode) : Prop := n.Everywhere (IntegerFits source)

instance (source : List UInt8) (n : ConcreteNode) : Decidable (n.IntegersFit source) :=
  inferInstanceAs (Decidable (n.Everywhere (IntegerFits source)))

variable {cs : List Char} {n : ConcreteNode}

theorem WellFormed.of_child (h : n.WellFormed cs) {c : ConcreteNode} (hc : c ∈ n.children) :
    c.WellFormed cs ∧ Within c n :=
  ⟨Everywhere.of_child h hc, (Everywhere.here h).children c hc⟩

theorem WellFormed.beside (h : n.WellFormed cs) : n.children.Pairwise Beside :=
  (Everywhere.here h).siblings.imp Or.inl

theorem IntegersFit.of_child {source : List UInt8} (h : n.IntegersFit source) {c : ConcreteNode}
    (hc : c ∈ n.children) : c.IntegersFit source := Everywhere.of_child h hc

/-! ## The children that the conversion looks at -/

theorem childFor?_eq_some {field : String} {c : ConcreteNode} (h : n.childFor? field = some c) :
    c ∈ n.children ∧ c.field = some field := by
  obtain ⟨hfield, hmem⟩ := And.intro (List.find?_some h) (List.mem_of_find?_eq_some h)
  exact ⟨hmem, beq_iff_eq.mp hfield⟩

/-- Children that play different parts lie beside each other. -/
theorem WellFormed.beside_childFor? (h : n.WellFormed cs) {f g : String} {a b : ConcreteNode}
    (hfg : f ≠ g) (ha : n.childFor? f = some a) (hb : n.childFor? g = some b) : Beside a b := by
  obtain ⟨hamem, haf⟩ := childFor?_eq_some ha
  obtain ⟨hbmem, hbg⟩ := childFor?_eq_some hb
  apply h.beside.forall hamem hbmem
  intro hab
  rw [hab, hbg, Option.some.injEq] at haf
  exact hfg haf.symm

theorem namedChildren_sublist (n : ConcreteNode) : n.namedChildren.Sublist n.children :=
  List.filter_sublist

theorem parts_sublist (n : ConcreteNode) : n.parts.Sublist n.children :=
  List.filter_sublist.trans n.namedChildren_sublist

theorem statementsOf_within (h : n.WellFormed cs) {s : ConcreteNode} (hs : s ∈ statementsOf n) :
    s.WellFormed cs ∧ Within s n := by
  rw [statementsOf] at hs
  split at hs
  · exact h.of_child (n.namedChildren_sublist.subset hs)
  · obtain rfl := List.mem_singleton.mp hs
    exact ⟨h, Within.rfl⟩

theorem statementsOf_beside (h : n.WellFormed cs) : (statementsOf n).Pairwise Beside := by
  unfold statementsOf
  split
  · exact h.beside.sublist n.namedChildren_sublist
  · exact List.pairwise_singleton _ _

/-- A statement of a block lies inside a part of the block that is no parameter list. -/
theorem mem_blockStatements {block s : ConcreteNode} (hs : s ∈ blockStatements block) :
    ∃ part ∈ block.parts, part.kind ≠ "block_parameters" ∧ s ∈ statementsOf part := by
  obtain ⟨part, hpart, hs⟩ := List.mem_flatMap.mp (List.mem_filter.mp hs).1
  obtain ⟨hpart, hkind⟩ := List.mem_filter.mp hpart
  exact ⟨part, hpart, by simpa using hkind, hs⟩

theorem mem_blockParameters? {block written : ConcreteNode}
    (h : blockParameters? block = some written) :
    written ∈ block.parts ∧ written.kind = "block_parameters" := by
  obtain ⟨hmem, hkind⟩ := List.mem_filter.mp (List.mem_of_getLast? h)
  exact ⟨hmem, by simpa using hkind⟩

theorem WellFormed.beside_blockStatements (h : n.WellFormed cs) :
    (blockStatements n).Pairwise Beside := by
  have hparts : ∀ p ∈ n.parts, p.WellFormed cs :=
    fun p hp => (h.of_child (n.parts_sublist.subset hp)).1
  refine List.Pairwise.sublist List.filter_sublist (List.pairwise_flatMap.mpr ⟨?_, ?_⟩)
  · intro p hp
    exact statementsOf_beside (hparts p (List.mem_filter.mp hp).1)
  · have hbeside := (h.beside.sublist n.parts_sublist).sublist
      (List.filter_sublist : (n.parts.filter (·.kind != "block_parameters")).Sublist n.parts)
    -- Statements of different parts lie beside each other as the parts do.
    apply hbeside.imp_of_mem
    intro a b ha hb hab s hs t ht
    exact hab.of_within (statementsOf_within (hparts a (List.mem_filter.mp ha).1) hs).2
      (statementsOf_within (hparts b (List.mem_filter.mp hb).1) ht).2

end ConcreteNode

end IdiomLint.Ruby
