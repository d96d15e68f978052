import Mathlib.Algebra.Order.BigOperators.Group.List
import Mathlib.Algebra.Order.Group.Nat
import Mathlib.Tactic.IntervalCases
import IdiomLint.Proofs.Ruby.Search
import IdiomLint.Proofs.Ruby.Soundness
import IdiomLint.Proofs.Syntax.Walk

/-!
# What a body reads

`owned` lists the nodes that belong to a body: a node that is no block and whatever its child nodes own, but of a
block only what the operands of its call own. In whatever order the search takes the nodes that wait to be
visited, it finds the highest number and the use of `it` among the owned nodes (`Visits.eq`).

Main statement: the implicit parameter of a body is the highest numbered parameter that an owned node reads, else
`it` if an owned node reads it, else none (`implicitParameter_reads_owned`).
-/

namespace IdiomLint.Ruby

/-! ## Owned nodes -/

/-- The receiver and the arguments of a call, as far as they are nodes: they stand first and from the third place
on. -/
def operands (call : Node) : List Node :=
  (call.children.take 1 ++ call.children.drop 2).filterMap Value.node?

/-- The nodes below a node that belong to the same body: its child nodes, or of a block the operands of the call
that it hangs off. -/
def belonging (v : Node) : List Node :=
  if isBlockKind v.kind then (v.children.head?.bind Value.node?).toList.flatMap operands else v.childNodes

/-- The node itself, unless it is a block. -/
def ownSelf (v : Node) : List Node := if isBlockKind v.kind then [] else [v]

theorem mem_childNodes {v c : Node} : c ∈ v.childNodes ↔ c.toValue ∈ v.children := by
  rw [Node.childNodes, List.mem_filterMap]
  constructor
  · rintro ⟨w, hw, hc⟩
    exact Value.eq_toValue_of_node? hc ▸ hw
  · exact fun hc => ⟨c.toValue, hc, rfl⟩

theorem mem_childNodes_of_operands {call c : Node} (h : c ∈ operands call) : c ∈ call.childNodes := by
  obtain ⟨w, hw, hc⟩ := List.mem_filterMap.mp h
  rw [mem_childNodes, ← Value.eq_toValue_of_node? hc]
  rcases List.mem_append.mp hw with hw | hw
  · exact List.mem_of_mem_take hw
  · exact List.mem_of_mem_drop hw

/-- What belongs to the same body is a child node or a child node of one. -/
theorem of_mem_belonging {v c : Node} (h : c ∈ belonging v) :
    c ∈ v.childNodes ∨ ∃ call ∈ v.childNodes, c ∈ call.childNodes := by
  rw [belonging] at h
  split at h
  · obtain ⟨call, hcall, hc⟩ := List.mem_flatMap.mp h
    obtain ⟨w, hw, hnode⟩ := Option.bind_eq_some_iff.mp (Option.mem_toList.mp hcall)
    have hmem := List.mem_of_head? hw
    rw [Value.eq_toValue_of_node? hnode, ← mem_childNodes] at hmem
    exact Or.inr ⟨call, hmem, mem_childNodes_of_operands hc⟩
  · exact Or.inl h

theorem nodeCount_lt_of_childNodes {v c : Node} (h : c ∈ v.childNodes) : c.nodeCount < v.nodeCount :=
  Nat.lt_of_le_of_lt (List.le_sum_of_mem (List.mem_map_of_mem h)) v.sum_nodeCount_childNodes_lt

theorem nodeCount_lt_of_belonging {v c : Node} (h : c ∈ belonging v) : c.nodeCount < v.nodeCount := by
  rcases of_mem_belonging h with h | ⟨call, hcall, hc⟩
  · exact nodeCount_lt_of_childNodes h
  · exact Nat.lt_trans (nodeCount_lt_of_childNodes hc) (nodeCount_lt_of_childNodes hcall)

/-- The nodes of a tree that its body owns. -/
def owned (v : Node) : List Node := ownSelf v ++ (belonging v).attach.flatMap fun c => owned c.1
termination_by v.nodeCount
decreasing_by exact nodeCount_lt_of_belonging c.2

theorem owned_eq (v : Node) : owned v = ownSelf v ++ (belonging v).flatMap owned := by
  rw [owned]
  simp

/-! ## Trees that can be searched -/

/-- What the search looks at in a node is there. -/
structure Legible (v : Node) : Prop where
  /-- A block begins with a call, which has children, or with no node. -/
  call : isBlockKind v.kind = true → ∃ w ∈ v.children.head?, ∀ call ∈ w.node?, call.children ≠ []
  /-- A variable begins with its name. -/
  name : v.kind = "lvar" → ∃ s, v.children.head? = some (.text s)

/-- What the search looks at is there in all nodes of a tree. -/
def AllLegible (v : Node) : Prop := ∀ w ∈ v.preorder, Legible w

theorem allLegible_iff {v : Node} : AllLegible v ↔ Legible v ∧ ∀ c ∈ v.childNodes, AllLegible c := by
  rw [AllLegible, v.preorder_eq, List.forall_mem_cons]
  refine and_congr_right fun _ => ?_
  simp only [AllLegible, List.mem_flatMap]
  constructor
  · exact fun h c hc w hw => h w ⟨c, hc, hw⟩
  · rintro h w ⟨c, hc, hw⟩
    exact h c hc w hw

/-- The search looks at nothing in particular in a node that is neither a block nor a variable. -/
theorem legible_of_kind {v : Node} (hblock : isBlockKind v.kind = false) (hname : v.kind ≠ "lvar") : Legible v :=
  ⟨fun h => absurd (hblock.symm.trans h) (by decide), fun h => absurd h hname⟩

theorem legible_of_name {v : Node} {name : String} {rest : List Value} (hkind : v.kind = "lvar")
    (h : v.children = .text name :: rest) : Legible v := by
  refine ⟨fun hblock => ?_, fun _ => ⟨name, by rw [h]; rfl⟩⟩
  rw [hkind] at hblock
  exact absurd hblock (by decide)

/-- A block is legible if it begins with a node that has children or with no node. -/
theorem legible_of_first {v : Node} {w : Value} {rest : List Value} (hname : v.kind ≠ "lvar")
    (h : v.children = w :: rest) (hw : ∀ call ∈ w.node?, call.children ≠ []) : Legible v :=
  ⟨fun _ => ⟨w, by rw [h]; rfl, hw⟩, fun hkind => absurd hkind hname⟩

/-- In a node that is neither a block nor a variable only the nodes below it matter. -/
theorem allLegible_of_plain {kind : String} {values : List Value} {layout : Layout} {below : List Node}
    (hblock : isBlockKind kind = false) (hname : kind ≠ "lvar") (hvalues : values.filterMap Value.node? = below)
    (hbelow : ∀ c ∈ below, AllLegible c) : AllLegible ⟨kind, values, layout⟩ :=
  allLegible_iff.mpr ⟨legible_of_kind hblock hname, fun c hc => hbelow c (hvalues ▸ hc)⟩

theorem AllLegible.of_belonging {v c : Node} (h : AllLegible v) (hc : c ∈ belonging v) : AllLegible c := by
  have hbelow := (allLegible_iff.mp h).2
  rcases of_mem_belonging hc with hc | ⟨call, hcall, hc⟩
  · exact hbelow c hc
  · exact (allLegible_iff.mp (hbelow call hcall)).2 c hc

/-! ## What owned nodes read -/

/-- The number of the numbered parameter that a node is; 0 if it is none. -/
def numberAt (v : Node) : Nat := (numberRead v).toOption.getD 0

/-- The highest number among nodes; 0 if none is a numbered parameter. -/
def highestIn (ws : List Node) : Nat := (ws.map numberAt).foldr max 0

/-- The implicit parameter that a finished search tells of. -/
def verdict : Nat × Bool → Option Implicit
  | (highest, usesIt) => if 0 < highest then some (.numbered highest) else if usesIt then some .it else none

theorem highestIn_append (ws us : List Node) : highestIn (ws ++ us) = max (highestIn ws) (highestIn us) := by
  induction ws with
  | nil => simp [highestIn]
  | cons w ws ih =>
      show max (numberAt w) (highestIn (ws ++ us)) = max (max (numberAt w) (highestIn ws)) (highestIn us)
      rw [ih, Nat.max_assoc]

theorem highestIn_perm {ws us : List Node} (h : ws.Perm us) : highestIn ws = highestIn us :=
  (h.map numberAt).foldr_eq 0

theorem numberAt_le_highestIn {ws : List Node} {w : Node} (h : w ∈ ws) : numberAt w ≤ highestIn ws := by
  induction ws with
  | nil => exact absurd h List.not_mem_nil
  | cons u ws ih =>
      rcases List.mem_cons.mp h with rfl | h
      · exact Nat.le_max_left _ _
      · exact Nat.le_trans (ih h) (Nat.le_max_right _ _)

theorem exists_of_highestIn_pos {ws : List Node} (h : 0 < highestIn ws) : ∃ w ∈ ws, numberAt w = highestIn ws := by
  induction ws with
  | nil => exact absurd h (Nat.lt_irrefl 0)
  | cons u ws ih =>
      change 0 < max (numberAt u) (highestIn ws) at h
      change ∃ w ∈ u :: ws, numberAt w = max (numberAt u) (highestIn ws)
      by_cases hle : highestIn ws ≤ numberAt u
      · exact ⟨u, List.mem_cons_self, (Nat.max_eq_left hle).symm⟩
      · rw [Nat.max_eq_right (Nat.le_of_not_le hle)] at h ⊢
        obtain ⟨w, hw, heq⟩ := ih h
        exact ⟨w, List.mem_cons_of_mem u hw, heq⟩

/-! ## The search in any order -/

/-- What the search does at a node: the highest number and the use of `it` after it, and the nodes to search
below it. -/
def visitNode (highest : Nat) (usesIt : Bool) (v : Node) : Except TreeError ((Nat × Bool) × List Node) :=
  if isBlockKind v.kind then (searchBelow v).map fun below => ((highest, usesIt), below)
  else do
    let number ← numberRead v
    let below ← searchBelow v
    .ok ((max highest number, usesIt || isItRead v), below)

/-- A search that takes the waiting nodes in any order, with what it ends in. -/
inductive Visits : Nat → Bool → List Node → Except TreeError (Nat × Bool) → Prop
  | done {highest : Nat} {usesIt : Bool} : Visits highest usesIt [] (.ok (highest, usesIt))
  | visit {highest highest' : Nat} {usesIt usesIt' : Bool} {v : Node} {waiting rest below : List Node}
      {out : Except TreeError (Nat × Bool)} : (v :: rest).Perm waiting →
      visitNode highest usesIt v = .ok ((highest', usesIt'), below) →
      Visits highest' usesIt' (below ++ rest) out → Visits highest usesIt waiting out
  | failed {highest : Nat} {usesIt : Bool} {v : Node} {waiting rest : List Node} {e : TreeError} :
      (v :: rest).Perm waiting → visitNode highest usesIt v = .error e →
      Visits highest usesIt waiting (.error e)

theorem searchFrom_cons_eq (highest : Nat) (usesIt : Bool) (v : Node) (stack : List Node) :
    searchFrom highest usesIt (v :: stack) =
      visitNode highest usesIt v >>= fun found => searchFrom found.1.1 found.1.2 (found.2 ++ stack) := by
  rw [searchFrom_cons, visitNode]
  split
  · cases searchBelow v <;> rfl
  · cases numberRead v with
    | error e => rfl
    | ok number => cases searchBelow v <;> rfl

theorem searchBelow_of_visitNode {highest : Nat} {usesIt : Bool} {v : Node} {found : Nat × Bool}
    {below : List Node} (h : visitNode highest usesIt v = .ok (found, below)) : searchBelow v = .ok below := by
  rw [visitNode] at h
  split at h
  · obtain ⟨below, hbelow, heq⟩ := map_eq_ok.mp h
    cases heq
    exact hbelow
  · obtain ⟨number, _, h⟩ := bind_eq_ok.mp h
    obtain ⟨below, hbelow, h⟩ := bind_eq_ok.mp h
    cases h
    exact hbelow

/-- The search itself takes the node that was put on the stack last. -/
theorem visits_searchFrom (highest : Nat) (usesIt : Bool) (stack : List Node) :
    Visits highest usesIt stack (searchFrom highest usesIt stack) := by
  generalize hweight : stackWeight stack = weight
  induction weight using Nat.strong_induction_on generalizing highest usesIt stack with
  | _ weight ih =>
      cases stack with
      | nil =>
          rw [searchFrom]
          exact .done
      | cons v rest =>
          rw [searchFrom_cons_eq]
          cases hvisit : visitNode highest usesIt v with
          | error e => exact .failed (.refl _) hvisit
          | ok found =>
              obtain ⟨⟨highest', usesIt'⟩, below⟩ := found
              have hbelow := stackWeight_searchBelow (searchBelow_of_visitNode hvisit)
              refine .visit (.refl _) hvisit (ih _ ?_ highest' usesIt' (below ++ rest) rfl)
              rw [stackWeight_append, ← hweight]
              simp only [stackWeight, List.map_cons, List.sum_cons] at hbelow ⊢
              omega

theorem numberRead_of_legible {v : Node} (h : Legible v) : numberRead v = .ok (numberAt v) := by
  have hok : ∃ number, numberRead v = .ok number := by
    rw [numberRead]
    split
    · next hkind =>
        obtain ⟨s, hs⟩ := h.name (beq_iff_eq.mp hkind)
        obtain ⟨rest, hrest⟩ := List.head?_eq_some_iff.mp hs
        rw [hrest]
        exact ⟨_, rfl⟩
    · exact ⟨0, rfl⟩
  obtain ⟨number, hnumber⟩ := hok
  rw [numberAt, hnumber]
  rfl

/-- Below a node the search finds, in some order, the nodes that belong to the same body. -/
theorem searchBelow_of_legible {v : Node} (h : Legible v) :
    ∃ below, searchBelow v = .ok below ∧ below.Perm (belonging v) := by
  cases hkind : isBlockKind v.kind with
  | false =>
      refine ⟨v.childNodes.reverse, ?_, ?_⟩
      · rw [searchBelow, hkind, if_neg Bool.false_ne_true]
      · rw [belonging, hkind, if_neg Bool.false_ne_true]
        exact List.reverse_perm _
  | true =>
      obtain ⟨w, hw, hcall⟩ := h.call hkind
      obtain ⟨rest, hrest⟩ := List.head?_eq_some_iff.mp hw
      rw [belonging, hkind, if_pos rfl, hw, Option.bind_some]
      cases hnode : w.node? with
      | none => exact ⟨[], searchBelow_of_literal hkind hrest hnode, .refl _⟩
      | some call =>
          rw [Value.eq_toValue_of_node? hnode] at hrest
          obtain ⟨receiver, others, hothers⟩ := List.exists_cons_of_ne_nil (hcall call hnode)
          refine ⟨receiver.node?.toList ++ ((others.drop 1).filterMap Value.node?).reverse, ?_, ?_⟩
          · rw [searchBelow, hkind, if_pos rfl, hrest]
            show callOperands call = _
            rw [callOperands, hothers]
          · rw [Option.toList_some, List.flatMap_singleton, operands, hothers, List.filterMap_append]
            exact .append (by cases hr : receiver.node? <;> simp [hr]) (List.reverse_perm _)

theorem visitNode_of_legible {v : Node} (h : Legible v) (highest : Nat) (usesIt : Bool) :
    ∃ below, below.Perm (belonging v) ∧ visitNode highest usesIt v =
      .ok ((max highest (highestIn (ownSelf v)), usesIt || (ownSelf v).any isItRead), below) := by
  obtain ⟨below, hbelow, hperm⟩ := searchBelow_of_legible h
  refine ⟨below, hperm, ?_⟩
  rw [visitNode, ownSelf, hbelow]
  split
  · simp [highestIn, Except.map]
  · rw [numberRead_of_legible h]
    simp [highestIn, bind, Except.bind]

/-- The owned nodes of what waits are, after a visit, the visited one and those of what waits then. -/
theorem owned_perm {v : Node} {waiting rest below : List Node} (hwaiting : (v :: rest).Perm waiting)
    (hbelow : below.Perm (belonging v)) :
    (waiting.flatMap owned).Perm (ownSelf v ++ (below ++ rest).flatMap owned) := by
  refine (hwaiting.symm.flatMap_right owned).trans ?_
  rw [List.flatMap_cons, owned_eq, List.flatMap_append, List.append_assoc]
  exact .append_left _ (.append_right _ (hbelow.symm.flatMap_right owned))

/-- In whatever order the nodes are visited, the search finds what the owned nodes read. -/
theorem Visits.eq {highest : Nat} {usesIt : Bool} {waiting : List Node} {out : Except TreeError (Nat × Bool)}
    (h : Visits highest usesIt waiting out) : (∀ v ∈ waiting, AllLegible v) →
      out = .ok (max highest (highestIn (waiting.flatMap owned)),
        usesIt || (waiting.flatMap owned).any isItRead) := by
  induction h with
  | @done highest usesIt =>
      intro _
      simp [highestIn]
  | @visit highest highest' usesIt usesIt' v waiting rest below out hwaiting hvisit _ ih =>
      intro hlegible
      have hv := hlegible v (hwaiting.subset List.mem_cons_self)
      obtain ⟨found, hfound, hstep⟩ := visitNode_of_legible (allLegible_iff.mp hv).1 highest usesIt
      rw [hstep, Except.ok.injEq, Prod.mk.injEq, Prod.mk.injEq] at hvisit
      obtain ⟨⟨rfl, rfl⟩, rfl⟩ := hvisit
      have hperm := owned_perm hwaiting hfound
      rw [ih ?_, highestIn_perm hperm, hperm.any_eq, highestIn_append, List.any_append, Nat.max_assoc,
        Bool.or_assoc]
      intro c hc
      rcases List.mem_append.mp hc with hc | hc
      · exact hv.of_belonging (hfound.subset hc)
      · exact hlegible c (hwaiting.subset (List.mem_cons_of_mem v hc))
  | @failed highest usesIt v waiting rest e hwaiting hvisit =>
      intro hlegible
      have hv := hlegible v (hwaiting.subset List.mem_cons_self)
      obtain ⟨_, _, hstep⟩ := visitNode_of_legible (allLegible_iff.mp hv).1 highest usesIt
      exact nomatch hstep.symm.trans hvisit

/-! ## The implicit parameter -/

/-- The node is the numbered parameter `k`. -/
def IsNumbered (k : Nat) (w : Node) : Prop :=
  w.kind = "lvar" ∧ w.children.head? = some (.text ("_" ++ toString k))

/-- The node is a call of `it` on nothing and with nothing. -/
def IsIt (w : Node) : Prop :=
  w.kind = "send" ∧ w.layout.fixed = true ∧ w.children = [.nil, .text "it"]

/-- One of the nodes is a numbered parameter. -/
def Numbered (ws : List Node) (k : Nat) : Prop := 1 ≤ k ∧ k ≤ 9 ∧ ∃ w ∈ ws, IsNumbered k w

/-- The implicit parameter that nodes read: the highest numbered one, else `it`, else none. -/
def Reads (ws : List Node) : Option Implicit → Prop
  | some (.numbered k) => Numbered ws k ∧ ∀ j, Numbered ws j → j ≤ k
  | some .it => (∀ k, ¬ Numbered ws k) ∧ ∃ w ∈ ws, IsIt w
  | none => (∀ k, ¬ Numbered ws k) ∧ ∀ w ∈ ws, ¬ IsIt w

theorem isItRead_iff {w : Node} : isItRead w = true ↔ IsIt w := by
  rw [isItRead, IsIt, Bool.and_eq_true, Bool.and_eq_true, beq_iff_eq, and_assoc]
  refine and_congr_right fun _ => and_congr_right fun _ => ?_
  split
  · next name hname => simp [hname]
  · next hother =>
      simp only [Bool.false_eq_true, false_iff]
      exact fun h => hother "it" h

/-- The numbered parameters are `_1` to `_9`. -/
theorem parameterNumber_eq_iff {name : String} {k : Nat} (hfirst : 1 ≤ k) (hlast : k ≤ 9) :
    parameterNumber name = k ↔ name = "_" ++ toString k := by
  constructor
  · intro h
    rw [parameterNumber] at h
    split at h
    · next c hname =>
        split at h
        · next hdigit =>
            have hrange := Digit.toNat_of_isDigit hdigit
            have hc : c = Digit.ofValue k := by
              rw [← Char.ofNat_toNat c, Digit.ofValue]
              congr 1
              change c.toNat - 48 = k at h
              show c.toNat = 48 + k
              omega
            rw [← String.ofList_toList (s := name), hname, hc]
            interval_cases k <;> rfl
        · omega
    · omega
  · rintro rfl
    interval_cases k <;> rfl

theorem numberAt_eq_iff {w : Node} {k : Nat} (hfirst : 1 ≤ k) (hlast : k ≤ 9) :
    numberAt w = k ↔ IsNumbered k w := by
  rw [numberAt, numberRead, IsNumbered]
  by_cases hkind : w.kind = "lvar"
  · rw [if_pos (by rw [hkind]; rfl), and_iff_right hkind]
    split
    · next hchildren => simp [hchildren, Except.toOption]; omega
    · next name rest hchildren =>
        rw [hchildren, List.head?_cons, Option.some.injEq, Value.text.injEq]
        exact parameterNumber_eq_iff hfirst hlast
    · next v rest hother hchildren =>
        rw [hchildren, List.head?_cons, Option.some.injEq]
        constructor
        · exact fun h => absurd h.symm (Nat.ne_of_gt hfirst)
        · exact fun h => (hother _ h).elim
  · rw [if_neg (by simpa using hkind)]
    exact iff_of_false (Nat.ne_of_lt hfirst) fun h => hkind h.1

theorem numberAt_le (w : Node) : numberAt w ≤ 9 := by
  rw [numberAt]
  cases hnumber : numberRead w with
  | error e => exact Nat.zero_le 9
  | ok k => exact numberRead_le hnumber

theorem numbered_iff {ws : List Node} {k : Nat} : Numbered ws k ↔ 0 < k ∧ ∃ w ∈ ws, numberAt w = k := by
  constructor
  · rintro ⟨hfirst, hlast, w, hw, hk⟩
    exact ⟨hfirst, w, hw, (numberAt_eq_iff hfirst hlast).mpr hk⟩
  · rintro ⟨hfirst, w, hw, hk⟩
    have hlast := numberAt_le w
    rw [hk] at hlast
    exact ⟨hfirst, hlast, w, hw, (numberAt_eq_iff hfirst hlast).mp hk⟩

/-- The numbers of the numbered parameters among nodes are bounded by the highest one, which is one of them. -/
theorem numbered_highestIn {ws : List Node} :
    (0 < highestIn ws → Numbered ws (highestIn ws)) ∧ ∀ k, Numbered ws k → k ≤ highestIn ws := by
  constructor
  · intro h
    exact numbered_iff.mpr ⟨h, exists_of_highestIn_pos h⟩
  · intro k hk
    obtain ⟨_, w, hw, rfl⟩ := numbered_iff.mp hk
    exact numberAt_le_highestIn hw

theorem reads_verdict (ws : List Node) : Reads ws (verdict (highestIn ws, ws.any isItRead)) := by
  obtain ⟨hhighest, hbound⟩ := @numbered_highestIn ws
  rw [verdict]
  split
  · next hpos => exact ⟨hhighest hpos, hbound⟩
  · next hzero =>
      have hnone : ∀ k, ¬ Numbered ws k := fun k hk =>
        hzero (Nat.lt_of_lt_of_le hk.1 (hbound k hk))
      split
      · next hit =>
          obtain ⟨w, hw, hread⟩ := List.any_eq_true.mp hit
          exact ⟨hnone, w, hw, isItRead_iff.mp hread⟩
      · next hit =>
          exact ⟨hnone, fun w hw hread => hit (List.any_eq_true.mpr ⟨w, hw, isItRead_iff.mpr hread⟩)⟩

/-- Nodes read one implicit parameter at most. -/
theorem reads_unique {ws : List Node} {r r' : Option Implicit} (h : Reads ws r) (h' : Reads ws r') : r = r' := by
  match r, r', h, h' with
  | none, none, _, _ => rfl
  | some .it, some .it, _, _ => rfl
  | some (.numbered k), some (.numbered j), h, h' => rw [Nat.le_antisymm (h'.2 k h.1) (h.2 j h'.1)]
  | some (.numbered k), some .it, h, h' => exact absurd h.1 (h'.1 k)
  | some (.numbered k), none, h, h' => exact absurd h.1 (h'.1 k)
  | some .it, some (.numbered k), h, h' => exact absurd h'.1 (h.1 k)
  | none, some (.numbered k), h, h' => exact absurd h'.1 (h.1 k)
  | some .it, none, h, h' =>
      obtain ⟨w, hw, hit⟩ := h.2
      exact absurd hit (h'.2 w hw)
  | none, some .it, h, h' =>
      obtain ⟨w, hw, hit⟩ := h'.2
      exact absurd hit (h.2 w hw)

theorem implicitParameter_eq (body : Option Node) :
    implicitParameter body = (searchFrom 0 false body.toList).map verdict := by
  rw [implicitParameter]
  cases searchFrom 0 false body.toList <;> rfl

/-- The implicit parameter of a body is what the nodes that it owns read: the highest numbered parameter, else
`it`, else none. Whichever waiting node a search visits next, that is what it ends in. -/
theorem implicitParameter_reads_owned {body : Option Node} (h : ∀ v ∈ body, AllLegible v) :
    ∃ implicit, implicitParameter body = .ok implicit ∧
      (∀ r, Reads (body.toList.flatMap owned) r ↔ r = implicit) ∧
      ∀ out, Visits 0 false body.toList out → out.map verdict = .ok implicit := by
  have hlegible : ∀ v ∈ body.toList, AllLegible v := fun v hv => h v (Option.mem_toList.mp hv)
  have hout : ∀ out, Visits 0 false body.toList out → out.map verdict = .ok (verdict
      (highestIn (body.toList.flatMap owned), (body.toList.flatMap owned).any isItRead)) := by
    intro out hvisits
    rw [hvisits.eq hlegible, Nat.zero_max, Bool.false_or]
    rfl
  have hreads := reads_verdict (body.toList.flatMap owned)
  refine ⟨_, ?_, fun r => ⟨fun hr => reads_unique hr hreads, ?_⟩, hout⟩
  · rw [implicitParameter_eq]
    exact hout _ (visits_searchFrom 0 false body.toList)
  · rintro rfl
    exact hreads

/-- A name read as a variable. -/
def variableNode (name : String) : Node := ⟨"lvar", [.text name], {}⟩

/-- A block with one statement on a call. -/
def blockOn (call body : Node) : Node := ⟨"block", [call.toValue, .node "args" [] {}, body.toValue], {}⟩

theorem allLegible_variableNode (name : String) : AllLegible (variableNode name) :=
  allLegible_iff.mpr ⟨legible_of_name rfl rfl, List.forall_mem_nil _⟩

theorem allLegible_blockOn {call body : Node} (hcall : AllLegible call) (hbody : AllLegible body)
    (hne : call.children ≠ []) : AllLegible (blockOn call body) := by
  have hargs : AllLegible ⟨"args", [], {}⟩ :=
    allLegible_iff.mpr ⟨legible_of_kind (by decide) (by decide), List.forall_mem_nil _⟩
  refine allLegible_iff.mpr ⟨legible_of_first (by simp [blockOn]) rfl ?_, ?_⟩
  · rintro _ ⟨⟩
    exact hne
  · show ∀ c ∈ [call, ⟨"args", [], {}⟩, body], AllLegible c
    simpa using ⟨hcall, hargs, hbody⟩

/-- A block on a call with an argument, on a block on a call. -/
def chainedBlock : Node :=
  blockOn ⟨"send", [(blockOn ⟨"send", [(variableNode "_3").toValue, .text "each"], {}⟩ (variableNode "_9")).toValue,
    .text "with", (variableNode "_1").toValue], {}⟩ (variableNode "_8")

/-- A body with blocks on each other and a variable beside them. -/
def chainedBody : Node := ⟨"begin", [chainedBlock.toValue, (variableNode "_2").toValue], {}⟩

theorem allLegible_chainedBody : AllLegible chainedBody := by
  have hvariable := fun name => List.forall_mem_singleton.mpr (allLegible_variableNode name)
  have hinner : AllLegible (blockOn ⟨"send", [(variableNode "_3").toValue, .text "each"], {}⟩ (variableNode "_9")) :=
    allLegible_blockOn (allLegible_of_plain (by decide) (by decide) rfl (hvariable "_3"))
      (allLegible_variableNode _) (by simp)
  have hcall : AllLegible ⟨"send", [(blockOn ⟨"send", [(variableNode "_3").toValue, .text "each"], {}⟩
      (variableNode "_9")).toValue, .text "with", (variableNode "_1").toValue], {}⟩ :=
    allLegible_of_plain (by decide) (by decide) rfl (List.forall_mem_cons.mpr ⟨hinner, hvariable "_1"⟩)
  exact allLegible_of_plain (by decide) (by decide) rfl (List.forall_mem_cons.mpr
    ⟨allLegible_blockOn hcall (allLegible_variableNode _) (by simp), hvariable "_2"⟩)

theorem implicitParameter_reads_owned_chained : (∀ v ∈ some chainedBody, AllLegible v) ∧
    ∃ implicit, implicitParameter (some chainedBody) = .ok implicit ∧ implicit = some (.numbered 3) ∧
      (∀ r, Reads ((some chainedBody).toList.flatMap owned) r ↔ r = implicit) ∧
      ∀ out, Visits 0 false (some chainedBody).toList out → out.map verdict = .ok implicit := by
  have hlegible : ∀ v ∈ some chainedBody, AllLegible v := by
    rintro _ ⟨⟩
    exact allLegible_chainedBody
  obtain ⟨implicit, himplicit, hreads, hvisits⟩ := implicitParameter_reads_owned hlegible
  refine ⟨hlegible, implicit, himplicit, ?_, hreads, hvisits⟩
  have hvalue : (implicitParameter (some chainedBody)).toOption = some (some (.numbered 3)) := by decide +kernel
  rw [toOption_eq_some, himplicit] at hvalue
  exact Except.ok.inj hvalue

end IdiomLint.Ruby
