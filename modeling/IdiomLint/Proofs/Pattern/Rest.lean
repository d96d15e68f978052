import IdiomLint.Proofs.Pattern.Grammar
import IdiomLint.Proofs.Pattern.Matching

/-!
# Where a `rest` stands under its captures

A `rest` and a `rest` under one capture stand for the remaining children of a node. They end the children and
are no alternatives, and all the children that the patterns before them leave go to them
(`Accepted.match?_append_rest`). The constructors and the matcher look through one capture only. Under two or
more a `rest` may stand anywhere and matches one child, as if it were no `rest` (`match?_under_rest`). Main
statement: `rest_stands`.
-/

namespace IdiomLint.Pattern

/-- A pattern under captures, the first name being the outermost. -/
def under (names : List String) (p : Pattern) : Pattern := names.foldr capture p

@[simp] theorem under_nil (p : Pattern) : under [] p = p := rfl

@[simp] theorem under_cons (name : String) (names : List String) (p : Pattern) :
    under (name :: names) p = .capture name (under names p) := rfl

/-- The checks look through one capture. -/
theorem isRest_under_rest {names : List String} : (under names .rest).isRest = true ↔ names.length ≤ 1 := by
  match names with
  | [] => exact iff_of_true rfl (Nat.zero_le 1)
  | [name] => exact iff_of_true rfl (Nat.le_refl 1)
  | first :: second :: names => simp [isRest]

theorem not_isRest_under_rest {names : List String} (h : 2 ≤ names.length) : (under names .rest).isRest = false := by
  rw [← Bool.not_eq_true, isRest_under_rest]
  omega

theorem isRest_under_any {names : List String} : (under names .any).isRest = false := by
  match names with
  | [] => rfl
  | [name] => rfl
  | first :: second :: names => rfl

theorem not_endsInRest {p : Pattern} (h : p.isRest = false) (ps : List Pattern) : ¬ EndsInRest p ps :=
  fun hends => absurd (h.symm.trans hends.1) Bool.false_ne_true

/-! ## Where a part of a pattern stands -/

/-- The first pattern is a child of a node or an alternative in the second one. -/
inductive Placed (q p : Pattern) : Prop
  | child {kind : String} {children : List Pattern} : Occurs (.node kind children) p → q ∈ children → Placed q p
  | alternative {alternatives : List Pattern} : Occurs (.oneOf alternatives) p → q ∈ alternatives → Placed q p

theorem Placed.mono {p p' q : Pattern} (h : Placed q p) (hpart : ∀ r, Occurs r p → Occurs r p') : Placed q p' := by
  cases h with
  | child hnode hmem => exact .child (hpart _ hnode) hmem
  | alternative honeOf hmem => exact .alternative (hpart _ honeOf) hmem

/-- Under its captures a part is the whole pattern, a child of a node or an alternative. -/
theorem Occurs.exists_under {p q : Pattern} (h : Occurs q p) :
    ∃ names, p = under names q ∨ Placed (under names q) p := by
  induction h with
  | whole => exact ⟨[], Or.inl rfl⟩
  | @inside _ name _ ih =>
      obtain ⟨names, rfl | hplaced⟩ := ih
      · exact ⟨name :: names, Or.inl rfl⟩
      · exact ⟨names, Or.inr (hplaced.mono fun _ => .inside)⟩
  | child hc _ ih =>
      obtain ⟨names, rfl | hplaced⟩ := ih
      · exact ⟨names, Or.inr (.child .whole hc)⟩
      · exact ⟨names, Or.inr (hplaced.mono fun _ => .child hc)⟩
  | alternative ha _ ih =>
      obtain ⟨names, rfl | hplaced⟩ := ih
      · exact ⟨names, Or.inr (.alternative .whole ha)⟩
      · exact ⟨names, Or.inr (hplaced.mono fun _ => .alternative ha)⟩

/-- What the checks take for a `rest` has no children after it. -/
theorem Coherent.eq_nil_of_isRest {p c : Pattern} {kind : String} {front back : List Pattern} (hp : Coherent p)
    (h : Occurs (.node kind (front ++ c :: back)) p) (hc : c.isRest = true) : back = [] := by
  by_contra hback
  have hmem : c ∈ (front ++ c :: back).dropLast := by
    rw [List.dropLast_append_of_ne_nil (List.cons_ne_nil c back), List.dropLast_cons_of_ne_nil hback]
    exact List.mem_append_right _ List.mem_cons_self
  have hnone := hp.restLast kind _ h c hmem
  exact absurd (hc.symm.trans hnone) (by decide)

/-! ## At most one capture: the remaining children -/

theorem meaningChildren_under_rest {names : List String} (h : names.length ≤ 1) (vs : List Value) :
    meaningChildren [under names .rest] vs = some (names.map fun n => (n, .tuple vs)) := by
  match names, h with
  | [], _ => exact meaningChildren_rest vs
  | [name], _ => exact meaningChildren_captured_rest name vs

/-- Children that a `rest` ends are those that the patterns before it match, and however many more. -/
theorem meaningChildren_append_rest {names : List String} {front : List Pattern} (h : names.length ≤ 1)
    (hfront : ∀ c ∈ front, c.isRest = false) : ∀ vs, meaningChildren (front ++ [under names .rest]) vs =
      (meaningChildren front (vs.take front.length)).map
        (· ++ names.map fun n => (n, .tuple (vs.drop front.length))) := by
  induction front with
  | nil =>
      intro vs
      rw [List.nil_append, meaningChildren_under_rest h, List.length_nil, List.take_zero, List.drop_zero,
        meaningChildren, Option.map_some, List.nil_append]
  | cons c front ih =>
      intro vs
      obtain ⟨hc, hfront⟩ := List.forall_mem_cons.mp hfront
      have hends := not_endsInRest hc
      rw [List.cons_append, List.length_cons]
      cases vs with
      | nil =>
          rw [List.take_nil, meaningChildren_cons_nil (hends _), meaningChildren_cons_nil (hends _),
            Option.map_none]
      | cons v vs =>
          rw [List.take_succ_cons, List.drop_succ_cons, meaningChildren_cons_cons (hends _),
            meaningChildren_cons_cons (hends _), ih hfront, Option.map_bind]
          simp only [Option.map_map, Function.comp_def, List.append_assoc]

theorem captureNamesAll_eq_flatMap (ps : List Pattern) : captureNamesAll ps = ps.flatMap captureNames := by
  induction ps with
  | nil => rfl
  | cons p ps ih => rw [captureNamesAll, ih, List.flatMap_cons]

/-- The first children of an accepted node make an accepted node without the other ones. -/
theorem Accepted.of_append {kind : String} {front back : List Pattern} (h : Accepted (.node kind (front ++ back)))
    (hfront : ∀ c ∈ front, c.isRest = false) : Accepted (.node kind front) := by
  obtain ⟨hchildren, hmk⟩ := h.of_node
  obtain ⟨_, hnodup, _⟩ := mkNode_eq_ok.mp hmk
  rw [captureNamesAll_eq_flatMap, List.flatMap_append, List.nodup_append] at hnodup
  refine .node (fun c hc => hchildren c (List.mem_append_left _ hc)) (mkNode_eq_ok.mpr ⟨?_, ?_, rfl⟩)
  · exact restBeforeLast_eq_false.mpr fun c hc => hfront c (List.dropLast_subset _ hc)
  · rw [captureNamesAll_eq_flatMap]
    exact hnodup.1

/-- A node that ends in a `rest` matches like its first children, and all that they leave goes to the `rest`. -/
theorem Accepted.match?_append_rest {names : List String} {kind : String} {front : List Pattern}
    (h : Accepted (.node kind (front ++ [under names .rest]))) (hnames : names.length ≤ 1) (vs : List Value)
    (layout : Layout) : (Pattern.node kind (front ++ [under names .rest])).match? (.node kind vs layout) =
      ((Pattern.node kind front).match? (.node kind (vs.take front.length) layout)).map
        (· ++ names.map fun n => (n, .tuple (vs.drop front.length))) := by
  have hfront : ∀ c ∈ front, c.isRest = false := fun c hc =>
    h.coherent.restLast kind _ .whole c (by rwa [List.dropLast_concat])
  rw [h.match?_eq, (h.of_append hfront).match?_eq, meaning, meaning, meaningChildren_append_rest hnames hfront]
  split
  · rfl
  · rfl

/-! ## Several captures: one child -/

/-- By itself a `rest` matches like a pattern for any value. -/
theorem run_under_rest (names : List String) :
    ∀ v table, run (under names .rest) v table = run (under names .any) v table := by
  induction names with
  | nil => exact fun v table => by rw [under_nil, under_nil, run, run]
  | cons name names ih =>
      intro v table
      rw [under_cons, under_cons, run, run, ih]

/-- A child can be put in the place of another one that is matched alike. -/
theorem runChildren_replace {p q : Pattern} (hp : p.isRest = false) (hq : q.isRest = false)
    (hrun : ∀ v table, run p v table = run q v table) (back : List Pattern) (front : List Pattern) :
    ∀ vs table, runChildren (front ++ p :: back) vs table = runChildren (front ++ q :: back) vs table := by
  induction front with
  | nil =>
      intro vs table
      rw [List.nil_append, List.nil_append]
      cases vs with
      | nil => rw [runChildren_cons_nil (not_endsInRest hp _), runChildren_cons_nil (not_endsInRest hq _)]
      | cons v vs =>
          rw [runChildren_cons_cons (not_endsInRest hp _), runChildren_cons_cons (not_endsInRest hq _), hrun]
  | cons c front ih =>
      intro vs table
      have hmore (r : Pattern) : ¬ EndsInRest c (front ++ r :: back) := fun h =>
        List.append_ne_nil_of_right_ne_nil front (List.cons_ne_nil r back) h.2
      rw [List.cons_append, List.cons_append]
      cases vs with
      | nil => rw [runChildren_cons_nil (hmore p), runChildren_cons_nil (hmore q)]
      | cons v vs => rw [runChildren_cons_cons (hmore p), runChildren_cons_cons (hmore q), ih]

/-- Under two captures a `rest` is a child like any other and matches one child. -/
theorem match?_under_rest {names : List String} (h : 2 ≤ names.length) (kind : String) (front back : List Pattern)
    (v : Value) : (node kind (front ++ under names .rest :: back)).match? v =
      (node kind (front ++ under names .any :: back)).match? v := by
  have hchildren := runChildren_replace (not_isRest_under_rest h) isRest_under_any (run_under_rest names) back front
  rw [match?, match?]
  cases v with
  | node k vs layout => rw [run, run, hchildren]
  | nil | bool _ | int _ | float _ | text _ | tuple _ => simp [run]

/-! ## Main statement -/

/-- In a pattern that was read, a `rest` under its captures is the whole pattern, a child of a node or an
alternative. Under at most one capture it is the last child of its node and no alternative, it takes all the
children that the patterns before it leave, and its name is bound to the tuple of them. Under more captures it
matches one child, as a pattern for any value would in its place. -/
theorem rest_stands {s : String} {refs : List (String × Pattern)} {p : Pattern} (h : read s refs = .ok p) :
    (Occurs .rest p → ∃ names, p = under names .rest ∨ Placed (under names .rest) p) ∧
    ∀ names : List String,
      (names.length ≤ 1 →
        (∀ alternatives, Occurs (.oneOf alternatives) p → under names .rest ∉ alternatives) ∧
        ∀ kind front back, Occurs (.node kind (front ++ under names .rest :: back)) p → back = [] ∧
          ∀ vs layout, (node kind (front ++ [under names .rest])).match? (.node kind vs layout) =
            ((node kind front).match? (.node kind (vs.take front.length) layout)).map
              (· ++ names.map fun n => (n, .tuple (vs.drop front.length)))) ∧
      (2 ≤ names.length → ∀ kind front back v, (node kind (front ++ under names .rest :: back)).match? v =
        (node kind (front ++ under names .any :: back)).match? v) := by
  have hp := accepted_of_read h
  refine ⟨Occurs.exists_under, fun names => ⟨fun hnames => ⟨?_, ?_⟩, fun hnames => match?_under_rest hnames⟩⟩
  · intro alternatives honeOf hmem
    have hnone := hp.coherent.restAlternative alternatives honeOf _ hmem
    exact absurd ((isRest_under_rest.mpr hnames).symm.trans hnone) (by decide)
  · intro kind front back hnode
    obtain rfl := hp.coherent.eq_nil_of_isRest hnode (isRest_under_rest.mpr hnames)
    exact ⟨rfl, (hp.of_occurs hnode).match?_append_rest hnames⟩

/-- A call of whatever is called, with all its arguments under a name. -/
def callPattern : Pattern := .node "send" [.any, .capture "args" .rest]

theorem read_callPattern : read "(send _ $args=...)" [] = .ok callPattern := by
  have htokens : Token.tokens "(send _ $args=...)" =
      .ok [.openParen, .word "send", .word "_", .capture (some "args"), .ellipsis, .closeParen] := by
    apply Token.tokens_of_cuts
    refine .front (by decide) rfl (.front (by decide) rfl (.blank (by decide) (.front (by decide) rfl ?_)))
    exact .blank (by decide) (.front (by decide) rfl (.front (by decide) rfl (.front (by decide) rfl Token.cuts_nil)))
  rw [read, htokens]
  rfl

/-- The arguments are bound as a tuple, also if there are none. -/
theorem rest_stands_call : read "(send _ $args=...)" [] = .ok callPattern ∧
    callPattern.match? (.node "send" [.nil, .text "a", .int 1] {}) = some [("args", .tuple [.text "a", .int 1])] ∧
    callPattern.match? (.node "send" [.nil] {}) = some [("args", .tuple [])] := by
  obtain ⟨_, hall⟩ := rest_stands read_callPattern
  obtain ⟨hfew, _⟩ := hall ["args"]
  obtain ⟨_, hmatch⟩ := (hfew (Nat.le_refl 1)).2 "send" [.any] [] .whole
  exact ⟨read_callPattern, hmatch [.nil, .text "a", .int 1] {}, hmatch [.nil] {}⟩

/-- A pair with a `rest` under two captures. -/
def pairPattern : Pattern := .node "pair" [under ["0", "1"] .rest]

/-- The text is read, but its `rest` matches neither no children nor two. A single child is bound under both
names, where the tuple of the remaining children ought to be. -/
theorem twice_captured_rest_matches_one : read "(pair $$...)" [] = .ok pairPattern ∧
    pairPattern.match? (.node "pair" [] {}) = none ∧
    pairPattern.match? (.node "pair" [.int 1] {}) = some [("1", .int 1), ("0", .int 1)] ∧
    pairPattern.match? (.node "pair" [.int 1, .int 2] {}) = none := by
  have htokens : Token.tokens "(pair $$...)" =
      .ok [.openParen, .word "pair", .capture none, .capture none, .ellipsis, .closeParen] := by
    apply Token.tokens_of_cuts
    refine .front (by decide) rfl (.front (by decide) rfl (.blank (by decide) (.front (by decide) rfl ?_)))
    exact .front (by decide) rfl (.front (by decide) rfl (.front (by decide) rfl Token.cuts_nil))
  refine ⟨?_, rfl, rfl, rfl⟩
  rw [read, htokens]
  rfl

end IdiomLint.Pattern
