import IdiomLint.Pattern.Match
import IdiomLint.Proofs.Pattern.Built

/-!
# The matcher computes the meaning of patterns

`Pattern.run` writes captures into one growing table and leaves what it has written there when it fails;
`Pattern.meaning` has no table. The invariant that ties them together is `Follows`: a run that succeeds
has put exactly the captured parts behind the entries it found, and a run that fails promises nothing
about its table. It is kept because the names an accepted pattern captures are all different, so that every
write finds its name unused (`Accepted.run_follows`). Main statement: on built patterns matching is the meaning,
and the captured parts have different names (`match?_eq_meaning`).
-/

namespace IdiomLint

namespace Bindings

/-! ## Writing under unused names -/

/-- The names that a table holds parts under, in its order. -/
def names (b : Bindings) : List String := b.map Prod.fst

@[simp] theorem names_nil : names [] = [] := rfl

@[simp] theorem names_cons (entry : String × Value) (b : Bindings) :
    names (entry :: b) = entry.1 :: b.names := rfl

@[simp] theorem names_append (a b : Bindings) : names (a ++ b) = a.names ++ b.names := by
  simp [names]

/-- A name that is not yet used is bound at the end. -/
theorem set_of_notMem {b : Bindings} {name : String} (h : name ∉ b.names) (v : Value) :
    b.set name v = b ++ [(name, v)] := by
  have hany : (b.any fun entry => entry.1 == name) = false := by
    rw [List.any_eq_false]
    intro entry hentry heq
    exact h (List.mem_map.mpr ⟨entry, hentry, beq_iff_eq.mp heq⟩)
  simp [set, hany]

/-- A table with other names is taken over behind the entries that are there. -/
theorem update_of_nodup {entries : Bindings} :
    ∀ {b : Bindings}, entries.names.Nodup → (∀ n ∈ entries.names, n ∉ b.names) →
      b.update entries = b ++ entries := by
  induction entries with
  | nil => intro b _ _; simp [update]
  | cons entry entries ih =>
      intro b hnodup hfresh
      rw [names_cons, List.nodup_cons] at hnodup
      have hset := set_of_notMem (hfresh entry.1 (by simp)) entry.2
      have hrest : ∀ n ∈ names entries, n ∉ names (b ++ [entry]) := by
        intro n hn hmem
        rw [names_append, List.mem_append] at hmem
        rcases hmem with hmem | hmem
        · exact hfresh n (by simp [hn]) hmem
        · rw [List.mem_singleton.mp hmem] at hn
          exact hnodup.1 hn
      have htail := ih hnodup.2 hrest
      rw [update] at htail ⊢
      rw [List.foldl_cons, hset, htail, List.append_assoc, List.singleton_append]

end Bindings

namespace Pattern

/-! ## Children, and a `rest` at the end -/

theorem isRest_iff {p : Pattern} : p.isRest = true ↔ p = .rest ∨ ∃ name, p = .capture name .rest := by
  constructor
  · intro h
    match p, h with
    | .rest, _ => exact Or.inl rfl
    | .capture name .rest, _ => exact Or.inr ⟨name, rfl⟩
  · rintro (rfl | ⟨name, rfl⟩) <;> rfl

/-- The pattern is a `rest` that ends the children. -/
def EndsInRest (p : Pattern) (ps : List Pattern) : Prop := p.isRest = true ∧ ps = []

theorem meaningChildren_rest (vs : List Value) : meaningChildren [.rest] vs = some [] := by
  simp [meaningChildren.eq_def, isRest]

theorem meaningChildren_captured_rest (name : String) (vs : List Value) :
    meaningChildren [.capture name .rest] vs = some [(name, .tuple vs)] := by
  simp [meaningChildren.eq_def, isRest]

theorem meaningChildren_cons_nil {p : Pattern} {ps : List Pattern} (h : ¬ EndsInRest p ps) :
    meaningChildren (p :: ps) [] = none := by
  rw [EndsInRest, ← List.isEmpty_iff, ← Bool.and_eq_true] at h
  rw [meaningChildren.eq_def]
  exact if_neg h

theorem meaningChildren_cons_cons {p : Pattern} {ps : List Pattern} (h : ¬ EndsInRest p ps)
    (v : Value) (vs : List Value) :
    meaningChildren (p :: ps) (v :: vs) =
      (meaning p v).bind fun head => (meaningChildren ps vs).map (head ++ ·) := by
  rw [EndsInRest, ← List.isEmpty_iff, ← Bool.and_eq_true] at h
  rw [meaningChildren.eq_def]
  simp only [Option.map_eq_bind, Function.comp_def]
  exact if_neg h

theorem runChildren_rest (vs : List Value) (table : Bindings) :
    runChildren [.rest] vs table = (true, table) := by
  simp [runChildren.eq_def, isRest]

theorem runChildren_captured_rest (name : String) (vs : List Value) (table : Bindings) :
    runChildren [.capture name .rest] vs table = (true, table.set name (.tuple vs)) := by
  simp [runChildren.eq_def, isRest]

theorem runChildren_cons_nil {p : Pattern} {ps : List Pattern} (h : ¬ EndsInRest p ps)
    (table : Bindings) : runChildren (p :: ps) [] table = (false, table) := by
  rw [EndsInRest, ← List.isEmpty_iff, ← Bool.and_eq_true] at h
  rw [runChildren.eq_def]
  exact if_neg h

theorem runChildren_cons_cons {p : Pattern} {ps : List Pattern} (h : ¬ EndsInRest p ps)
    (v : Value) (vs : List Value) (table : Bindings) :
    runChildren (p :: ps) (v :: vs) table =
      if (run p v table).1 then runChildren ps vs (run p v table).2
      else (false, (run p v table).2) := by
  rw [EndsInRest, ← List.isEmpty_iff, ← Bool.and_eq_true] at h
  rw [runChildren.eq_def]
  apply (if_neg h).trans
  rcases hrun : run p v table with ⟨_ | _, written⟩
  · simp [hrun]
  · simp [hrun]

/-! ## What the meaning captures -/

/-- The meaning of several alternatives is the meaning of one of them. -/
theorem exists_of_meaningFirst {ps : List Pattern} {v : Value} {found : Bindings}
    (h : meaningFirst ps v = some found) : ∃ p ∈ ps, meaning p v = some found := by
  induction ps with
  | nil => simp [meaningFirst] at h
  | cons p ps ih =>
      rw [meaningFirst] at h
      cases hp : meaning p v with
      | some first =>
          rw [hp, Option.some_or] at h
          exact ⟨p, by simp, h ▸ hp⟩
      | none =>
          rw [hp, Option.none_or] at h
          obtain ⟨q, hq, hfound⟩ := ih h
          exact ⟨q, by simp [hq], hfound⟩

/-- The captured parts have different names, and these are the given ones. -/
def HasSlots (found : Bindings) (slots : List String) : Prop :=
  found.names.Nodup ∧ ∀ n, n ∈ found.names ↔ n ∈ slots

/-- Children capture what each of them captures, or the remaining ones under the name of a `rest`. -/
theorem hasSlots_meaningChildren {ps : List Pattern}
    (hslots : ∀ p ∈ ps, ∀ v found, meaning p v = some found → HasSlots found p.captureNames) :
    ∀ {vs : List Value} {found : Bindings}, (captureNamesAll ps).Nodup →
      meaningChildren ps vs = some found → HasSlots found (captureNamesAll ps) := by
  induction ps with
  | nil =>
      intro vs found _ h
      cases vs with
      | nil =>
          rw [meaningChildren, Option.some.injEq] at h
          subst h
          simp [HasSlots, captureNamesAll]
      | cons v vs => simp [meaningChildren] at h
  | cons p ps ih =>
      intro vs found hnodup h
      by_cases hlast : EndsInRest p ps
      -- Only a `rest` that ends the children takes what is left of the values.
      · obtain ⟨hp, rfl⟩ := hlast
        rcases isRest_iff.mp hp with rfl | ⟨name, rfl⟩
        · rw [meaningChildren_rest, Option.some.injEq] at h
          subst h
          simp [HasSlots, captureNamesAll, captureNames]
        · rw [meaningChildren_captured_rest, Option.some.injEq] at h
          subst h
          simp [HasSlots, captureNamesAll, captureNames]
      · rw [captureNamesAll, List.nodup_append] at hnodup
        obtain ⟨_, htail, hdisjoint⟩ := hnodup
        cases vs with
        | nil =>
            rw [meaningChildren_cons_nil hlast] at h
            simp at h
        | cons v vs =>
            rw [meaningChildren_cons_cons hlast, Option.bind_eq_some_iff] at h
            obtain ⟨head, hhead, h⟩ := h
            obtain ⟨tail, htailFound, rfl⟩ := Option.map_eq_some_iff.mp h
            have h1 := hslots p (by simp) v head hhead
            have h2 := ih (fun q hq => hslots q (by simp [hq])) htail htailFound
            refine ⟨?_, ?_⟩
            · rw [Bindings.names_append, List.nodup_append]
              exact ⟨h1.1, h2.1, fun a ha b hb =>
                hdisjoint a ((h1.2 a).mp ha) b ((h2.2 b).mp hb)⟩
            · intro n
              rw [Bindings.names_append, captureNamesAll, List.mem_append, List.mem_append, h1.2 n,
                h2.2 n]

/-- What an accepted pattern captures of a value has different names, and these are the names that the
pattern captures, whichever alternatives matched. -/
theorem Accepted.hasSlots {p : Pattern} (hp : Accepted p) :
    ∀ (v : Value) (found : Bindings), meaning p v = some found → HasSlots found p.captureNames := by
  induction hp with
  | any =>
      intro v found h
      rw [meaning, Option.some.injEq] at h
      subst h
      simp [HasSlots, captureNames]
  | rest =>
      intro v found h
      rw [meaning, Option.some.injEq] at h
      subst h
      simp [HasSlots, captureNames]
  | value w =>
      intro v found h
      rw [meaning, Option.ite_none_right_eq_some, Option.some.injEq] at h
      rw [← h.2]
      simp [HasSlots, captureNames]
  | never =>
      intro v found h
      simp [meaning] at h
  | ref name target =>
      intro v found h
      rw [meaning, Option.map_eq_some_iff] at h
      obtain ⟨_, _, rfl⟩ := h
      simp [HasSlots, captureNames]
  | @capture name inner p hinner hmk ih =>
      intro v found h
      obtain ⟨hname, rfl⟩ := mkCapture_eq_ok.mp hmk
      rw [meaning, Option.map_eq_some_iff] at h
      obtain ⟨parts, hparts, rfl⟩ := h
      obtain ⟨hnodup, hslots⟩ := ih v parts hparts
      refine ⟨?_, ?_⟩
      · rw [Bindings.names_append, List.nodup_append]
        refine ⟨hnodup, by simp, ?_⟩
        rintro a ha b hb rfl
        have heq : a = name := List.mem_singleton.mp hb
        exact hname (heq ▸ (hslots a).mp ha)
      · intro n
        rw [Bindings.names_append, captureNames, List.mem_append, List.mem_cons, hslots n]
        simp [or_comm]
  | @node kind children p _ hmk ih =>
      intro v found h
      obtain ⟨_, hnodup, rfl⟩ := mkNode_eq_ok.mp hmk
      cases v with
      | node k vs layout =>
          rw [meaning, Option.ite_none_right_eq_some] at h
          exact hasSlots_meaningChildren ih hnodup h.2
      | _ => simp [meaning] at h
  | oneOf _ hmk ih =>
      intro v found h
      obtain ⟨first, others, rfl, rfl, hall⟩ := mkOneOf_eq_ok.mp hmk
      rw [meaning] at h
      obtain ⟨q, hq, hfound⟩ := exists_of_meaningFirst h
      obtain ⟨hnodup, hslots⟩ := ih q hq v found hfound
      refine ⟨hnodup, fun n => ?_⟩
      rw [hslots n, (hall q hq).2 n, captureNames]

/-! ## Whether a run succeeds -/

mutual

/-- A run succeeds exactly on the values of the right shape, whatever is captured and whatever the table
holds. -/
theorem run_fst (p : Pattern) (v : Value) (table : Bindings) :
    (run p v table).1 = (meaning p v).isSome := by
  match p with
  | .any => simp [run, meaning]
  | .rest => simp [run, meaning]
  | .never => simp [run, meaning]
  | .value w =>
      rw [run, meaning]
      cases Value.sameSort v w && Value.same v w <;> rfl
  | .ref _ target => rw [run, meaning, Option.isSome_map, run_fst target v []]
  | .capture name inner =>
      have hinner := run_fst inner v table
      rw [run, meaning, Option.isSome_map, ← hinner]
      split <;> simp_all
  | .node kind children =>
      match v with
      | .node k vs layout =>
          rw [run, meaning]
          split
          · exact runChildren_fst children vs table
          · rfl
      | .nil | .bool _ | .int _ | .float _ | .text _ | .tuple _ => simp [run, meaning]
  | .oneOf alternatives => rw [run, meaning, runAlternatives_fst alternatives v table]

theorem runChildren_fst (ps : List Pattern) (vs : List Value) (table : Bindings) :
    (runChildren ps vs table).1 = (meaningChildren ps vs).isSome := by
  match ps with
  | [] => cases vs <;> simp [runChildren, meaningChildren]
  | p :: ps =>
      by_cases hlast : EndsInRest p ps
      · obtain ⟨hp, rfl⟩ := hlast
        rcases isRest_iff.mp hp with rfl | ⟨name, rfl⟩
        · rw [runChildren_rest, meaningChildren_rest]
          rfl
        · rw [runChildren_captured_rest, meaningChildren_captured_rest]
          rfl
      · cases vs with
        | nil =>
            rw [runChildren_cons_nil hlast, meaningChildren_cons_nil hlast]
            rfl
        | cons v vs =>
            have hp := run_fst p v table
            rw [runChildren_cons_cons hlast, meaningChildren_cons_cons hlast, hp]
            cases meaning p v with
            | none => rfl
            | some head =>
                rw [Option.bind_some, Option.isSome_map, Option.isSome_some, if_pos rfl]
                exact runChildren_fst ps vs _

theorem runAlternatives_fst (ps : List Pattern) (v : Value) (table : Bindings) :
    (runAlternatives ps v table).1 = (meaningFirst ps v).isSome := by
  match ps with
  | [] => simp [runAlternatives, meaningFirst]
  | p :: ps =>
      have hp := run_fst p v []
      have hps := runAlternatives_fst ps v table
      rw [runAlternatives, meaningFirst, Option.isSome_or, ← hp, ← hps]
      split <;> simp_all

end

/-! ## The frame of a run -/

/-- A run that began with `table` follows the meaning: if there is one, the run succeeds and has put the
captured parts behind the table, which is otherwise as it was; if there is none, the run fails, and
nothing is said about what it wrote before. -/
def Follows (table : Bindings) (outcome : Bool × Bindings) : Option Bindings → Prop
  | some found => outcome = (true, table ++ found)
  | none => outcome.1 = false

theorem follows_some {table found : Bindings} {outcome : Bool × Bindings} :
    Follows table outcome (some found) ↔ outcome = (true, table ++ found) := Iff.rfl

theorem Follows.eq_failed {table : Bindings} {outcome : Bool × Bindings}
    (h : Follows table outcome none) : outcome = (false, outcome.2) := Prod.ext h rfl

/-- What follows a meaning behind some captured parts follows the meaning with them in front. -/
theorem Follows.append {table head : Bindings} {outcome : Bool × Bindings} {m : Option Bindings}
    (h : Follows (table ++ head) outcome m) : Follows table outcome (m.map (head ++ ·)) := by
  cases m with
  | none => exact h
  | some tail =>
      rw [follows_some] at h
      rw [Option.map_some, follows_some, h, List.append_assoc]

/-- No name of the list is used in the table. -/
def Unused (slots : List String) (table : Bindings) : Prop := ∀ n ∈ slots, n ∉ table.names

theorem unused_nil (slots : List String) : Unused slots [] := by
  intro n _
  simp

/-- Children matched one after the other follow the meaning if each of them does: what an earlier one
wrote has other names than what a later one writes. -/
theorem runChildren_follows {ps : List Pattern}
    (hslots : ∀ p ∈ ps, ∀ v found, meaning p v = some found → HasSlots found p.captureNames)
    (hrun : ∀ p ∈ ps, ∀ v table, Unused p.captureNames table →
      Follows table (run p v table) (meaning p v)) :
    ∀ (vs : List Value) (table : Bindings), (captureNamesAll ps).Nodup →
      Unused (captureNamesAll ps) table →
        Follows table (runChildren ps vs table) (meaningChildren ps vs) := by
  induction ps with
  | nil =>
      intro vs table _ _
      cases vs with
      | nil => simp [runChildren, meaningChildren, Follows]
      | cons v vs => simp [runChildren, meaningChildren, Follows]
  | cons p ps ih =>
      intro vs table hnodup hunused
      have hhead : Unused p.captureNames table := fun n hn =>
        hunused n (by simp [captureNamesAll, hn])
      by_cases hlast : EndsInRest p ps
      · obtain ⟨hp, rfl⟩ := hlast
        rcases isRest_iff.mp hp with rfl | ⟨name, rfl⟩
        · rw [runChildren_rest, meaningChildren_rest]
          simp [Follows]
        · have hname : name ∉ table.names := hhead name (by simp [captureNames])
          rw [runChildren_captured_rest, meaningChildren_captured_rest]
          simp [Follows, Bindings.set_of_notMem hname]
      · rw [captureNamesAll, List.nodup_append] at hnodup
        obtain ⟨_, htail, hdisjoint⟩ := hnodup
        cases vs with
        | nil =>
            rw [runChildren_cons_nil hlast, meaningChildren_cons_nil hlast]
            rfl
        | cons v vs =>
            rw [runChildren_cons_cons hlast, meaningChildren_cons_cons hlast]
            have hp := hrun p (by simp) v table hhead
            cases hm : meaning p v with
            | none =>
                rw [hm] at hp
                rw [hp.eq_failed]
                rfl
            | some head =>
                rw [hm, follows_some] at hp
                have hcaptured := (hslots p (by simp) v head hm).2
                -- The head has written its own names, which differ from those of the children to come.
                have hrest : Unused (captureNamesAll ps) (table ++ head) := by
                  intro n hn hmem
                  rw [Bindings.names_append, List.mem_append] at hmem
                  rcases hmem with hmem | hmem
                  · exact hunused n (by simp [captureNamesAll, hn]) hmem
                  · exact hdisjoint n ((hcaptured n).mp hmem) n hn rfl
                have hps := ih (fun q hq => hslots q (by simp [hq]))
                  (fun q hq => hrun q (by simp [hq])) vs (table ++ head) htail hrest
                rw [hp]
                exact hps.append

/-- Alternatives tried one after the other follow the meaning if each of them does: a failed one leaves
nothing behind, as it had a table of its own. -/
theorem runAlternatives_follows {ps : List Pattern} {slots : List String}
    (hslots : ∀ p ∈ ps, ∀ v found, meaning p v = some found → HasSlots found slots)
    (hrun : ∀ p ∈ ps, ∀ v, Follows [] (run p v []) (meaning p v)) (v : Value)
    {table : Bindings} (hunused : Unused slots table) :
    Follows table (runAlternatives ps v table) (meaningFirst ps v) := by
  induction ps with
  | nil => simp [runAlternatives, meaningFirst, Follows]
  | cons p ps ih =>
      have hp := hrun p (by simp) v
      rw [runAlternatives, meaningFirst]
      cases hm : meaning p v with
      | none =>
          rw [hm] at hp
          rw [hp.eq_failed]
          exact ih (fun q hq => hslots q (by simp [hq])) (fun q hq => hrun q (by simp [hq]))
      | some found =>
          rw [hm, follows_some, List.nil_append] at hp
          obtain ⟨hnodup, hnames⟩ := hslots p (by simp) v found hm
          have hfresh : ∀ n ∈ found.names, n ∉ table.names := fun n hn =>
            hunused n ((hnames n).mp hn)
          simp [hp, Follows, Bindings.update_of_nodup hnodup hfresh]

/-- The run of an accepted pattern follows its meaning, from every table that uses none of its names. -/
theorem Accepted.run_follows {p : Pattern} (hp : Accepted p) :
    ∀ (v : Value) (table : Bindings), Unused p.captureNames table →
      Follows table (run p v table) (meaning p v) := by
  induction hp with
  | any => intro v table _; simp [run, meaning, Follows]
  | rest => intro v table _; simp [run, meaning, Follows]
  | value w =>
      intro v table _
      rw [run, meaning]
      cases Value.sameSort v w && Value.same v w with
      | true => simp [Follows]
      | false => simp [Follows]
  | never => intro v table _; simp [run, meaning, Follows]
  | ref name target =>
      intro v table _
      -- The target writes into a table of its own, of which nothing is kept.
      have htry := run_fst target v []
      rw [run, meaning, htry]
      cases meaning target v <;> simp [Follows]
  | @capture name inner p hinner hmk ih =>
      intro v table hunused
      obtain ⟨hname, rfl⟩ := mkCapture_eq_ok.mp hmk
      have hinside := ih v table fun n hn => hunused n (by simp [captureNames, hn])
      rw [run, meaning]
      cases hm : meaning inner v with
      | none =>
          rw [hm] at hinside
          rw [hinside.eq_failed]
          rfl
      | some found =>
          rw [hm, follows_some] at hinside
          have hcaptured := (hinner.hasSlots v found hm).2
          -- The name is free at the end too: the inner pattern does not capture it.
          have hfree : name ∉ Bindings.names (table ++ found) := by
            rw [Bindings.names_append, List.mem_append, not_or]
            exact ⟨hunused name (by simp [captureNames]), fun h => hname ((hcaptured name).mp h)⟩
          simp [hinside, Follows, Bindings.set_of_notMem hfree]
  | @node kind children p hchildren hmk ih =>
      intro v table hunused
      obtain ⟨_, hnodup, rfl⟩ := mkNode_eq_ok.mp hmk
      match v with
      | .node k vs layout =>
          rw [run, meaning]
          split
          · exact runChildren_follows (fun c hc => (hchildren c hc).hasSlots) ih vs table hnodup
              hunused
          · rfl
      | .nil | .bool _ | .int _ | .float _ | .text _ | .tuple _ => simp [run, meaning, Follows]
  | @oneOf alternatives p hall hmk ih =>
      intro v table hunused
      obtain ⟨first, others, rfl, rfl, hsame⟩ := mkOneOf_eq_ok.mp hmk
      rw [run, meaning]
      -- Whichever alternative matches, the names are those of the first one.
      have hslots : ∀ q ∈ first :: others, ∀ w found, meaning q w = some found →
          HasSlots found first.captureNames := by
        intro q hq w found hfound
        obtain ⟨hnodup, hnames⟩ := (hall q hq).hasSlots w found hfound
        exact ⟨hnodup, fun n => (hnames n).trans ((hsame q hq).2 n)⟩
      refine runAlternatives_follows hslots ?_ v ?_
      · intro q hq w
        exact ih q hq w [] (unused_nil _)
      · intro n hn
        exact hunused n (by rw [captureNames]; exact hn)

/-! ## Matching is the meaning -/

/-- Matching begins with an empty table, so that nothing but the captured parts is in it at the end. -/
theorem Accepted.match?_eq {p : Pattern} (hp : Accepted p) (v : Value) :
    p.match? v = p.meaning v := by
  have hrun := hp.run_follows v [] (unused_nil _)
  unfold match?
  cases hm : p.meaning v with
  | none =>
      rw [hm] at hrun
      rw [hrun.eq_failed]
  | some found =>
      rw [hm, follows_some, List.nil_append] at hrun
      rw [hrun]

/-- Matching a value against a built pattern gives exactly what the pattern means: the same captured
parts if the value has its shape, each under a name of its own, and nothing otherwise. -/
theorem match?_eq_meaning {p : Pattern} (hp : Built p) (v : Value) :
    p.match? v = p.meaning v ∧ ∀ found, p.match? v = some found → found.names.Nodup := by
  refine ⟨hp.accepted.match?_eq v, ?_⟩
  intro found hfound
  rw [hp.accepted.match?_eq v] at hfound
  exact (hp.accepted.hasSlots v found hfound).1

/-- Two alternatives for a pair. On `(pair :a 2)` the first one binds `key` to the name before it fails
at the number; what counts is the binding of the second one. -/
def keyPattern : Pattern :=
  .oneOf [.node "pair" [.capture "key" .any, .value (.int 1)],
    .node "pair" [.any, .capture "key" .any]]

theorem built_keyPattern : Built keyPattern := by
  refine .oneOf ?_ (mkOneOf_eq_ok.mpr ⟨_, _, rfl, rfl, ?_⟩)
  · intro a ha
    simp only [List.mem_cons, List.not_mem_nil, or_false] at ha
    have hkey : Built (.capture "key" .any) := .capture .any rfl
    rcases ha with rfl | rfl
    · refine .node ?_ (rfl : mkNode "pair" [.capture "key" .any, .value (.int 1)] = .ok _)
      simp [hkey, Built.value]
    · refine .node ?_ (rfl : mkNode "pair" [.any, .capture "key" .any] = .ok _)
      simp [hkey, Built.any]
  · simp [isRest, captureNames, captureNamesAll]

theorem match?_keyPattern :
    Built keyPattern ∧
      keyPattern.match? (.node "pair" [.text "a", .int 2] {}) = some [("key", .int 2)] := by
  refine ⟨built_keyPattern, ?_⟩
  rw [(match?_eq_meaning built_keyPattern _).1]
  rfl

end Pattern

end IdiomLint
