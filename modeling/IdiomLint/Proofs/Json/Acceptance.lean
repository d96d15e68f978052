import Mathlib.Data.List.Nodup
import IdiomLint.Json.Printer
import IdiomLint.Json.Schema
import IdiomLint.Proofs.Fallible
import IdiomLint.Proofs.Json.RoundTrip

/-!
# Schemas and printed values

What is read back from a value is another value, so that a schema has to be asked about the text: it admits the text
of a value if nothing that is read back violates it (`Schema.AdmitsText`). There is one lemma for each kind of schema,
and a value whose integers can be told is read back (`Json.exists_reread?`).
-/

namespace IdiomLint.Json

/-! ## What is read back -/

theorem isBelow_zero_float {x : Binary64} : Schema.isBelow 0 (.float x) = false ↔
    ¬ (x.isNaN = false ∧ x.negative = true ∧ (x.isFinite = true → x.scale.1 ≠ 0)) := by
  rw [← Binary64.compareInt?_zero_eq_lt]
  exact beq_eq_false_iff_ne

/-- A floating-point number comes back as one, and not below zero if it was not. -/
theorem rereadFloat?_eq_some (x : Binary64) : ∃ y, rereadFloat? x = some (.float y) ∧
    (Schema.isBelow 0 (.float x) = false → Schema.isBelow 0 (.float y) = false) := by
  simp only [isBelow_zero_float]
  rw [rereadFloat?]
  split
  · exact ⟨.nan, rfl, fun _ h => absurd h.1 (by decide)⟩
  · next hnan =>
      rw [Bool.not_eq_true] at hnan
      split
      · next hfinite =>
          obtain ⟨y, hy, hsign, hzero⟩ := Binary64.number?_text hfinite
          refine ⟨y, hy, fun hbelow hback => ?_⟩
          by_cases hm : x.scale.1 = 0
          · have hscale : y.isFinite = true ∧ y.scale.1 = 0 := by
              rw [hzero hm]
              cases x.negative <;> exact ⟨rfl, rfl⟩
            exact hback.2.2 hscale.1 hscale.2
          · have hpositive : x.negative = false := by
              rw [Bool.eq_false_iff]
              exact fun hnegative => hbelow ⟨hnan, hnegative, fun _ => hm⟩
            rw [hsign hpositive] at hback
            exact Bool.false_ne_true hback.2.1
      · next hinfinite =>
          refine ⟨.infinity x.negative, rfl, fun hbelow hback =>
            hbelow ⟨hnan, ?_, fun hfinite => absurd hfinite hinfinite⟩⟩
          have hsign : (Binary64.infinity x.negative).negative = x.negative := by cases x.negative <;> rfl
          exact hsign.symm.trans hback.2.1

mutual

/-- A value is read back if its integers can be told. -/
theorem exists_reread? : ∀ j : Json, j.integersFit = true → ∃ j', reread? j = some j'
  | .null => fun _ => ⟨.null, by rw [reread?]⟩
  | .bool b => fun _ => ⟨.bool b, by rw [reread?]⟩
  | .int n => by
      intro h
      rw [integersFit, decide_eq_true_eq] at h
      exact ⟨.int n, by rw [reread?, if_pos h]⟩
  | .float x => by
      intro _
      obtain ⟨y, hy, _⟩ := rereadFloat?_eq_some x
      exact ⟨.float y, by rw [reread?, hy]⟩
  | .str s => fun _ => ⟨.str s, by rw [reread?]⟩
  | .arr items => by
      intro h
      rw [integersFit] at h
      obtain ⟨items', hitems⟩ := exists_rereadItems? items h []
      exact ⟨.arr items', by rw [reread?, hitems]; rfl⟩
  | .obj members => by
      intro h
      rw [integersFit] at h
      obtain ⟨members', hmembers⟩ := exists_rereadMembers? members h []
      exact ⟨.obj members', by rw [reread?, hmembers]; rfl⟩

theorem exists_rereadItems? : ∀ items : List Json, allIntegersFit items = true →
    ∀ before, ∃ items', rereadItems? before items = some items'
  | [] => fun _ before => ⟨before.reverse, by rw [rereadItems?]⟩
  | j :: rest => by
      intro h before
      rw [allIntegersFit, Bool.and_eq_true] at h
      obtain ⟨j', hj⟩ := exists_reread? j h.1
      obtain ⟨items', hitems⟩ := exists_rereadItems? rest h.2 (j' :: before)
      exact ⟨items', by rw [rereadItems?, hj, Option.bind_some, hitems]⟩

theorem exists_rereadMembers? : ∀ members : List (String × Json), memberIntegersFit members = true →
    ∀ before, ∃ members', rereadMembers? before members = some members'
  | [] => fun _ before => ⟨before.reverse, by rw [rereadMembers?]⟩
  | (key, j) :: rest => by
      intro h before
      rw [memberIntegersFit, Bool.and_eq_true] at h
      obtain ⟨j', hj⟩ := exists_reread? j h.1
      obtain ⟨members', hmembers⟩ := exists_rereadMembers? rest h.2 (setMember before key j')
      exact ⟨members', by rw [rereadMembers?, hj, Option.bind_some, hmembers]⟩

end

theorem reread?_int_eq_some {n : Int} {j : Json} (h : reread? (.int n) = some j) :
    n.natAbs < 10 ^ Integer.digitLimit ∧ j = .int n := by
  rw [reread?, Option.ite_none_right_eq_some] at h
  exact ⟨h.1, (Option.some.inj h.2).symm⟩

/-- The items of an array come back one by one. -/
theorem forall₂_of_rereadItems? : ∀ {items before back : List Json}, rereadItems? before items = some back →
    ∃ items', back = before.reverse ++ items' ∧ List.Forall₂ (fun j j' => reread? j = some j') items items' := by
  intro items
  induction items with
  | nil =>
      intro before back h
      cases h
      exact ⟨[], (List.append_nil _).symm, .nil⟩
  | cons j rest ih =>
      intro before back h
      rw [rereadItems?] at h
      obtain ⟨j', hj, h⟩ := Option.bind_eq_some_iff.mp h
      obtain ⟨items', rfl, hrest⟩ := ih h
      exact ⟨j' :: items', by simp, .cons hj hrest⟩

/-- The members of an object come back one by one, if no two of them have the same key. -/
theorem forall₂_of_rereadMembers? : ∀ {members before back : List (String × Json)},
    ((before.map (·.1)).reverse ++ members.map (·.1)).Nodup → rereadMembers? before members = some back →
    ∃ members', back = before.reverse ++ members' ∧
      List.Forall₂ (fun m m' => m'.1 = m.1 ∧ reread? m.2 = some m'.2) members members' := by
  intro members
  induction members with
  | nil =>
      intro before back _ h
      cases h
      exact ⟨[], (List.append_nil _).symm, .nil⟩
  | cons member rest ih =>
      intro before back hkeys h
      obtain ⟨key, j⟩ := member
      rw [rereadMembers?] at h
      obtain ⟨j', hj, h⟩ := Option.bind_eq_some_iff.mp h
      have hnew : before.any (·.1 == key) = false := by
        rw [List.any_eq_false]
        intro m hm heq
        have hbefore : key ∈ (before.map (·.1)).reverse :=
          List.mem_reverse.mpr (List.mem_map.mpr ⟨m, hm, beq_iff_eq.mp heq⟩)
        exact (List.nodup_append.mp hkeys).2.2 key hbefore key List.mem_cons_self rfl
      rw [setMember, hnew, if_neg Bool.false_ne_true] at h
      obtain ⟨members', rfl, hrest⟩ := ih (by simpa using hkeys) h
      exact ⟨(key, j') :: members', by simp, .cons ⟨rfl, hj⟩ hrest⟩

end IdiomLint.Json

namespace IdiomLint.Schema

open Json

/-! ## Values that violate nothing -/

theorem within_eq_nil {step : Step} {vs : List Violation} : within step vs = [] ↔ vs = [] := List.map_eq_nil_iff

theorem check_eq_nil {ok : Bool} {cause : Cause} : check ok cause = [] ↔ ok = true := by
  cases ok <;> simp [check]

theorem violations_choice {options : List String} {text : String} :
    (Schema.choice options).violations (.str text) = [] ↔ text ∈ options := by
  refine List.append_eq_nil_iff.trans ?_
  rw [check_eq_nil]
  exact (and_iff_right rfl).trans List.contains_iff_mem

theorem violations_integer {minimum : Nat} {j : Json} :
    (Schema.integer minimum).violations j = [] ↔ isInteger j = true ∧ isBelow minimum j = false := by
  refine List.append_eq_nil_iff.trans (and_congr check_eq_nil ?_)
  rw [check_eq_nil, Bool.not_eq_true']

theorem violations_number {minimum : Nat} {j : Json} :
    (Schema.number minimum).violations j = [] ↔ isNumber j = true ∧ isBelow minimum j = false := by
  refine List.append_eq_nil_iff.trans (and_congr check_eq_nil ?_)
  rw [check_eq_nil, Bool.not_eq_true']

theorem violations_array {s : Schema} {items : List Json} :
    (Schema.array s).violations (.arr items) = [] ↔ ∀ j ∈ items, s.violations j = [] := by
  refine List.flatten_eq_nil_iff.trans ?_
  constructor
  · intro h j hj
    rw [← List.zipIdx_map_fst 0 items] at hj
    obtain ⟨⟨_, n⟩, hmem, rfl⟩ := List.mem_map.mp hj
    exact within_eq_nil.mp (h _ (List.mem_map.mpr ⟨_, hmem, rfl⟩))
  · intro h vs hvs
    obtain ⟨⟨j, n⟩, hmem, rfl⟩ := List.mem_map.mp hvs
    exact within_eq_nil.mpr (h j (List.fst_mem_of_mem_zipIdx hmem))

theorem memberViolations_eq_nil {j : Json} : ∀ {properties : List (String × Schema)},
    memberViolations properties j = [] ↔
      ∀ p ∈ properties, ∀ member, j.get? p.1 = some member → p.2.violations member = [] := by
  intro properties
  induction properties with
  | nil => simp [memberViolations]
  | cons property rest ih =>
      obtain ⟨name, s⟩ := property
      rw [memberViolations, List.append_eq_nil_iff, List.forall_mem_cons, ih]
      refine and_congr_left fun _ => ?_
      cases j.get? name with
      | none => simp
      | some member => simp [within_eq_nil]

/-- An object violates nothing if its members have their forms, none that is required is missing and none is
unknown. -/
theorem violations_object {properties : List (String × Schema)} {required : List String}
    {members : List (String × Json)} : (Schema.object properties required).violations (.obj members) = [] ↔
      (∀ p ∈ properties, ∀ member, members.lookup p.1 = some member → p.2.violations member = []) ∧
      (∀ name ∈ required, name ∈ members.map (·.1)) ∧
      ∀ name ∈ members.map (·.1), name ∈ properties.map (·.1) := by
  refine List.append_eq_nil_iff.trans ?_
  rw [memberViolations_eq_nil, nameViolations]
  refine and_congr_right fun _ => ?_
  rw [List.append_eq_nil_iff, List.map_eq_nil_iff, List.filter_eq_nil_iff, check_eq_nil, List.isEmpty_iff,
    List.filter_eq_nil_iff]
  simp

/-- A value that is an array by its schema is one, and its items violate nothing. -/
theorem exists_items {s : Schema} {j : Json} (h : (Schema.array s).violations j = []) :
    ∃ items, j = .arr items ∧ ∀ item ∈ items, s.violations item = [] := by
  cases j with
  | arr items => exact ⟨items, rfl, violations_array.mp h⟩
  | _ => exact absurd h (List.cons_ne_nil _ _)

/-- A member that is required is there, and it violates nothing. -/
theorem exists_member {properties : List (String × Schema)} {required : List String} {j : Json}
    (h : (Schema.object properties required).violations j = []) {name : String} {s : Schema}
    (hname : name ∈ required) (hs : (name, s) ∈ properties) :
    ∃ member, j.get? name = some member ∧ s.violations member = [] := by
  cases j with
  | obj members =>
      obtain ⟨hmembers, hrequired, _⟩ := violations_object.mp h
      obtain ⟨m, hm, rfl⟩ := List.mem_map.mp (hrequired name hname)
      cases hlookup : members.lookup m.1 with
      | none => exact absurd (List.lookup_eq_none_iff.mp hlookup m hm) (by simp)
      | some member => exact ⟨member, hlookup, hmembers _ hs member hlookup⟩
  | _ => exact absurd h (List.cons_ne_nil _ _)

/-! ## Schemas and texts -/

/-- Nothing that is read back from the text of a value violates the schema. -/
def AdmitsText (s : Schema) (j : Json) : Prop := ∀ j', reread? j = some j' → s.violations j' = []

theorem admitsText_string (text : String) : Schema.string.AdmitsText (.str text) := by
  intro j' h
  cases h
  rfl

theorem admitsText_choice {options : List String} {text : String} (h : text ∈ options) :
    (Schema.choice options).AdmitsText (.str text) := by
  intro j' hj
  cases hj
  exact violations_choice.mpr h

theorem admitsText_integer {minimum : Nat} {n : Int} (h : minimum ≤ n) :
    (Schema.integer minimum).AdmitsText (.int n) := by
  intro j' hj
  obtain ⟨_, rfl⟩ := reread?_int_eq_some hj
  exact violations_integer.mpr ⟨rfl, decide_eq_false (Int.not_lt.mpr h)⟩

theorem admitsText_number {j : Json} (hnumber : isNumber j = true) (hbelow : isBelow 0 j = false) :
    (Schema.number 0).AdmitsText j := by
  intro j' hj
  cases j with
  | int n =>
      obtain ⟨_, rfl⟩ := reread?_int_eq_some hj
      exact violations_number.mpr ⟨hnumber, hbelow⟩
  | float x =>
      obtain ⟨y, hy, hback⟩ := rereadFloat?_eq_some x
      cases hy.symm.trans hj
      exact violations_number.mpr ⟨rfl, hback hbelow⟩
  | _ => exact absurd hnumber nofun

theorem admitsText_anyObject (members : List (String × Json)) : Schema.anyObject.AdmitsText (.obj members) := by
  intro j' hj
  obtain ⟨members', _, rfl⟩ := Option.map_eq_some_iff.mp hj
  rfl

theorem admitsText_array {s : Schema} {items : List Json} (h : ∀ j ∈ items, s.AdmitsText j) :
    (Schema.array s).AdmitsText (.arr items) := by
  intro j' hj
  obtain ⟨back, hback, rfl⟩ := Option.map_eq_some_iff.mp hj
  obtain ⟨items', rfl, hitems⟩ := forall₂_of_rereadItems? hback
  refine violations_array.mpr fun j' hj' => ?_
  obtain ⟨j, hj, hreread⟩ := exists_mem_of_forall₂ hitems j' hj'
  exact h j hj j' hreread

/-- The text of an object is admitted if its members have different names, each is the name of a form that admits its
text, and none that is required is missing. -/
theorem admitsText_object {properties : List (String × Schema)} {required : List String}
    {members : List (String × Json)} (hproperties : (properties.map (·.1)).Nodup)
    (hnames : (members.map (·.1)).Nodup)
    (hmembers : ∀ m ∈ members, ∃ s, (m.1, s) ∈ properties ∧ s.AdmitsText m.2)
    (hrequired : ∀ name ∈ required, name ∈ members.map (·.1)) :
    (Schema.object properties required).AdmitsText (.obj members) := by
  intro j' hj
  obtain ⟨members', hback, rfl⟩ := Option.map_eq_some_iff.mp hj
  obtain ⟨_, rfl, hforall⟩ := @forall₂_of_rereadMembers? members [] members' hnames hback
  have hsame : members'.map (·.1) = members.map (·.1) :=
    (map_eq_of_forall₂ (hforall.imp fun _ _ h => h.1.symm)).symm
  refine violations_object.mpr ⟨?_, ?_, ?_⟩
  · intro p hp member hlookup
    obtain ⟨before, after, hsplit, _⟩ := List.lookup_eq_some_iff.mp hlookup
    have hmem : (p.1, member) ∈ members' := hsplit ▸ List.mem_append_right before List.mem_cons_self
    obtain ⟨m, hm, hname, hreread⟩ := exists_mem_of_forall₂ hforall _ hmem
    obtain ⟨s, hs, hadmits⟩ := hmembers m hm
    cases List.inj_on_of_nodup_map hproperties hp hs hname
    exact hadmits member hreread
  · rwa [hsame]
  · intro name hname
    rw [hsame] at hname
    obtain ⟨m, hm, rfl⟩ := List.mem_map.mp hname
    obtain ⟨s, hs, _⟩ := hmembers m hm
    exact List.mem_map.mpr ⟨_, hs, rfl⟩

end IdiomLint.Schema
