import IdiomLint.Proofs.Pattern.Derivation
import IdiomLint.Proofs.Pattern.Notation

/-!
# Pattern text round-trips

Reading gives what the grammar derives, so both directions are statements about derivations. The tokens
of a pattern derive it, if the positions in it are those that come next (`Spelled.derives`). In the other
direction every derivation is of a pattern that has a notation: its names and literals come from tokens,
and its positions are numbered in the order of the text (`Accepted.spelled`). Main statement: the patterns
with a notation are the ones that reading returns, and each is read back from its own text
(`read_render`).
-/

namespace IdiomLint.Pattern

open Token (IsName IsReferenceName)

variable {source : String} {refs : List (String × Pattern)}

/-! ## Positions -/

@[simp] theorem length_numbers (first count : Nat) : (numbers first count).length = count := by
  simp [numbers]

theorem numbers_add (first a b : Nat) :
    numbers first (a + b) = numbers first a ++ numbers (first + a) b := by
  rw [numbers, numbers, numbers, ← List.map_append, List.range'_append_1]

theorem numbers_one (first : Nat) : numbers first 1 = [Integer.decimal first] := rfl

/-- Two lists that are numbered through are each numbered through, the second one from where the first
one ends. -/
theorem numbers_of_append {xs ys : List String} {first : Nat}
    (h : xs ++ ys = numbers first (xs ++ ys).length) :
    xs = numbers first xs.length ∧ ys = numbers (first + xs.length) ys.length := by
  rw [List.length_append, numbers_add] at h
  exact List.append_inj h (by simp)

theorem isPosition_decimal (n : Nat) : isPosition (Integer.decimal n) = true := by
  show isPosition (String.ofList (Nat.toDigits 10 n)) = true
  rw [isPosition, String.toList_ofList, List.all_eq_true]
  intro c hc
  exact Nat.isDigit_of_mem_toDigits (by decide) (by decide) hc

/-! ## From a pattern to its text and back -/

/-- The decimal digits of an integer denote it. -/
theorem derives_decimalDigits {n : Int} (h : n.natAbs < 10 ^ Integer.digitLimit) (first : Nat) :
    Derives refs first (tokensOf (.value (.int n))) (.value (.int n)) first := by
  have hlimit : (Integer.decimalDigits n.natAbs).length ≤ Integer.digitLimit :=
    (Integer.length_decimalDigits_le_iff (by decide)).mpr h
  apply derives_of_ofToken?
  have hn : integer (n < 0) (Integer.decimalDigits n.natAbs) = .ok n := by
    rw [integer_eq_ok, Integer.ofDigits_decimalDigits]
    refine ⟨hlimit, ?_⟩
    by_cases hneg : n < 0
    · rw [decide_eq_true hneg, if_pos rfl]
      omega
    · rw [decide_eq_false hneg, if_neg Bool.false_ne_true]
      omega
  rw [ofToken?, hn]
  rfl

/-- A pattern is derived from its own tokens. -/
def DerivesBack (refs : List (String × Pattern)) (p : Pattern) : Prop :=
  ∀ first, positions p = numbers first (positions p).length →
    Derives refs first (tokensOf p) p (first + (positions p).length)

theorem derivesAll_tokensOfAll {ps : List Pattern} (hps : ∀ p ∈ ps, DerivesBack refs p) :
    ∀ first, positionsAll ps = numbers first (positionsAll ps).length →
      DerivesAll refs first (tokensOfAll ps) ps (first + (positionsAll ps).length) := by
  induction ps with
  | nil => exact fun first _ => .nil
  | cons p ps ih =>
      intro first hnumbers
      rw [List.forall_mem_cons] at hps
      rw [positionsAll] at hnumbers ⊢
      obtain ⟨hp, hrest⟩ := numbers_of_append hnumbers
      rw [List.length_append, ← Nat.add_assoc]
      exact .cons (hps.1 first hp) (ih hps.2 _ hrest)

/-- Every pattern whose names and literals can be written is derived from its tokens. -/
theorem Spelled.derives {p : Pattern} (hp : Spelled refs p) (haccepted : Accepted p) :
    DerivesBack refs p := by
  induction hp with
  | any => exact fun _ _ => .any
  | rest => exact fun _ _ => .rest
  | nil => exact fun _ _ => .nil
  | text s => exact fun _ _ => .string
  | int hlimit => exact fun first _ => derives_decimalDigits hlimit first
  | ref _ hlookup => exact fun _ _ => .ref hlookup
  | @capture name inner _ _ ih =>
      obtain ⟨hinner, _⟩ := haccepted.of_capture
      intro first hnumbers
      rw [positions] at hnumbers ⊢
      rw [tokensOf]
      cases hposition : isPosition name with
      | true =>
          rw [hposition, if_pos rfl] at hnumbers
          obtain ⟨hname, hrest⟩ := numbers_of_append hnumbers
          rw [List.length_singleton] at hname hrest
          rw [numbers_one, List.singleton_inj] at hname
          rw [if_pos rfl, if_pos rfl, List.length_append, List.length_singleton, ← Nat.add_assoc, hname]
          exact .numbered (ih hinner _ hrest)
      | false =>
          rw [hposition, if_neg Bool.false_ne_true, List.nil_append] at hnumbers
          rw [if_neg Bool.false_ne_true, if_neg Bool.false_ne_true, List.nil_append]
          exact .named (ih hinner _ hnumbers)
  | @node kind children _ _ ih =>
      obtain ⟨hchildren, _⟩ := haccepted.of_node
      intro first hnumbers
      exact .node (derivesAll_tokensOfAll (fun c hc => ih c hc (hchildren c hc)) first hnumbers)
  | @oneOf alternatives _ ih =>
      obtain ⟨hall, hmk⟩ := haccepted.of_oneOf
      obtain ⟨_, _, hne, _⟩ := mkOneOf_eq_ok.mp hmk
      intro first hnumbers
      refine .oneOf ?_ (by simp [hne])
      exact derivesAll_tokensOfAll (fun a ha => ih a ha (hall a ha)) first hnumbers

theorem Notated.reads_render {p : Pattern} (hp : Notated refs p) : read (render p) refs = .ok p := by
  have hderives := hp.spelled.derives hp.built.accepted 0 hp.numbered
  rw [read, hp.spelled.tokens_render]
  exact readTokens_eq_ok.mpr ⟨⟨_, hderives⟩, hp.built.accepted⟩

/-! ## From a text to a pattern with a notation -/

/-- What is derived from well-formed tokens has a notation, and its positions are numbered through. -/
def SpelledBy (refs : List (String × Pattern)) (p : Pattern) : Prop :=
  ∀ {first next : Nat} {ts : List Token}, Derives refs first ts p next → (∀ t ∈ ts, t.WellFormed) →
    (Built p ∧ Spelled refs p) ∧ ∃ count, next = first + count ∧ positions p = numbers first count

theorem DerivesAll.spelled {ps : List Pattern} (hps : ∀ p ∈ ps, SpelledBy refs p) :
    ∀ {first next : Nat} {ts : List Token}, DerivesAll refs first ts ps next →
      (∀ t ∈ ts, t.WellFormed) →
      (∀ p ∈ ps, Built p ∧ Spelled refs p) ∧
        ∃ count, next = first + count ∧ positionsAll ps = numbers first count := by
  induction ps with
  | nil =>
      intro first next ts h _
      cases h
      exact ⟨by simp, 0, rfl, rfl⟩
  | cons p ps ih =>
      intro first next ts h hts
      rw [List.forall_mem_cons] at hps ⊢
      cases h with
      | cons hp hrest =>
          rw [List.forall_mem_append] at hts
          obtain ⟨hspelled, count, rfl, hpositions⟩ := hps.1 hp hts.1
          obtain ⟨hothers, more, rfl, hmore⟩ := ih hps.2 hrest hts.2
          refine ⟨⟨hspelled, hothers⟩, count + more, Nat.add_assoc _ _ _, ?_⟩
          rw [positionsAll, hpositions, hmore, numbers_add]

/-- The integer of a literal is one that decimal text can denote. -/
theorem ofDigits_lt_limit {digits : List Nat} (hdigits : ∀ d ∈ digits, d < 10)
    (hlimit : digits.length ≤ Integer.digitLimit) :
    Integer.ofDigits 10 digits < 10 ^ Integer.digitLimit :=
  Nat.lt_of_lt_of_le (Integer.ofDigits_lt hdigits) (Integer.tenPow_le hlimit)

/-- An accepted pattern that the grammar derives has a notation, if the patterns to refer to are built. -/
theorem Accepted.spelled (hrefs : ∀ entry ∈ refs, Built entry.2) {p : Pattern} (hp : Accepted p) :
    SpelledBy refs p := by
  induction hp with
  | any =>
      intro first next ts h _
      cases h
      exact ⟨⟨.any, .any⟩, 0, rfl, rfl⟩
  | rest =>
      intro first next ts h _
      cases h
      exact ⟨⟨.rest, .rest⟩, 0, rfl, rfl⟩
  | value v =>
      intro first next ts h hts
      refine ⟨⟨.value v, ?_⟩, 0, ?_, rfl⟩
      · cases h with
        | nil => exact .nil
        | symbol => exact .text _
        | string => exact .text _
        | natural hlimit =>
            have hlt := ofDigits_lt_limit (hts _ List.mem_cons_self) hlimit
            exact .int (by rw [Int.natAbs_natCast]; exact hlt)
        | negative hlimit =>
            have hlt := ofDigits_lt_limit (hts _ List.mem_cons_self) hlimit
            exact .int (by rw [Int.natAbs_neg, Int.natAbs_natCast]; exact hlt)
      · cases h <;> rfl
  | never =>
      intro first next ts h
      cases h
  | ref name target =>
      intro first next ts h hts
      cases h with
      | ref hlookup =>
          obtain ⟨before, after, heq, _⟩ := List.lookup_eq_some_iff.mp hlookup
          have htarget : Built target := hrefs (name, target) (by simp [heq])
          exact ⟨⟨.ref name htarget, .ref (hts _ List.mem_cons_self) hlookup⟩, 0, rfl, rfl⟩
  | @capture name inner p _ hmk ih =>
      obtain ⟨_, rfl⟩ := mkCapture_eq_ok.mp hmk
      intro first next ts h hts
      cases h with
      -- A bare dollar sign takes the next position.
      | numbered hinner =>
          rw [List.forall_mem_cons] at hts
          obtain ⟨⟨hbuilt, hspelled⟩, count, rfl, hpositions⟩ := ih hinner hts.2
          have hposition := isPosition_decimal first
          refine ⟨⟨.capture hbuilt hmk, .capture (Or.inl hposition) hspelled⟩, 1 + count,
            Nat.add_assoc _ _ _, ?_⟩
          rw [positions, hposition, if_pos rfl, hpositions, numbers_add, numbers_one]
      | named hinner =>
          rw [List.forall_mem_cons] at hts
          obtain ⟨⟨hbuilt, hspelled⟩, count, rfl, hpositions⟩ := ih hinner hts.2
          refine ⟨⟨.capture hbuilt hmk, .capture (Or.inr hts.1) hspelled⟩, count, rfl, ?_⟩
          rw [positions, isPosition_of_isName hts.1, if_neg Bool.false_ne_true, List.nil_append,
            hpositions]
  | @node kind children p _ hmk ih =>
      obtain ⟨_, _, rfl⟩ := mkNode_eq_ok.mp hmk
      intro first next ts h hts
      cases h with
      | kind _ _ =>
          have hword : IsName kind := hts _ List.mem_cons_self
          exact ⟨⟨.node (by simp [Built.rest]) hmk, .node hword (by simp [Spelled.rest])⟩, 0, rfl, rfl⟩
      | node hchildren =>
          rw [List.forall_mem_cons, List.forall_mem_cons, List.forall_mem_append] at hts
          obtain ⟨hall, count, rfl, hpositions⟩ := hchildren.spelled ih hts.2.2.1
          exact ⟨⟨.node (fun c hc => (hall c hc).1) hmk, .node hts.2.1 fun c hc => (hall c hc).2⟩, count,
            rfl, hpositions⟩
  | @oneOf alternatives p _ hmk ih =>
      obtain ⟨_, _, _, rfl, _⟩ := mkOneOf_eq_ok.mp hmk
      intro first next ts h hts
      cases h with
      | oneOf halternatives _ =>
          rw [List.forall_mem_cons, List.forall_mem_append] at hts
          obtain ⟨hall, count, rfl, hpositions⟩ := halternatives.spelled ih hts.2.1
          exact ⟨⟨.oneOf (fun a ha => (hall a ha).1) hmk, .oneOf fun a ha => (hall a ha).2⟩, count, rfl,
            hpositions⟩

/-! ## Main statement -/

theorem notated_of_read (hrefs : ∀ entry ∈ refs, Built entry.2) {p : Pattern}
    (h : read source refs = .ok p) : Notated refs p := by
  obtain ⟨ts, htokens, h⟩ := bind_eq_ok.mp h
  obtain ⟨⟨next, hderives⟩, hp⟩ := readTokens_eq_ok.mp h
  obtain ⟨⟨hbuilt, hspelled⟩, count, _, hpositions⟩ :=
    hp.spelled hrefs hderives (Token.wellFormed_of_tokensFrom htokens)
  exact ⟨hbuilt, hspelled, by rw [hpositions, length_numbers]⟩

/-- Pattern text round-trips. A pattern with a notation is read back from its own text, and whatever
reading returns for any text has a notation and so is read back from its own text too. -/
theorem read_render (refs : List (String × Pattern)) (hrefs : ∀ entry ∈ refs, Built entry.2) :
    (∀ p, Notated refs p → read (render p) refs = .ok p) ∧
      ∀ s p, read s refs = .ok p → Notated refs p ∧ read (render p) refs = .ok p := by
  refine ⟨fun p hp => hp.reads_render, ?_⟩
  intro s p h
  have hp := notated_of_read hrefs h
  exact ⟨hp, hp.reads_render⟩

/-- A call of anything, with an argument that holds quotes and a line feed, and the arguments after it. -/
def quotingCall : Pattern :=
  .node "send" [.ref "callee" (.ofKind "lvar"), .capture "0" .any,
    .capture "said" (.value (.text "so \"say\"\n")), .capture "1" .rest]

theorem built_ofKind (kind : String) : Built (.ofKind kind) :=
  .node (by simp [Built.rest]) (rfl : mkNode kind [.rest] = .ok _)

theorem notated_quotingCall : Notated [("callee", .ofKind "lvar")] quotingCall := by
  refine ⟨?_, ?_, ?_⟩
  · refine .node ?_ (rfl : mkNode "send" [.ref "callee" (.ofKind "lvar"), .capture "0" .any,
      .capture "said" (.value (.text "so \"say\"\n")), .capture "1" .rest] = .ok _)
    have hfirst : Built (.capture "0" .any) := .capture .any rfl
    have hsaid : Built (.capture "said" (.value (.text "so \"say\"\n"))) := .capture (.value _) rfl
    have hothers : Built (.capture "1" .rest) := .capture .rest rfl
    simp [hfirst, hsaid, hothers, Built.ref, built_ofKind]
  · have hsaid : IsName "said" := .ofChars rfl (by decide) (by decide)
    have hcallee : IsName "callee" := .ofChars rfl (by decide) (by decide)
    refine .node (.ofChars rfl (by decide) (by decide)) ?_
    simp only [List.forall_mem_cons, List.not_mem_nil, false_implies, implies_true, and_true]
    exact ⟨.ref (Or.inl hcallee) rfl, .capture (Or.inl rfl) .any, .capture (Or.inr hsaid) (.text _),
      .capture (Or.inl rfl) .rest⟩
  · rfl

theorem read_quotingCall :
    (∀ entry ∈ [("callee", Pattern.ofKind "lvar")], Built entry.2) ∧
      render quotingCall = "(send #callee $_ $said=\"so \\\"say\\\"\n\" $...)" ∧
      read (render quotingCall) [("callee", .ofKind "lvar")] = .ok quotingCall := by
  have hrefs : ∀ entry ∈ [("callee", Pattern.ofKind "lvar")], Built entry.2 := by
    simp [built_ofKind]
  refine ⟨hrefs, ?_, (read_render _ hrefs).1 _ notated_quotingCall⟩
  rfl

end IdiomLint.Pattern
