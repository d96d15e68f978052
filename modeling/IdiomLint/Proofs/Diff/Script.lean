import Mathlib.Data.List.TakeDrop
import IdiomLint.Diff.Script

/-!
# What an edit script says

A script is a description of both lists: its segments hold the old lines and the new lines, all of them and in
order (`script_old`, `script_new`). For the old lines that is so whatever stretches are chosen. For the new lines
it is so because every stretch that is found is one in which the lists agree, which holds of every entry of a row
and therefore of the best of them.
-/

namespace IdiomLint.Diff

variable {low : Nat} {as : List Anchored} {bs : List String}

/-! ## Stretches in which two lists agree -/

/-- The old lines from place `x` on and the new lines from place `y` on agree for `size` lines. -/
structure Agree (as : List Anchored) (bs : List String) (x y size : Nat) : Prop where
  oldBound : x + size ≤ as.length
  newBound : y + size ≤ bs.length
  lines : ((as.drop x).take size).map Anchored.line = (bs.drop y).take size

theorem Agree.empty (as : List Anchored) (bs : List String) : Agree as bs 0 0 0 :=
  ⟨Nat.zero_le _, Nat.zero_le _, rfl⟩

/-- Two stretches, one right after the other in both lists. -/
theorem Agree.append {x y size more : Nat} (h : Agree as bs x y size)
    (hnext : Agree as bs (x + size) (y + size) more) : Agree as bs x y (size + more) where
  oldBound := by have := hnext.oldBound; omega
  newBound := by have := hnext.newBound; omega
  lines := by
    rw [List.take_add, List.map_append, List.take_add, List.drop_drop, List.drop_drop, h.lines, hnext.lines]

/-- One old line and one new line that are equal. -/
theorem Agree.single {x y : Nat} {a : Anchored} (hold : as[x]? = some a) (hnew : bs[y]? = some a.line) :
    Agree as bs x y 1 := by
  obtain ⟨hx, rfl⟩ := List.getElem?_eq_some_iff.mp hold
  obtain ⟨hy, hline⟩ := List.getElem?_eq_some_iff.mp hnew
  refine ⟨hx, hy, ?_⟩
  rw [List.drop_eq_getElem_cons hx, List.drop_eq_getElem_cons hy, hline]
  rfl

theorem commonLength_le (as : List Anchored) (bs : List String) :
    commonLength as bs ≤ as.length ∧ commonLength as bs ≤ bs.length := by
  fun_induction commonLength as bs with
  | case1 a as b bs _ ih => simp only [List.length_cons]; omega
  | case2 => exact ⟨Nat.zero_le _, Nat.zero_le _⟩
  | case3 => exact ⟨Nat.zero_le _, Nat.zero_le _⟩

theorem take_commonLength (as : List Anchored) (bs : List String) :
    (as.take (commonLength as bs)).map Anchored.line = bs.take (commonLength as bs) := by
  fun_induction commonLength as bs with
  | case1 a as b bs heq ih => rw [List.take_succ_cons, List.map_cons, ih, beq_iff_eq.mp heq, List.take_succ_cons]
  | case2 => rfl
  | case3 => rfl

/-- The lines that the lists have in common from two places on. -/
theorem agree_ahead (as : List Anchored) (bs : List String) {x y : Nat} (hx : x ≤ as.length)
    (hy : y ≤ bs.length) : Agree as bs x y (commonLength (as.drop x) (bs.drop y)) := by
  obtain ⟨hold, hnew⟩ := commonLength_le (as.drop x) (bs.drop y)
  rw [List.length_drop] at hold hnew
  exact ⟨by omega, by omega, take_commonLength _ _⟩

theorem take_reverse_take {α : Type} {xs : List α} {x k : Nat} (hx : x ≤ xs.length) (hk : k ≤ x) :
    ((xs.take x).reverse.take k).reverse = (xs.drop (x - k)).take k := by
  rw [List.take_reverse, List.reverse_reverse, List.length_take_of_le hx, List.drop_take]
  congr 1
  omega

/-- The lines that the lists have in common in front of two places. -/
theorem agree_back (as : List Anchored) (bs : List String) {x y back : Nat} (hx : x ≤ as.length)
    (hy : y ≤ bs.length) (hback : commonLength (as.take x).reverse (bs.take y).reverse = back) :
    back ≤ x ∧ back ≤ y ∧ Agree as bs (x - back) (y - back) back := by
  subst hback
  set back := commonLength (as.take x).reverse (bs.take y).reverse with hdef
  obtain ⟨hold, hnew⟩ := commonLength_le (as.take x).reverse (bs.take y).reverse
  rw [List.length_reverse, List.length_take_of_le hx, ← hdef] at hold
  rw [List.length_reverse, List.length_take_of_le hy, ← hdef] at hnew
  have hlines := congrArg List.reverse (take_commonLength (as.take x).reverse (bs.take y).reverse)
  rw [← hdef, ← List.map_reverse, take_reverse_take hx hold, take_reverse_take hy hnew] at hlines
  exact ⟨hold, hnew, by omega, by omega, hlines⟩

/-! ## The stretches that are found -/

/-- The places of the old lines are those of new lines that are equal to them, in order. The new lines at hand
count from `low` on; a line may have places outside them. -/
structure Anchors (low : Nat) (as : List Anchored) (bs : List String) : Prop where
  ascending : ∀ a ∈ as, a.places.Pairwise (· < ·)
  equal : ∀ a ∈ as, ∀ j ∈ a.places, low ≤ j → j < low + bs.length → bs[j - low]? = some a.line

/-- An entry of a row: a stretch in which the lists agree, which ends right before the old line at place `i`. -/
def Entry (low : Nat) (as : List Anchored) (bs : List String) (i : Nat) (e : Nat × Nat) : Prop :=
  ∃ x y, x + e.2 = i ∧ low + y + e.2 = e.1 + 1 ∧ Agree as bs x y e.2

theorem le_of_mem_dropWhile {places : List Nat} {j : Nat} (hplaces : places.Pairwise (· < ·))
    (h : j ∈ places.dropWhile (· < low)) : low ≤ j := by
  induction places with
  | nil => exact absurd h List.not_mem_nil
  | cons first places ih =>
      rw [List.pairwise_cons] at hplaces
      by_cases hfirst : first < low
      · rw [List.dropWhile_cons_of_pos (by simpa using hfirst)] at h
        exact ih hplaces.2 h
      · rw [List.dropWhile_cons_of_neg (by simpa using hfirst), List.mem_cons] at h
        rcases h with rfl | h
        · omega
        · have := hplaces.1 j h
          omega

/-- The places that count for the lines at hand. -/
theorem Anchors.mem_places (hanchors : Anchors low as bs) {a : Anchored} (ha : a ∈ as) {j : Nat}
    (h : j ∈ (a.places.dropWhile (· < low)).takeWhile (· < low + bs.length)) :
    low ≤ j ∧ bs[j - low]? = some a.line := by
  have hfrom := (List.takeWhile_sublist _).subset h
  have hlow := le_of_mem_dropWhile (hanchors.ascending a ha) hfrom
  have hhigh : j < low + bs.length := by simpa using List.all_eq_true.mp List.all_takeWhile j h
  exact ⟨hlow, hanchors.equal a ha j ((List.dropWhile_sublist _).subset hfrom) hlow hhigh⟩

/-- A row holds single lines, and the stretches of the row before made longer by one line. -/
theorem mem_row {places : List Nat} {earlier : List (Nat × Nat)} {e : Nat × Nat} (h : e ∈ row places earlier) :
    e.1 ∈ places ∧ (e.2 = 1 ∨ ∃ before ∈ earlier, before.1 + 1 = e.1 ∧ before.2 + 1 = e.2) := by
  induction places generalizing earlier with
  | nil => exact absurd h List.not_mem_nil
  | cons j places ih =>
      have hsub : ∀ before ∈ earlier.dropWhile (·.1 + 1 < j), before ∈ earlier :=
        (List.dropWhile_sublist _).subset
      rw [row, List.mem_cons] at h
      rcases h with rfl | h
      · refine ⟨List.mem_cons_self, ?_⟩
        split
        · next place length _ hrest =>
            by_cases hplace : place + 1 = j
            · right
              refine ⟨(place, length), hsub _ ?_, hplace, ?_⟩
              · rw [hrest]
                exact List.mem_cons_self
              · rw [if_pos hplace]
            · left
              rw [if_neg hplace]
        · exact Or.inl rfl
      · obtain ⟨hmem, hsize⟩ := ih h
        refine ⟨List.mem_cons_of_mem _ hmem, hsize.imp_right ?_⟩
        rintro ⟨before, hbefore, hboth⟩
        exact ⟨before, hsub before hbefore, hboth⟩

/-- The row of an old line, from the row of the line before it. -/
theorem entry_row {i : Nat} {a : Anchored} {places : List Nat} {earlier : List (Nat × Nat)} {e : Nat × Nat}
    (ha : as[i]? = some a) (hplaces : ∀ j ∈ places, low ≤ j ∧ bs[j - low]? = some a.line)
    (hearlier : ∀ before ∈ earlier, Entry low as bs i before) (h : e ∈ row places earlier) :
    Entry low as bs (i + 1) e := by
  obtain ⟨j, size⟩ := e
  obtain ⟨hj, hsize⟩ := mem_row h
  obtain ⟨hlow, hline⟩ := hplaces j hj
  have hsingle := Agree.single ha hline
  rcases hsize with hsize | ⟨before, hbefore, hplace, hsize⟩
  · change size = 1 at hsize
    subst hsize
    exact ⟨i, j - low, rfl, by show low + (j - low) + 1 = j + 1; omega, hsingle⟩
  · obtain ⟨x, y, hx, hy, hagree⟩ := hearlier before hbefore
    change before.1 + 1 = j at hplace
    change before.2 + 1 = size at hsize
    subst hsize
    have hnew : j - low = y + before.2 := by omega
    rw [← hx, hnew] at hsingle
    exact ⟨x, y, by omega, by show low + y + (before.2 + 1) = j + 1; omega, hagree.append hsingle⟩

/-- A stretch with the places of both lists in which the lists agree. -/
def Common.Sound (low : Nat) (as : List Anchored) (bs : List String) (c : Common) : Prop :=
  low ≤ c.new ∧ Agree as bs c.old (c.new - low) c.size

theorem sound_bestInRow {i : Nat} {entries : List (Nat × Nat)}
    (hentries : ∀ e ∈ entries, Entry low as bs (i + 1) e) :
    ∀ {best : Common}, best.Sound low as bs → (bestInRow best i entries).Sound low as bs := by
  induction entries with
  | nil => exact id
  | cons e entries ih =>
      intro best hbest
      obtain ⟨j, size⟩ := e
      have hentries := List.forall_mem_cons.mp hentries
      refine ih hentries.2 ?_
      split
      · obtain ⟨x, y, hx, hy, hagree⟩ := hentries.1
        change x + size = i + 1 at hx
        change low + y + size = j + 1 at hy
        change Agree as bs x y size at hagree
        have hold : i + 1 - size = x := by omega
        have hnew : j + 1 - size - low = y := by omega
        refine ⟨?_, ?_⟩
        · show low ≤ j + 1 - size
          omega
        · show Agree as bs (i + 1 - size) (j + 1 - size - low) size
          rwa [hold, hnew]
      · exact hbest

/-- Going through the old lines keeps the best stretch and the row sound. -/
theorem sound_bestFrom (hanchors : Anchors low as bs) {rest : List Anchored} :
    ∀ {best : Common} {i : Nat} {earlier : List (Nat × Nat)}, as.drop i = rest → best.Sound low as bs →
      (∀ e ∈ earlier, Entry low as bs i e) →
      (bestFrom low (low + bs.length) best i earlier rest).Sound low as bs := by
  induction rest with
  | nil => exact fun _ hbest _ => hbest
  | cons a rest ih =>
      intro best i earlier hrest hbest hearlier
      have ha : as[i]? = some a := by rw [← List.head?_drop, hrest]; rfl
      have hplaces := fun j => hanchors.mem_places (j := j) (List.mem_of_getElem? ha)
      have hentries := fun e => entry_row (e := e) ha hplaces hearlier
      refine ih ?_ (sound_bestInRow hentries hbest) hentries
      rw [← List.tail_drop, hrest, List.tail_cons]

/-- The lists agree in the stretch that is chosen. -/
theorem agree_longestCommon (hanchors : Anchors low as bs) :
    Agree as bs (longestCommon low as bs).old (longestCommon low as bs).new (longestCommon low as bs).size := by
  have hstart : Common.Sound low as bs ⟨0, low, 0⟩ :=
    ⟨Nat.le_refl low, by rw [Nat.sub_self]; exact Agree.empty as bs⟩
  have hfound : (bestFrom low (low + bs.length) ⟨0, low, 0⟩ 0 [] as).Sound low as bs :=
    sound_bestFrom hanchors List.drop_zero hstart fun e he => absurd he List.not_mem_nil
  obtain ⟨_, hbest⟩ := hfound
  unfold longestCommon
  set best := bestFrom low (low + bs.length) ⟨0, low, 0⟩ 0 [] as
  obtain ⟨hold, hnew, hback⟩ := agree_back as bs (x := best.old) (y := best.new - low)
    (by have := hbest.oldBound; omega) (by have := hbest.newBound; omega) rfl
  have hahead := agree_ahead as bs hbest.oldBound hbest.newBound
  have hfirst := hback.append
    (by rwa [Nat.sub_add_cancel hold, Nat.sub_add_cancel hnew] : Agree as bs _ _ best.size)
  refine hfirst.append ?_
  rw [← Nat.add_assoc, Nat.sub_add_cancel hold, ← Nat.add_assoc, Nat.sub_add_cancel hnew]
  exact hahead

/-! ## The segments of a script -/

theorem flatMap_old_changeOf (old new : List String) : (changeOf old new).flatMap Segment.old = old := by
  rw [changeOf]
  split
  · next h =>
      rw [Bool.and_eq_true, List.isEmpty_iff, List.isEmpty_iff] at h
      rw [h.1, List.flatMap_nil]
  · exact List.append_nil old

theorem flatMap_new_changeOf (old new : List String) : (changeOf old new).flatMap Segment.new = new := by
  rw [changeOf]
  split
  · next h =>
      rw [Bool.and_eq_true, List.isEmpty_iff, List.isEmpty_iff] at h
      rw [h.2, List.flatMap_nil]
  · exact List.append_nil new

theorem take_append_middle {α : Type} (xs : List α) (x size : Nat) :
    xs.take x ++ ((xs.drop x).take size ++ xs.drop (x + size)) = xs := by
  rw [← List.drop_drop, List.take_append_drop, List.take_append_drop]

theorem flatMap_old_scriptWithin (fuel : Nat) : ∀ (low : Nat) (as : List Anchored) (bs : List String),
    (scriptWithin fuel low as bs).flatMap Segment.old = as.map Anchored.line := by
  induction fuel with
  | zero => exact fun low as bs => flatMap_old_changeOf _ _
  | succ fuel ih =>
      intro low as bs
      rw [scriptWithin]
      split
      · exact flatMap_old_changeOf _ _
      · rw [List.flatMap_append, List.flatMap_cons, ih, ih, Segment.old, ← List.map_append, ← List.map_append,
          take_append_middle]

/-- The places stay those of equal lines when lines are cut off at the end of the new list. -/
theorem Anchors.take (h : Anchors low as bs) (x y : Nat) : Anchors low (as.take x) (bs.take y) where
  ascending a ha := h.ascending a (List.mem_of_mem_take ha)
  equal a ha j hj hlow hhigh := by
    rw [List.length_take] at hhigh
    rw [List.getElem?_take_of_lt (by omega)]
    exact h.equal a (List.mem_of_mem_take ha) j hj hlow (by omega)

/-- The places stay those of equal lines when lines are cut off at the front of the new list. -/
theorem Anchors.drop (h : Anchors low as bs) (x y : Nat) : Anchors (low + y) (as.drop x) (bs.drop y) where
  ascending a ha := h.ascending a (List.mem_of_mem_drop ha)
  equal a ha j hj hlow hhigh := by
    rw [List.length_drop] at hhigh
    have hplace : y + (j - (low + y)) = j - low := by omega
    rw [List.getElem?_drop, hplace]
    exact h.equal a (List.mem_of_mem_drop ha) j hj (by omega) (by omega)

theorem flatMap_new_scriptWithin (fuel : Nat) : ∀ {low : Nat} {as : List Anchored} {bs : List String},
    Anchors low as bs → (scriptWithin fuel low as bs).flatMap Segment.new = bs := by
  induction fuel with
  | zero => exact fun _ => flatMap_new_changeOf _ _
  | succ fuel ih =>
      intro low as bs hanchors
      rw [scriptWithin]
      split
      · exact flatMap_new_changeOf _ _
      · rw [List.flatMap_append, List.flatMap_cons, ih (hanchors.take _ _), ih (hanchors.drop _ _), Segment.new,
          (agree_longestCommon hanchors).lines, take_append_middle]

/-- Putting stretches together changes no lines. -/
theorem flatMap_joinSame (f : Segment → List String) (hf : ∀ lines, f (.same lines) = lines)
    (segments : List Segment) : (joinSame segments).flatMap f = segments.flatMap f := by
  fun_induction joinSame segments with
  | case1 a rest b others hrest ih =>
      rw [List.flatMap_cons, List.flatMap_cons, ← ih, hrest, List.flatMap_cons, hf, hf, hf, List.append_assoc]
  | case2 a rest hrest ih => rw [List.flatMap_cons, List.flatMap_cons, ih]
  | case3 s rest hs ih => rw [List.flatMap_cons, List.flatMap_cons, ih]
  | case4 => rfl

theorem mem_placesFrom {place j : Nat} {line : String} {bs : List String} (h : j ∈ placesFrom place line bs) :
    place ≤ j ∧ bs[j - place]? = some line := by
  induction bs generalizing place with
  | nil => exact absurd h List.not_mem_nil
  | cons b bs ih =>
      have hlater : j ∈ placesFrom (place + 1) line bs → place ≤ j ∧ (b :: bs)[j - place]? = some line := by
        intro h
        obtain ⟨hplace, hline⟩ := ih h
        have hnext : j - place = j - (place + 1) + 1 := by omega
        exact ⟨by omega, by rw [hnext, List.getElem?_cons_succ, hline]⟩
      rw [placesFrom] at h
      split at h
      · next heq =>
          rcases List.mem_cons.mp h with rfl | h
          · exact ⟨Nat.le_refl j, by rw [Nat.sub_self, List.getElem?_cons_zero, beq_iff_eq.mp heq]⟩
          · exact hlater h
      · exact hlater h

theorem pairwise_placesFrom (place : Nat) (line : String) (bs : List String) :
    (placesFrom place line bs).Pairwise (· < ·) := by
  induction bs generalizing place with
  | nil => exact List.Pairwise.nil
  | cons b bs ih =>
      rw [placesFrom]
      split
      · refine List.pairwise_cons.mpr ⟨fun j hj => ?_, ih (place + 1)⟩
        have := (mem_placesFrom hj).1
        omega
      · exact ih (place + 1)

theorem anchors_sublist (bs : List String) (line : String) :
    (anchors bs line).Sublist (placesFrom 0 line bs) := by
  rw [anchors]
  split
  · exact List.nil_sublist _
  · exact List.Sublist.refl _

theorem anchors_of_map (as bs : List String) :
    Anchors 0 (as.map fun line => ⟨line, anchors bs line⟩) bs where
  ascending a ha := by
    obtain ⟨line, _, rfl⟩ := List.mem_map.mp ha
    exact (pairwise_placesFrom 0 line bs).sublist (anchors_sublist bs line)
  equal a ha j hj _ _ := by
    obtain ⟨line, _, rfl⟩ := List.mem_map.mp ha
    exact (mem_placesFrom ((anchors_sublist bs line).subset hj)).2

/-- A script holds the old lines, all of them and in order. -/
theorem script_old (as bs : List String) : (script as bs).flatMap Segment.old = as := by
  rw [script, flatMap_joinSame Segment.old fun _ => rfl, flatMap_old_scriptWithin, List.map_map]
  exact List.map_id as

/-- A script holds the new lines, all of them and in order. -/
theorem script_new (as bs : List String) : (script as bs).flatMap Segment.new = bs := by
  rw [script, flatMap_joinSame Segment.new fun _ => rfl, flatMap_new_scriptWithin _ (anchors_of_map as bs)]

end IdiomLint.Diff
