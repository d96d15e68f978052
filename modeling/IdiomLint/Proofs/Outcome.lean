import IdiomLint.Outcome
import IdiomLint.Proofs.Fallible

/-!
# Results and writes of outcomes

What a chain of outcomes gives and which files it writes, in terms of its parts. Only `emit` writes
anything, so most parts of a run are known to write nothing by their shape alone.
-/

namespace IdiomLint.Outcome

variable {ε α β γ : Type}

theorem map_id_outcome (x : Outcome ε α) : id <$> x = x := by
  obtain ⟨effects, result⟩ := x
  cases result with
  | error e => rfl
  | ok a => exact congrArg (Outcome.mk · (.ok a)) (List.append_nil effects)

theorem andThen_assoc (x : Outcome ε α) (f : α → Outcome ε β) (g : β → Outcome ε γ) :
    x >>= f >>= g = x >>= fun a => f a >>= g := by
  show (x.andThen f).andThen g = x.andThen fun a => (f a).andThen g
  unfold andThen
  cases x.result with
  | error e => rfl
  | ok a =>
      simp only
      cases (f a).result with
      | error e => rfl
      | ok b => simp only [List.append_assoc]

instance : LawfulMonad (Outcome ε) :=
  LawfulMonad.mk' (Outcome ε) map_id_outcome (fun _ _ => rfl) andThen_assoc

/-! ## Results -/

theorem result_bind_eq_ok {x : Outcome ε α} {f : α → Outcome ε β} {b : β} :
    (x >>= f).result = .ok b ↔ ∃ a, x.result = .ok a ∧ (f a).result = .ok b := by
  rw [result_bind, bind_eq_ok]

theorem result_mapError_eq_ok {ε' : Type} {f : ε → ε'} {x : Outcome ε α} {a : α} :
    (x.mapError f).result = .ok a ↔ x.result = .ok a := mapError_eq_ok

/-- Several outcomes succeed one by one. -/
theorem forall₂_of_result_mapM {f : α → Outcome ε β} {xs : List α} :
    ∀ {ys : List β}, (xs.mapM f).result = .ok ys →
      List.Forall₂ (fun x y => (f x).result = .ok y) xs ys := by
  induction xs with
  | nil =>
      intro ys h
      cases h
      exact .nil
  | cons x xs ih =>
      intro ys h
      rw [List.mapM_cons] at h
      obtain ⟨head, hhead, h⟩ := result_bind_eq_ok.mp h
      obtain ⟨tail, htail, h⟩ := result_bind_eq_ok.mp h
      cases h
      exact .cons hhead (ih htail)

theorem result_mapM_of_forall₂ {f : α → Outcome ε β} {xs : List α} {ys : List β}
    (h : List.Forall₂ (fun x y => (f x).result = .ok y) xs ys) : (xs.mapM f).result = .ok ys := by
  induction h with
  | nil => rfl
  | @cons x y xs ys hy _ ih =>
      rw [List.mapM_cons]
      exact result_bind_eq_ok.mpr ⟨y, hy, result_bind_eq_ok.mpr ⟨ys, ih, rfl⟩⟩

/-- Each of the results of several outcomes is the result of one of them. -/
theorem exists_of_result_mapM {f : α → Outcome ε β} {xs : List α} {ys : List β}
    (h : (xs.mapM f).result = .ok ys) : ∀ y ∈ ys, ∃ x ∈ xs, (f x).result = .ok y :=
  exists_mem_of_forall₂ (forall₂_of_result_mapM h)

/-- Several outcomes that can succeed with a property do so together. -/
theorem exists_result_mapM {f : α → Outcome ε β} {p : β → Prop} {xs : List α}
    (h : ∀ x ∈ xs, ∃ y, (f x).result = .ok y ∧ p y) :
    ∃ ys, (xs.mapM f).result = .ok ys ∧ ∀ y ∈ ys, p y := by
  induction xs with
  | nil => exact ⟨[], rfl, by simp⟩
  | cons x xs ih =>
      rw [List.forall_mem_cons] at h
      obtain ⟨⟨y, hy, hp⟩, h⟩ := h
      obtain ⟨ys, hys, hall⟩ := ih h
      exact ⟨y :: ys, result_mapM_of_forall₂ (.cons hy (forall₂_of_result_mapM hys)),
        List.forall_mem_cons.mpr ⟨hp, hall⟩⟩

/-! ## Writes -/

theorem mem_writes_bind {x : Outcome ε α} {f : α → Outcome ε β} {w : String × List UInt8} :
    w ∈ (x >>= f).writes ↔ w ∈ x.writes ∨ ∃ a, x.result = .ok a ∧ w ∈ (f a).writes := by
  show w ∈ (x.andThen f).writes ↔ _
  unfold andThen
  cases hresult : x.result with
  | error e => simp [writes]
  | ok a => simp [writes]

theorem writes_bind {x : Outcome ε α} {a : α} (hx : x.result = .ok a) (f : α → Outcome ε β) :
    (x >>= f).writes = x.writes ++ (f a).writes := by
  show (x.andThen f).writes = _
  unfold andThen
  rw [hx]
  simp [writes]

theorem writes_mapError {ε' : Type} (f : ε → ε') (x : Outcome ε α) :
    (x.mapError f).writes = x.writes := rfl

theorem mem_writes_mapM {f : α → Outcome ε β} {xs : List α} {w : String × List UInt8}
    (h : w ∈ (xs.mapM f).writes) : ∃ x ∈ xs, w ∈ (f x).writes := by
  induction xs with
  | nil => exact absurd h List.not_mem_nil
  | cons x xs ih =>
      rw [List.mapM_cons] at h
      rcases mem_writes_bind.mp h with h | ⟨y, _, h⟩
      · exact ⟨x, List.mem_cons_self, h⟩
      · rcases mem_writes_bind.mp h with h | ⟨ys, _, h⟩
        · obtain ⟨x', hx', h⟩ := ih h
          exact ⟨x', List.mem_cons_of_mem x hx', h⟩
        · exact absurd h List.not_mem_nil

/-- Several outcomes that succeed write what each of them writes, one after the other. -/
theorem writes_mapM {f : α → Outcome ε β} {xs : List α} : ∀ {ys : List β}, (xs.mapM f).result = .ok ys →
    (xs.mapM f).writes = xs.flatMap fun x => (f x).writes := by
  induction xs with
  | nil => exact fun _ => rfl
  | cons x xs ih =>
      intro ys h
      rw [List.mapM_cons] at h ⊢
      obtain ⟨head, hhead, h⟩ := result_bind_eq_ok.mp h
      obtain ⟨tail, htail, _⟩ := result_bind_eq_ok.mp h
      rw [writes_bind hhead, writes_bind htail, ih htail, List.flatMap_cons]
      exact congrArg _ (List.append_nil _)

/-- What one of several outcomes writes is written by all of them together if they succeed. -/
theorem mem_writes_mapM_of_mem {f : α → Outcome ε β} {xs : List α} {ys : List β}
    (h : (xs.mapM f).result = .ok ys) : ∀ x ∈ xs, ∀ w ∈ (f x).writes, w ∈ (xs.mapM f).writes := by
  intro x hx w hw
  rw [writes_mapM h]
  exact List.mem_flatMap.mpr ⟨x, hx, hw⟩

/-- The outcome writes no file. -/
def ReadOnly (x : Outcome ε α) : Prop := x.writes = []

/-- After a part that writes nothing, only the rest writes. -/
theorem ReadOnly.writes_bind {x : Outcome ε α} (h : x.ReadOnly) {a : α} (hx : x.result = .ok a)
    (f : α → Outcome ε β) : (x >>= f).writes = (f a).writes := by
  rw [Outcome.writes_bind hx, h, List.nil_append]

theorem ReadOnly.of_mem_writes_bind {x : Outcome ε α} (h : x.ReadOnly) {f : α → Outcome ε β}
    {w : String × List UInt8} (hw : w ∈ (x >>= f).writes) :
    ∃ a, x.result = .ok a ∧ w ∈ (f a).writes := by
  rw [mem_writes_bind, h] at hw
  rcases hw with hw | hw
  · exact absurd hw List.not_mem_nil
  · exact hw

/-- Before a rest that writes nothing, only the first part writes. -/
theorem writes_bind_of_readOnly {x : Outcome ε α} {f : α → Outcome ε β} (hf : ∀ a, (f a).ReadOnly) :
    (x >>= f).writes = x.writes := by
  show (x.andThen f).writes = x.writes
  unfold andThen
  cases x.result with
  | error e => rfl
  | ok a =>
      show (x.effects ++ (f a).effects).filterMap _ = x.writes
      rw [List.filterMap_append]
      exact (congrArg (x.writes ++ ·) (hf a)).trans (List.append_nil _)

theorem readOnly_pure (a : α) : (pure a : Outcome ε α).ReadOnly := rfl

theorem readOnly_ofExcept (r : Except ε α) : (ofExcept r).ReadOnly := rfl

theorem readOnly_notify (n : Notice) : (notify n : Outcome ε Unit).ReadOnly := rfl

theorem readOnly_notifyAll (ns : List Notice) : (notifyAll ns : Outcome ε Unit).ReadOnly := by
  rw [ReadOnly, writes, notifyAll, List.filterMap_map, List.filterMap_eq_nil_iff]
  intro n _
  rfl

theorem ReadOnly.bind {x : Outcome ε α} {f : α → Outcome ε β} (hx : x.ReadOnly) (hf : ∀ a, (f a).ReadOnly) :
    (x >>= f).ReadOnly := by
  rw [ReadOnly, writes_bind_of_readOnly hf]
  exact hx

theorem ReadOnly.mapM {f : α → Outcome ε β} (hf : ∀ a, (f a).ReadOnly) (xs : List α) :
    (xs.mapM f).ReadOnly := by
  rw [ReadOnly, List.eq_nil_iff_forall_not_mem]
  intro w hw
  obtain ⟨x, _, hw⟩ := mem_writes_mapM hw
  rw [hf x] at hw
  exact List.not_mem_nil hw

end IdiomLint.Outcome
