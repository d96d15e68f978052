import IdiomLint.File.Collection
import IdiomLint.Proofs.Outcome
import IdiomLint.Proofs.Text.Sorted

/-!
# Collected files

Collecting files writes nothing, and what is collected are absolute paths.
-/

namespace IdiomLint

theorem mem_of_filterAuxM {ε α : Type} {p : α → Except ε Bool} {xs : List α} :
    ∀ {acc ys : List α}, xs.filterAuxM p acc = .ok ys → ∀ y ∈ ys, y ∈ xs ∨ y ∈ acc := by
  induction xs with
  | nil =>
      intro acc ys h y hy
      cases h
      exact Or.inr hy
  | cons x xs ih =>
      intro acc ys h y hy
      rw [List.filterAuxM] at h
      obtain ⟨keep, _, h⟩ := bind_eq_ok.mp h
      rcases ih h y hy with hy | hy
      · exact Or.inl (List.mem_cons_of_mem x hy)
      · cases keep with
        | true =>
            rcases List.mem_cons.mp hy with rfl | hy
            · exact Or.inl List.mem_cons_self
            · exact Or.inr hy
        | false => exact Or.inr hy

/-- A filter that can fail keeps some of the items. -/
theorem mem_of_filterM {ε α : Type} {p : α → Except ε Bool} {xs ys : List α}
    (h : xs.filterM p = .ok ys) : ∀ y ∈ ys, y ∈ xs := by
  intro y hy
  obtain ⟨kept, hkept, h⟩ := bind_eq_ok.mp h
  cases h
  rcases mem_of_filterAuxM hkept y (List.mem_reverse.mp hy) with hy | hy
  · exact hy
  · exact absurd hy List.not_mem_nil

theorem readOnly_collectUnder (a : Adapter) (d : Disk) (c : Config) (path : String) :
    (collectUnder a d c path).ReadOnly := by
  unfold collectUnder
  split
  · exact Outcome.readOnly_ofExcept _
  · exact (Outcome.readOnly_notify _).bind fun _ => Outcome.readOnly_pure _

theorem readOnly_collectFiles (adapter : Option Adapter) (d : Disk) (c : Config) (paths : List String) :
    (collectFiles adapter d c paths).ReadOnly := by
  rw [collectFiles.eq_def]
  split
  · exact (Outcome.readOnly_notify _).bind fun _ => Outcome.readOnly_pure _
  · next a =>
      exact (Outcome.ReadOnly.mapM (readOnly_collectUnder a d c) paths).bind
        fun _ => Outcome.readOnly_pure _

theorem absolute_of_collectUnder {a : Adapter} {d : Disk} {c : Config} {path : String}
    {files : List String} (h : (collectUnder a d c path).result = .ok files) :
    ∀ f ∈ files, ∃ p, f = d.absolute p := by
  intro f hf
  rw [collectUnder] at h
  split at h
  · obtain ⟨globs, _, h⟩ := bind_eq_ok.mp h
    obtain ⟨p, _, hp⟩ := List.mem_map.mp (mem_of_filterM h f hf)
    exact ⟨p, hp.symm⟩
  · cases h
    exact absurd hf List.not_mem_nil

/-- Every collected file is given by its absolute path. -/
theorem absolute_of_collectFiles {adapter : Option Adapter} {d : Disk} {c : Config} {paths : List String}
    {files : List String} (h : (collectFiles adapter d c paths).result = .ok files) :
    ∀ f ∈ files, ∃ p, f = d.absolute p := by
  intro f hf
  rw [collectFiles.eq_def] at h
  split at h
  · cases h
    exact absurd hf List.not_mem_nil
  · obtain ⟨found, hfound, h⟩ := Outcome.result_bind_eq_ok.mp h
    cases h
    obtain ⟨under, hunder, hf⟩ := List.mem_flatten.mp (mem_sortDistinct.mp hf)
    obtain ⟨path, _, hpath⟩ := Outcome.exists_of_result_mapM hfound under hunder
    exact absolute_of_collectUnder hpath f hf

end IdiomLint
