import IdiomLint.Proofs.File.Selection

/-!
# What stands under a resolved path

A resolved path leads to what its names lead to, one after the other, as long as it and its names are not too long
(`find_ofNames_iff`). Whether something is there, and whether it is a file, is thus a matter of the tree alone.
-/

namespace IdiomLint.Disk

variable {d : Disk}

/-- Neither a path nor one of its names is too long. -/
structure Fits (path : String) (ns : List String) : Prop where
  path : Utf8.size path ≤ pathLimit
  names : ∀ name ∈ ns, Utf8.size name ≤ nameLimit

/-! ## Following names -/

theorem step_empty_iff {names found : List String} :
    d.step names "" = .ok found ↔ (∃ entries, d.root.get? names = some (.directory entries)) ∧ found = names := by
  rw [step]
  cases hget : d.root.get? names with
  | none => simp
  | some t =>
      cases t with
      | file content => simp
      | directory entries =>
          have hsize : ¬ nameLimit < Utf8.size "" := by decide
          simp only [if_neg hsize]
          simp [eq_comm]

theorem step_proper_iff {name : String} (h : Path.Proper name) {names found : List String} :
    d.step names name = .ok found ↔ (∃ entries, d.root.get? names = some (.directory entries)) ∧
      Utf8.size name ≤ nameLimit ∧ found = names ++ [name] := by
  have hplain : (name == "" || name == ".") = false := by simp [h.nonempty, h.notHere]
  have hparent : (name == "..") = false := by simp [h.notParent]
  rw [step]
  cases hget : d.root.get? names with
  | none => simp
  | some t =>
      cases t with
      | file content => simp
      | directory entries =>
          simp only [hplain, hparent]
          split
          · next hlong => simp [hlong]
          · next hlong => simp [Nat.le_of_not_lt hlong, eq_comm]

/-- Proper names lead to what the tree has under them. -/
theorem foldlM_step_iff {ns : List String} (h : ∀ name ∈ ns, Path.Proper name) {before : List String} {t : FileTree} :
    (∃ found, ns.foldlM d.step before = .ok found ∧ d.root.get? found = some t) ↔
      (∀ name ∈ ns, Utf8.size name ≤ nameLimit) ∧ d.root.get? (before ++ ns) = some t := by
  induction ns generalizing before with
  | nil =>
      rw [List.append_nil]
      constructor
      · rintro ⟨found, hfound, hget⟩
        cases hfound
        exact ⟨by simp, hget⟩
      · rintro ⟨_, hget⟩
        exact ⟨before, rfl, hget⟩
  | cons name ns ih =>
      obtain ⟨hname, hns⟩ := List.forall_mem_cons.mp h
      have happend : before ++ name :: ns = (before ++ [name]) ++ ns := by simp
      rw [happend, List.forall_mem_cons, and_assoc, ← ih hns]
      constructor
      · rintro ⟨found, hfound, hget⟩
        rw [List.foldlM_cons] at hfound
        obtain ⟨next, hnext, hfound⟩ := bind_eq_ok.mp hfound
        obtain ⟨_, hsize, rfl⟩ := (step_proper_iff hname).mp hnext
        exact ⟨hsize, found, hfound, hget⟩
      · rintro ⟨hsize, found, hfound, hget⟩
        -- On the way there is a directory before the name.
        have hthere := ((ih hns).mp ⟨found, hfound, hget⟩).2
        rw [← happend] at hthere
        have hdirectory := FileTree.exists_directory_of_get? (List.cons_ne_nil name ns) hthere
        refine ⟨found, ?_, hget⟩
        rw [List.foldlM_cons]
        exact bind_eq_ok.mpr ⟨before ++ [name], (step_proper_iff hname).mpr ⟨hdirectory, hsize, rfl⟩, hfound⟩

/-! ## Resolved paths -/

/-- An empty piece in front asks for a directory at the root. -/
theorem foldlM_empty_iff {rest found : List String} :
    ("" :: rest).foldlM d.step [] = .ok found ↔
      (∃ entries, d.root = .directory entries) ∧ rest.foldlM d.step [] = .ok found := by
  rw [List.foldlM_cons, bind_eq_ok]
  constructor
  · rintro ⟨next, hnext, hfound⟩
    obtain ⟨⟨entries, hroot⟩, rfl⟩ := step_empty_iff.mp hnext
    exact ⟨⟨entries, Option.some.inj hroot⟩, hfound⟩
  · rintro ⟨⟨entries, hroot⟩, hfound⟩
    exact ⟨[], step_empty_iff.mpr ⟨⟨entries, congrArg some hroot⟩, rfl⟩, hfound⟩

/-- The pieces of a resolved path lead where its names lead from the root, which is a directory. -/
theorem foldlM_pieces_iff {ns : List String} (h : ∀ name ∈ ns, Path.Proper name) {p : String} {found : List String} :
    (Path.pieces (Path.extraSlash p ++ Path.ofNames ns)).foldlM d.step [] = .ok found ↔
      (∃ entries, d.root = .directory entries) ∧ ns.foldlM d.step [] = .ok found := by
  have hone : (Path.pieces (Path.ofNames ns)).foldlM d.step [] = .ok found ↔
      (∃ entries, d.root = .directory entries) ∧ ns.foldlM d.step [] = .ok found := by
    rw [Path.pieces_ofNames h, foldlM_empty_iff]
    refine and_congr_right fun hroot => ?_
    split
    · next hnil => rw [foldlM_empty_iff, and_iff_right hroot, hnil]
    · rfl
  rcases Path.extraSlash_eq p with hslash | hslash
  · rw [hslash, String.empty_append, hone]
  · have hpieces : Path.pieces ("/" ++ Path.ofNames ns) = "" :: Path.pieces (Path.ofNames ns) :=
      Path.pieces_append_slash "" (Path.ofNames ns)
    rw [hslash, hpieces, foldlM_empty_iff, hone, and_self_left]

/-- Only a directory has something below. -/
theorem exists_root_of_get? {ns : List String} (hne : ns ≠ []) {t : FileTree} (h : d.root.get? ns = some t) :
    ∃ entries, d.root = .directory entries := by
  have hbelow : d.root.get? ([] ++ ns) = some t := h
  obtain ⟨entries, hentries⟩ := FileTree.exists_directory_of_get? hne hbelow
  exact ⟨entries, Option.some.inj hentries⟩

theorem follow_of_isAbsolute (d : Disk) {path : String} (h : Path.isAbsolute path = true) : d.follow path =
    if pathLimit < Utf8.size path then .error .nameTooLong else (Path.pieces path).foldlM d.step [] := by
  have hempty : path.isEmpty = false := by
    rw [Bool.eq_false_iff, Ne, String.isEmpty_iff]
    exact Path.ne_empty_of_isAbsolute h
  rw [follow, hempty, h]
  rfl

/-- Under a resolved path stands what the tree has under its names. -/
theorem find_ofNames_iff {ns : List String} (h : ∀ name ∈ ns, Path.Proper name) {p : String} {t : FileTree} :
    d.find (Path.extraSlash p ++ Path.ofNames ns) = .ok t ↔
      Fits (Path.extraSlash p ++ Path.ofNames ns) ns ∧ (∃ entries, d.root = .directory entries) ∧
        d.root.get? ns = some t := by
  have hfollow := d.follow_of_isAbsolute (Path.isAbsolute_extraSlash p ns)
  have hns : (∃ found, ns.foldlM d.step [] = .ok found ∧ d.root.get? found = some t) ↔
      (∀ name ∈ ns, Utf8.size name ≤ nameLimit) ∧ d.root.get? ([] ++ ns) = some t := foldlM_step_iff h
  rw [List.nil_append] at hns
  constructor
  · intro hfind
    obtain ⟨found, hfound, hget⟩ := exists_of_find hfind
    rw [hfollow] at hfound
    split at hfound
    · exact absurd hfound (by simp)
    · next hlong =>
        obtain ⟨hroot, hfound⟩ := (foldlM_pieces_iff h).mp hfound
        obtain ⟨hnames, hget⟩ := hns.mp ⟨found, hfound, hget⟩
        exact ⟨⟨Nat.le_of_not_lt hlong, hnames⟩, hroot, hget⟩
  · rintro ⟨⟨hpath, hnames⟩, hroot, hget⟩
    obtain ⟨found, hfound, hget⟩ := hns.mpr ⟨hnames, hget⟩
    have hto : d.follow (Path.extraSlash p ++ Path.ofNames ns) = .ok found := by
      rw [hfollow, if_neg (Nat.not_lt.mpr hpath)]
      exact (foldlM_pieces_iff h).mpr ⟨hroot, hfound⟩
    rw [find_of_follow hto, hget]

/-- Something is there under a resolved path, other than that of the root, if the tree has something under its names. -/
theorem has_ofNames_iff {ns : List String} (h : ∀ name ∈ ns, Path.Proper name) (hne : ns ≠ []) {p : String} :
    d.has (Path.extraSlash p ++ Path.ofNames ns) = true ↔
      Fits (Path.extraSlash p ++ Path.ofNames ns) ns ∧ (d.root.get? ns).isSome = true := by
  have hhas : d.has (Path.extraSlash p ++ Path.ofNames ns) = true ↔
      ∃ t, d.find (Path.extraSlash p ++ Path.ofNames ns) = .ok t := by
    rw [has]
    split <;> simp_all
  rw [hhas, Option.isSome_iff_exists]
  constructor
  · rintro ⟨t, hfind⟩
    obtain ⟨hfits, _, hget⟩ := (find_ofNames_iff h).mp hfind
    exact ⟨hfits, t, hget⟩
  · rintro ⟨hfits, t, hget⟩
    exact ⟨t, (find_ofNames_iff h).mpr ⟨hfits, exists_root_of_get? hne hget, hget⟩⟩

/-- There is a file under a resolved path if it is not that of the root and the tree has a file under its names. -/
theorem isFile_ofNames_iff {ns : List String} (h : ∀ name ∈ ns, Path.Proper name) {p : String} :
    d.isFile (Path.extraSlash p ++ Path.ofNames ns) = true ↔ ns ≠ [] ∧
      Fits (Path.extraSlash p ++ Path.ofNames ns) ns ∧ ∃ content, d.root.get? ns = some (.file content) := by
  rw [isFile_iff]
  constructor
  · rintro ⟨content, hfind⟩
    obtain ⟨hfits, ⟨entries, hroot⟩, hget⟩ := (find_ofNames_iff h).mp hfind
    refine ⟨?_, hfits, content, hget⟩
    rintro rfl
    rw [hroot, FileTree.get?] at hget
    exact absurd hget (by simp)
  · rintro ⟨hne, hfits, content, hget⟩
    exact ⟨content, (find_ofNames_iff h).mpr ⟨hfits, exists_root_of_get? hne hget, hget⟩⟩

end IdiomLint.Disk
