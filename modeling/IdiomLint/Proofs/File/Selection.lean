import IdiomLint.Proofs.File.Exclusion
import IdiomLint.Proofs.File.Walk
import IdiomLint.Proofs.Path.Entries

/-!
# Which files are collected

A file is seen from a path that leads to it, and from a path that leads to a directory above it if no directory in
between is hidden (`Disk.Seen`). It is collected if it is seen from one of the given paths, its name has an ending of
the language, and the names on the way down from that path are spared (`Disk.Collects`).

Main statement: the collected files are in order, each of them once, and they are just these (`collectFiles_selects`).
-/

namespace IdiomLint

/-- A name that ends like those of the files of the language. -/
def IsRubyName (name : String) : Prop := ∃ ending ∈ [".rb", ".rake", ".gemspec"], ending.toList <:+ name.toList

theorem accepts_rubyAdapter {name : String} : rubyAdapter.accepts name = true ↔ IsRubyName name := by
  simp only [Adapter.accepts, rubyAdapter, List.any_eq_true, List.isSuffixOf_iff_suffix, IsRubyName]

/-- Whether a path is one of a file of the language is decided by its last name. -/
theorem isRubyName_baseName {path : String} : IsRubyName (Path.baseName path) ↔ IsRubyName path := by
  refine exists_congr fun ending => and_congr_right fun hending => ?_
  have hslash : '/' ∉ ending.toList := by
    simp only [List.mem_cons, List.not_mem_nil, or_false] at hending
    rcases hending with rfl | rfl | rfl <;> decide
  exact (Path.suffix_baseName_iff hslash path).symm

namespace Disk

/-- A disk as there can be one: names are proper and no directory has two entries of one name. -/
structure Regular (d : Disk) : Prop where
  proper : d.Proper
  distinct : d.root.Distinct
  tidy : d.root.Tidy

/-- A file is seen from a path: it is what the path leads to, or it is below the directory that the path leads to, with
no hidden directory in between. Given are the names from the root to the file, those of the directories in between, and
its own. -/
inductive Seen (d : Disk) (p : String) : List String → List String → String → Prop
  | itself {front : List String} {name : String} (hfile : d.isFile p = true) (hplace : d.place p = front ++ [name]) :
    Seen d p (front ++ [name]) [] name
  | below {way : List String} {name : String} {content : List UInt8} (hdirectory : d.isDirectory p = true)
    (hfile : d.root.get? (d.place p ++ (way ++ [name])) = some (.file content))
    (hway : ∀ dir ∈ way, ¬ FileTree.IsHidden dir) : Seen d p (d.place p ++ (way ++ [name])) way name

/-- From a path, a file is collected that is seen from it, has a name of the language and is spared by the names on the
way down to it. -/
def Collects (d : Disk) (globs : List String) (p : String) (ns : List String) : Prop :=
  ∃ way name, d.Seen p ns way name ∧ IsRubyName name ∧ Exclusion.Spared globs (way ++ [name])

variable {d : Disk}

/-! ## Places -/

theorem absolute_eq (hd : d.Proper) (p : String) : d.absolute p = Path.extraSlash p ++ Path.ofNames (d.place p) := by
  rw [absolute, Path.absolute, place_eq_names, here, Path.extraSlash_join_ofNames hd]

theorem place_join {p name : String} (hp : p ≠ "") (h : Path.Proper name) :
    d.place (Path.join p name) = d.place p ++ [name] := by
  rw [place_eq_names, place_eq_names, Path.join_join hp (Path.isAbsolute_of_noSlash h.noSlash),
    Path.names_join_of_proper h]

/-- A way of proper names leads on from the place of a path, with the same slashes in front. -/
theorem foldl_join {way : List String} : (∀ name ∈ way, Path.Proper name) → ∀ {p : String}, p ≠ "" →
    d.place (way.foldl Path.join p) = d.place p ++ way ∧
      Path.extraSlash (way.foldl Path.join p) = Path.extraSlash p := by
  induction way with
  | nil => exact fun _ p _ => ⟨(List.append_nil _).symm, rfl⟩
  | cons name way ih =>
      intro hway p hp
      obtain ⟨hname, hway⟩ := List.forall_mem_cons.mp hway
      obtain ⟨hplace, hslash⟩ := ih hway (Path.join_ne_empty hname p)
      refine ⟨?_, hslash.trans (Path.extraSlash_join hname p)⟩
      rw [List.foldl_cons, hplace, place_join hp hname, List.append_assoc, List.singleton_append]

/-- The absolute path of a file below a directory. -/
theorem absolute_foldl_join (hd : d.Proper) {way : List String} {name p : String}
    (hway : ∀ n ∈ way ++ [name], Path.Proper n) (hp : p ≠ "") :
    d.absolute (Path.join (way.foldl Path.join p) name) =
      Path.extraSlash p ++ Path.ofNames (d.place p ++ (way ++ [name])) := by
  obtain ⟨hplace, hslash⟩ := foldl_join (d := d) hway hp
  rw [List.foldl_append, List.foldl_cons, List.foldl_nil] at hplace hslash
  rw [absolute_eq hd, hplace, hslash]

/-! ## What a path leads to -/

theorem get?_of_find (hd : d.Proper) {p : String} {t : FileTree} (h : d.find p = .ok t) :
    d.root.get? (d.place p) = some t := by
  obtain ⟨names, hnames, hfound⟩ := exists_of_find h
  rw [← follow_eq_place hd hnames]
  exact hfound

theorem ne_empty_of_find {p : String} {t : FileTree} (h : d.find p = .ok t) : p ≠ "" := by
  rintro rfl
  obtain ⟨names, hnames, _⟩ := exists_of_find h
  exact absurd hnames (by simp [follow])

theorem isFile_iff {p : String} : d.isFile p = true ↔ ∃ content, d.find p = .ok (.file content) := by
  rw [isFile]
  split <;> simp_all

theorem isDirectory_iff {p : String} :
    d.isDirectory p = true ↔ ∃ entries, d.find p = .ok (.directory entries) := by
  rw [isDirectory]
  split <;> simp_all

/-- The last step to a file is made by its name. -/
theorem eq_append_of_step {names next : List String} {name : String} {content : List UInt8}
    (h : d.step names name = .ok next) (hfile : d.root.get? next = some (.file content)) : next = names ++ [name] := by
  rw [step] at h
  split at h
  · exact absurd h (by simp)
  · exact absurd h (by simp)
  · next entries hdirectory =>
      split at h
      · exact absurd h (by simp)
      · rw [Except.ok.injEq] at h
        subst h
        by_cases hhere : (name == "" || name == ".") = true
        · rw [if_pos hhere, hdirectory] at hfile
          exact absurd hfile (by simp)
        · rw [if_neg hhere] at hfile ⊢
          by_cases hparent : (name == "..") = true
          · -- What is above a directory is a directory.
            rw [if_pos hparent] at hfile
            rcases List.eq_nil_or_concat names with rfl | ⟨above, last, rfl⟩
            · exact absurd (hdirectory.symm.trans hfile) (by simp)
            · rw [List.concat_eq_append] at hdirectory hfile
              obtain ⟨inner, hinner⟩ := FileTree.exists_directory_of_get? (List.cons_ne_nil last []) hdirectory
              rw [List.dropLast_concat, hinner] at hfile
              exact absurd hfile (by simp)
          · rw [if_neg hparent]

/-- The last name of a path that leads to a file is the name of the file. -/
theorem exists_place_of_file (hd : d.Proper) {p : String} {content : List UInt8} (h : d.find p = .ok (.file content)) :
    ∃ front, d.place p = front ++ [Path.baseName p] := by
  obtain ⟨names, hnames, hfile⟩ := exists_of_find h
  obtain ⟨front, hpieces⟩ := Path.exists_pieces p
  have hplace := follow_eq_place hd hnames
  rw [follow] at hnames
  split at hnames
  · exact absurd hnames (by simp)
  · split at hnames
    · exact absurd hnames (by simp)
    · rw [hpieces, List.foldlM_append] at hnames
      obtain ⟨before, _, hlast⟩ := bind_eq_ok.mp hnames
      rw [List.foldlM_cons] at hlast
      obtain ⟨last, hstep, hlast⟩ := bind_eq_ok.mp hlast
      cases hlast
      exact ⟨before, hplace.symm.trans (eq_append_of_step hstep hfile)⟩

/-- What is visible in the directory that a path leads to lies below the place of the path. -/
theorem visible_iff_place (hd : d.Proper) {p : String} {entries : List (String × FileTree)}
    (h : d.find p = .ok (.directory entries)) {way : List String} {name : String} :
    (FileTree.directory entries).Visible way name ↔
      (∃ content, d.root.get? (d.place p ++ (way ++ [name])) = some (.file content)) ∧
        ∀ dir ∈ way, ¬ FileTree.IsHidden dir := by
  rw [FileTree.visible_iff, FileTree.get?_append d.root, get?_of_find hd h, Option.bind_some]

/-! ## Files that are seen -/

/-- The names of a file that is seen from a path are proper. -/
theorem Seen.proper (hd : d.Regular) {p : String} {ns way : List String} {name : String} (h : d.Seen p ns way name) :
    ∀ n ∈ ns, Path.Proper n := by
  cases h with
  | itself _ hplace =>
      rw [← hplace, place_eq_names]
      exact Path.proper_of_mem_names
  | below hdirectory hfile hway =>
      obtain ⟨entries, hfind⟩ := isDirectory_iff.mp hdirectory
      have hvisible := (visible_iff_place hd.proper hfind).mpr ⟨⟨_, hfile⟩, hway⟩
      refine List.forall_mem_append.mpr ⟨?_, hvisible.proper (hd.tidy.get? (get?_of_find hd.proper hfind))⟩
      rw [place_eq_names]
      exact Path.proper_of_mem_names

/-- The names on the way down are those below the directory that the files under the path are seen from. -/
theorem Seen.names_scanRoot {p : String} {ns way : List String} {name : String}
    (h : d.Seen p ns way name) : ns = Path.names (scanRoot d p) ++ (way ++ [name]) := by
  cases h with
  | itself hfile hplace =>
      obtain ⟨content, hfind⟩ := isFile_iff.mp hfile
      have hno : d.isDirectory p = false := by
        rw [isDirectory, hfind]
      rw [place_eq_names] at hplace
      rw [scanRoot, if_neg (by rw [hno]; exact Bool.false_ne_true), absolute,
        Path.names_directoryName_absolute hplace, List.nil_append]
  | below hdirectory _ _ =>
      rw [scanRoot, if_pos hdirectory]
      rfl

/-- What is found under a path is seen from it. -/
theorem exists_seen (hd : d.Regular) {p g : String} (hg : g ∈ rubyAdapter.filesUnder d p) :
    ∃ ns way name, d.Seen p ns way name ∧ IsRubyName name ∧ d.absolute g = Path.extraSlash p ++ Path.ofNames ns := by
  rw [Adapter.filesUnder] at hg
  split at hg
  · next content hfind =>
      obtain ⟨hg, haccepts⟩ := List.mem_filter.mp hg
      rw [List.mem_singleton.mp hg] at haccepts ⊢
      obtain ⟨front, hplace⟩ := exists_place_of_file hd.proper hfind
      refine ⟨_, _, _, .itself (isFile_iff.mpr ⟨content, hfind⟩) hplace, ?_, ?_⟩
      · exact isRubyName_baseName.mpr (accepts_rubyAdapter.mp haccepts)
      · rw [absolute_eq hd.proper, hplace]
  · next entries hfind =>
      obtain ⟨hg, haccepts⟩ := List.mem_filter.mp hg
      have hat := get?_of_find hd.proper hfind
      obtain ⟨way, name, hvisible, rfl⟩ := (FileTree.mem_filesBelow_iff (hd.distinct.get? hat)).mp hg
      have hnames := hvisible.proper (hd.tidy.get? hat)
      obtain ⟨⟨content, hfile⟩, hway⟩ := (visible_iff_place hd.proper hfind).mp hvisible
      refine ⟨_, way, name, .below (isDirectory_iff.mpr ⟨entries, hfind⟩) hfile hway, ?_, ?_⟩
      · rw [Path.baseName_join (hnames name (by simp))] at haccepts
        exact accepts_rubyAdapter.mp haccepts
      · exact absolute_foldl_join hd.proper hnames (ne_empty_of_find hfind)
  · exact absurd hg List.not_mem_nil

/-- What is seen from a path is found under it. -/
theorem Seen.exists_mem (hd : d.Regular) {p : String} {ns way : List String} {name : String}
    (h : d.Seen p ns way name) (hname : IsRubyName name) :
    ∃ g ∈ rubyAdapter.filesUnder d p, d.absolute g = Path.extraSlash p ++ Path.ofNames ns := by
  cases h with
  | @itself front _ hfile hplace =>
      obtain ⟨content, hfind⟩ := isFile_iff.mp hfile
      obtain ⟨front', hplace'⟩ := exists_place_of_file hd.proper hfind
      have hlast : name = Path.baseName p :=
        List.singleton_inj.mp (List.append_inj' (hplace.symm.trans hplace') rfl).2
      refine ⟨p, ?_, by rw [absolute_eq hd.proper, hplace]⟩
      simp only [Adapter.filesUnder, hfind]
      refine List.mem_filter.mpr ⟨List.mem_singleton_self p, ?_⟩
      exact accepts_rubyAdapter.mpr (isRubyName_baseName.mp (hlast ▸ hname))
  | below hdirectory hfile hway =>
      obtain ⟨entries, hfind⟩ := isDirectory_iff.mp hdirectory
      have hvisible := (visible_iff_place hd.proper hfind).mpr ⟨⟨_, hfile⟩, hway⟩
      have hnames := hvisible.proper (hd.tidy.get? (get?_of_find hd.proper hfind))
      refine ⟨_, ?_, absolute_foldl_join hd.proper hnames (ne_empty_of_find hfind)⟩
      simp only [Adapter.filesUnder, hfind]
      refine List.mem_filter.mpr ⟨hvisible.mem_filesBelow p, ?_⟩
      rw [Path.baseName_join (hnames name (by simp))]
      exact accepts_rubyAdapter.mpr hname

/-- A path from which a file is seen exists. -/
theorem Seen.has {p : String} {ns way : List String} {name : String} (h : d.Seen p ns way name) : d.has p = true := by
  cases h with
  | itself hfile _ =>
      obtain ⟨content, hfind⟩ := isFile_iff.mp hfile
      rw [Disk.has, hfind]
  | below hdirectory _ _ =>
      obtain ⟨entries, hfind⟩ := isDirectory_iff.mp hdirectory
      rw [Disk.has, hfind]

end Disk

/-! ## Files that are collected -/

/-- The files collected under one path. -/
def collected (d : Disk) (globs : List String) (p : String) : List String :=
  if d.has p then Exclusion.keep ((rubyAdapter.filesUnder d p).map d.absolute) (scanRoot d p) globs else []

variable {d : Disk} {c : Config} {globs : List String}

theorem collectUnder_eq (hc : c.exclude = .list (globs.map .text)) (p : String) :
    (collectUnder rubyAdapter d c p).result = .ok (collected d globs p) := by
  rw [collectUnder, collected]
  split
  · exact c.keepFiles_texts hc _ _
  · rfl

theorem collectFiles_eq (hc : c.exclude = .list (globs.map .text)) (paths : List String) :
    (collectFiles (some rubyAdapter) d c paths).result = .ok (sortDistinct (paths.flatMap (collected d globs))) := by
  have hall : (paths.mapM (collectUnder rubyAdapter d c)).result = .ok (paths.map (collected d globs)) := by
    refine Outcome.result_mapM_of_forall₂ (List.forall₂_map_right_iff.mpr ?_)
    exact List.forall₂_same.mpr fun p _ => collectUnder_eq hc p
  exact Outcome.result_bind_eq_ok.mpr ⟨_, hall, rfl⟩

theorem mem_collected_iff (hd : d.Regular) {p f : String} :
    f ∈ collected d globs p ↔ ∃ ns, f = Path.extraSlash p ++ Path.ofNames ns ∧ d.Collects globs p ns := by
  -- Both tests of a file that is seen are about the names on the way down to it.
  have hkeep {ns way : List String} {name : String} (hseen : d.Seen p ns way name) {files : List String} :
      Path.extraSlash p ++ Path.ofNames ns ∈ Exclusion.keep files (scanRoot d p) globs ↔
        Path.extraSlash p ++ Path.ofNames ns ∈ files ∧ Exclusion.Spared globs (way ++ [name]) :=
    Exclusion.mem_keep (by simp) ((Path.names_extraSlash (hseen.proper hd) p).trans hseen.names_scanRoot)
  rw [collected]
  constructor
  · intro hf
    split at hf
    · obtain ⟨g, hg, rfl⟩ := List.mem_map.mp (List.mem_filter.mp hf).1
      obtain ⟨ns, way, name, hseen, hname, heq⟩ := Disk.exists_seen hd hg
      rw [heq] at hf ⊢
      exact ⟨ns, rfl, way, name, hseen, hname, ((hkeep hseen).mp hf).2⟩
    · exact absurd hf List.not_mem_nil
  · rintro ⟨ns, rfl, way, name, hseen, hname, hspared⟩
    rw [if_pos hseen.has]
    exact (hkeep hseen).mpr ⟨List.mem_map.mpr (hseen.exists_mem hd hname), hspared⟩

/-- **The right files are collected.** Whatever the paths are, collecting gives a strictly increasing list of absolute
paths; the files in it are those that are collected from one of the given paths, each by its names from the root, with
one more slash in front if the given path begins with two; so a file is in the list exactly if it is collected from one
of the paths. Only which paths are given counts, not their order or how often they are. -/
theorem collectFiles_selects (hd : d.Regular) (hc : c.exclude = .list (globs.map .text)) (paths : List String) :
    ∃ files, (collectFiles (some rubyAdapter) d c paths).result = .ok files ∧
      files.Pairwise (· < ·) ∧ (∀ f ∈ files, Path.isAbsolute f = true) ∧
      (∀ f, f ∈ files ↔ ∃ p ∈ paths, ∃ ns, f = Path.extraSlash p ++ Path.ofNames ns ∧ d.Collects globs p ns) ∧
      (∀ ns, (∃ f ∈ files, d.place f = ns) ↔ ∃ p ∈ paths, d.Collects globs p ns) ∧
      ∀ others, (∀ p, p ∈ others ↔ p ∈ paths) →
        (collectFiles (some rubyAdapter) d c others).result = .ok files := by
  have hmem (f : String) : f ∈ sortDistinct (paths.flatMap (collected d globs)) ↔
      ∃ p ∈ paths, ∃ ns, f = Path.extraSlash p ++ Path.ofNames ns ∧ d.Collects globs p ns := by
    rw [mem_sortDistinct, List.mem_flatMap]
    exact exists_congr fun p => and_congr_right fun _ => mem_collected_iff hd
  have hplace {p : String} {ns : List String} (h : d.Collects globs p ns) :
      d.place (Path.extraSlash p ++ Path.ofNames ns) = ns := by
    obtain ⟨way, name, hseen, _⟩ := h
    rw [Disk.place_eq_names, Path.join_of_isAbsolute (Path.isAbsolute_extraSlash p ns),
      Path.names_extraSlash (hseen.proper hd)]
  refine ⟨_, collectFiles_eq hc paths, pairwise_sortDistinct _, ?_, hmem, ?_, ?_⟩
  · intro f hf
    obtain ⟨p, _, ns, rfl, _⟩ := (hmem f).mp hf
    exact Path.isAbsolute_extraSlash p ns
  · intro ns
    constructor
    · rintro ⟨f, hf, rfl⟩
      obtain ⟨p, hp, ns, rfl, hcollects⟩ := (hmem f).mp hf
      exact ⟨p, hp, by rwa [hplace hcollects]⟩
    · rintro ⟨p, hp, hcollects⟩
      exact ⟨_, (hmem _).mpr ⟨p, hp, ns, rfl, hcollects⟩, hplace hcollects⟩
  · intro others hothers
    rw [collectFiles_eq hc]
    refine congrArg Except.ok (sortDistinct_congr fun f => ?_)
    simp only [List.mem_flatMap, hothers]

/-- A disk with a program, a hidden directory and an excluded one, seen from the directory of the program. -/
def programDisk : Disk where
  root := .directory [("app", .directory [(".git", .directory [("b.rb", .file [])]), ("a.rb", .file []),
    ("notes.txt", .file []), ("tmp", .directory [("c.rb", .file [])])])]
  directory := ["app"]

theorem regular_programDisk : programDisk.Regular where
  proper := show ∀ name ∈ ["app"], Path.Proper name by decide
  distinct := by simp [programDisk, FileTree.Distinct, FileTree.DistinctAll]
  tidy := by
    simp only [programDisk, FileTree.Tidy, FileTree.TidyAll, and_true, true_and]
    decide

theorem collectFiles_selects_program : programDisk.Regular ∧
    ({} : Config).exclude = .list (([] : List String).map .text) ∧
    (collectFiles (some rubyAdapter) programDisk {} ["/app", "a.rb", "missing"]).result = .ok ["/app/a.rb"] ∧
    ∃ p ∈ ["/app", "a.rb", "missing"], programDisk.Collects [] p ["app", "a.rb"] := by
  have hc : ({} : Config).exclude = .list (([] : List String).map .text) := rfl
  have hfiles : (collectFiles (some rubyAdapter) programDisk {} ["/app", "a.rb", "missing"]).result =
      .ok ["/app/a.rb"] := by
    rw [collectFiles_eq hc]
    have hfound : ["/app", "a.rb", "missing"].flatMap (collected programDisk []) = ["/app/a.rb", "/app/a.rb"] := by
      decide +kernel
    rw [hfound, sortDistinct, sortTexts, List.mergeSort_of_pairwise (by decide)]
    decide
  refine ⟨regular_programDisk, hc, hfiles, ?_⟩
  obtain ⟨files, hresult, _, _, _, hplaces, _⟩ :=
    collectFiles_selects regular_programDisk hc ["/app", "a.rb", "missing"]
  rw [hfiles, Except.ok.injEq] at hresult
  refine (hplaces ["app", "a.rb"]).mp ⟨"/app/a.rb", hresult ▸ List.mem_cons_self, ?_⟩
  decide +kernel

end IdiomLint
