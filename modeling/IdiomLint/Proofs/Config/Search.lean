import Mathlib.Data.List.Find
import IdiomLint.Config.Search
import IdiomLint.Proofs.File.Lookup
import IdiomLint.Proofs.Path.Parents

/-!
# The nearest configuration file

The candidates for the configuration file are met by going up: look in a directory, then in the one above it, and stop
at the one that has nothing above it (`searchUp`, `findFile_eq_searchUp`). So what is found is the first file in the
first directory that has any (`searchUp_eq_some_iff`, `searchUp_eq_none_iff`), and only what stands in the directories
looked into counts (`SameOnTheWay.findFile_eq`).

Main statement: `findFile_nearest`.
-/

namespace IdiomLint.Config

/-! ## Going up -/

/-- The configuration file that counts in a directory. -/
def chosenIn (d : Disk) (directory : String) : Option String :=
  (fileNames.map (Path.join directory)).find? d.has

/-- Search a directory and, as long as nothing is found and there is one, the directory above. -/
def searchUp (d : Disk) (directory : String) : Option String :=
  match chosenIn d directory with
  | some path => some path
  | none =>
    if Path.directoryName directory = directory then none else searchUp d (Path.directoryName directory)
termination_by directory.length
decreasing_by exact Path.length_directoryName_lt ‹_›

/-- The directory where the search begins: the place itself, or the directory that holds it if it is a file. -/
def firstDirectory (d : Disk) (start : String) : String :=
  if d.isFile (d.absolute start) then Path.directoryName (d.absolute start) else d.absolute start

/-- The directories from the first one on, each above the one before. -/
def directoryAbove (d : Disk) (start : String) (k : Nat) : String :=
  Path.directoryName^[k] (firstDirectory d start)

/-- There is a configuration file in a directory. -/
def Holds (d : Disk) (directory : String) : Prop := ∃ name ∈ fileNames, d.has (Path.join directory name) = true

variable {d : Disk}

/-! ## One directory -/

theorem proper_of_mem_fileNames : ∀ name ∈ fileNames, Path.Proper name := by decide +kernel

theorem chosenIn_eq_none_iff {directory : String} : chosenIn d directory = none ↔ ¬ Holds d directory := by
  simp [chosenIn, Holds]

/-- The first name counts that has a file. -/
theorem chosenIn_eq_some_iff {directory path : String} :
    chosenIn d directory = some path ↔ ∃ before name after, fileNames = before ++ name :: after ∧
      path = Path.join directory name ∧ d.has path = true ∧
      ∀ other ∈ before, d.has (Path.join directory other) = false := by
  rw [chosenIn, List.find?_eq_some_iff_append]
  constructor
  · rintro ⟨hhas, front, back, heq, hfront⟩
    obtain ⟨before, rest, hnames, rfl, hrest⟩ := List.map_eq_append_iff.mp heq
    obtain ⟨name, after, rfl, rfl, rfl⟩ := List.map_eq_cons_iff.mp hrest
    refine ⟨before, name, after, hnames, rfl, hhas, ?_⟩
    intro other hother
    simpa using hfront _ (List.mem_map_of_mem hother)
  · rintro ⟨before, name, after, hnames, rfl, hhas, hbefore⟩
    refine ⟨hhas, before.map (Path.join directory), after.map (Path.join directory), ?_, ?_⟩
    · rw [hnames, List.map_append, List.map_cons]
    · intro candidate hcandidate
      obtain ⟨other, hother, rfl⟩ := List.mem_map.mp hcandidate
      rw [hbefore other hother]
      rfl

/-! ## All directories -/

theorem searchUp_eq_or (d : Disk) (directory : String) : searchUp d directory = (chosenIn d directory).or
    (if Path.directoryName directory = directory then none else searchUp d (Path.directoryName directory)) := by
  rw [searchUp]
  cases chosenIn d directory with
  | none => rw [Option.none_or]
  | some path => rw [Option.some_or]

/-- Nothing is found if there is nothing in any directory on the way up. -/
theorem searchUp_eq_none_iff {directory : String} :
    searchUp d directory = none ↔ ∀ k, ¬ Holds d (Path.directoryName^[k] directory) := by
  fun_induction searchUp d directory with
  | case1 directory path hchosen =>
      refine iff_of_false (by simp) fun hnone => ?_
      have hfirst := chosenIn_eq_none_iff.mpr (hnone 0)
      exact absurd (hchosen.symm.trans hfirst) (by simp)
  | case2 directory hchosen htop =>
      -- The directory is its own parent, so all iterates are the same.
      refine iff_of_true rfl fun k => ?_
      rw [Function.iterate_fixed htop]
      exact chosenIn_eq_none_iff.mp hchosen
  | case3 directory hchosen htop ih =>
      rw [ih]
      constructor
      · intro habove k
        cases k with
        | zero => exact chosenIn_eq_none_iff.mp hchosen
        | succ k => exact habove k
      · exact fun hall k => hall (k + 1)

/-- What is found is what counts in the first directory that has anything. -/
theorem searchUp_eq_some_iff {directory path : String} :
    searchUp d directory = some path ↔ ∃ k, chosenIn d (Path.directoryName^[k] directory) = some path ∧
      ∀ j < k, ¬ Holds d (Path.directoryName^[j] directory) := by
  fun_induction searchUp d directory with
  | case1 directory found hchosen =>
      constructor
      · intro heq
        exact ⟨0, hchosen.trans heq, fun j hj => absurd hj (Nat.not_lt_zero j)⟩
      · rintro ⟨k, hk, hbefore⟩
        cases k with
        | zero => exact hchosen.symm.trans hk
        | succ k =>
            have hnone := chosenIn_eq_none_iff.mpr (hbefore 0 (Nat.zero_lt_succ k))
            exact absurd (hchosen.symm.trans hnone) (by simp)
  | case2 directory hchosen htop =>
      refine iff_of_false (by simp) ?_
      rintro ⟨k, hk, _⟩
      rw [Function.iterate_fixed htop, hchosen] at hk
      exact absurd hk (by simp)
  | case3 directory hchosen htop ih =>
      rw [ih]
      constructor
      · rintro ⟨k, hk, hbefore⟩
        refine ⟨k + 1, hk, fun j hj => ?_⟩
        cases j with
        | zero => exact chosenIn_eq_none_iff.mp hchosen
        | succ j => exact hbefore j (Nat.lt_of_succ_lt_succ hj)
      · rintro ⟨k, hk, hbefore⟩
        cases k with
        | zero => exact absurd (hchosen.symm.trans hk) (by simp)
        | succ k => exact ⟨k, hk, fun j hj => hbefore (j + 1) (Nat.succ_lt_succ hj)⟩

/-! ## The candidates -/

theorem frontsDown_nil {α : Type} : frontsDown ([] : List α) = [[]] := rfl

theorem frontsDown_concat {α : Type} (xs : List α) (x : α) :
    frontsDown (xs ++ [x]) = (xs ++ [x]) :: frontsDown xs := by
  have hlengths : (List.range ((xs ++ [x]).length + 1)).reverse =
      (xs ++ [x]).length :: (List.range (xs.length + 1)).reverse := by
    rw [List.range_succ, List.reverse_concat, List.length_append, List.length_singleton]
  rw [frontsDown, hlengths, List.map_cons, List.take_length, frontsDown]
  refine congrArg (List.cons (xs ++ [x])) (List.map_congr_left fun n hn => ?_)
  rw [List.mem_reverse, List.mem_range] at hn
  exact List.take_append_of_le_length (Nat.le_of_lt_succ hn)

/-- Trying the names in all directories from the longest path on is going up. -/
theorem find?_frontsDown {ns : List String} (h : ∀ name ∈ ns, Path.Proper name) (p : String) :
    ((frontsDown ns).flatMap fun names => fileNames.map (Path.join (Path.extraSlash p ++ Path.ofNames names))).find?
      d.has = searchUp d (Path.extraSlash p ++ Path.ofNames ns) := by
  -- Going up takes away the last name, so the induction is from that end.
  induction ns using List.reverseRecOn with
  | nil =>
      have htop : Path.directoryName (Path.extraSlash p ++ Path.ofNames []) = Path.extraSlash p ++ Path.ofNames [] :=
        Path.directoryName_ofNames h p
      rw [frontsDown_nil, List.flatMap_cons, List.flatMap_nil, List.append_nil, searchUp_eq_or, if_pos htop,
        Option.or_none, chosenIn]
  | append_singleton ns name ih =>
      have hns := (List.forall_mem_append.mp h).1
      have hup : Path.directoryName (Path.extraSlash p ++ Path.ofNames (ns ++ [name])) =
          Path.extraSlash p ++ Path.ofNames ns := by
        rw [Path.directoryName_ofNames h, List.dropLast_concat]
      have hlonger : Path.extraSlash p ++ Path.ofNames ns ≠ Path.extraSlash p ++ Path.ofNames (ns ++ [name]) := by
        intro heq
        have hnames := congrArg Path.names heq
        rw [Path.names_extraSlash hns, Path.names_extraSlash h] at hnames
        exact absurd hnames (by simp)
      rw [frontsDown_concat, List.flatMap_cons, List.find?_append, ih hns,
        searchUp_eq_or d (_ ++ Path.ofNames (ns ++ [name])), hup, if_neg hlonger, chosenIn]

theorem proper_of_mem_directoryNames {start : String} : ∀ name ∈ directoryNames d start, Path.Proper name := by
  intro name hname
  rw [directoryNames] at hname
  split at hname
  · exact Path.proper_of_mem_names name (List.dropLast_subset _ hname)
  · exact Path.proper_of_mem_names name hname

theorem absolute_eq_ofNames (d : Disk) (start : String) : d.absolute start =
    Path.extraSlash (Path.join d.here start) ++ Path.ofNames (Path.names (d.absolute start)) := by
  rw [Disk.absolute, Path.names_absolute, Path.absolute]

/-- Whether there is a file at the start is a matter of the tree, unless its path is too long. -/
theorem isFile_absolute_iff (e : Disk) {start : String} : e.isFile (d.absolute start) = true ↔
    Path.names (d.absolute start) ≠ [] ∧ Disk.Fits (d.absolute start) (Path.names (d.absolute start)) ∧
      ∃ content, e.root.get? (Path.names (d.absolute start)) = some (.file content) := by
  have hproper : ∀ name ∈ Path.names (d.absolute start), Path.Proper name := Path.proper_of_mem_names
  have hfile := e.isFile_ofNames_iff hproper (p := Path.join d.here start)
  rwa [← absolute_eq_ofNames] at hfile

theorem firstDirectory_eq (start : String) : firstDirectory d start =
    Path.extraSlash (Path.join d.here start) ++ Path.ofNames (directoryNames d start) := by
  rw [firstDirectory, directoryNames]
  split
  · rw [absolute_eq_ofNames, Path.directoryName_ofNames Path.proper_of_mem_names, ← absolute_eq_ofNames]
  · exact absolute_eq_ofNames d start

/-- The search for the configuration file goes up from the first directory. -/
theorem findFile_eq_searchUp (start : String) : findFile d start = searchUp d (firstDirectory d start) := by
  rw [findFile, candidates, firstDirectory_eq]
  exact find?_frontsDown proper_of_mem_directoryNames _

/-! ## The directories above -/

theorem directoryAbove_eq (start : String) (k : Nat) : directoryAbove d start k =
    Path.extraSlash (Path.join d.here start) ++
      Path.ofNames ((directoryNames d start).take ((directoryNames d start).length - k)) := by
  rw [directoryAbove, firstDirectory_eq, Path.iterate_directoryName proper_of_mem_directoryNames]

theorem names_directoryAbove (start : String) (k : Nat) : Path.names (directoryAbove d start k) =
    (directoryNames d start).take ((directoryNames d start).length - k) := by
  rw [directoryAbove_eq]
  exact Path.names_extraSlash (fun name hname => proper_of_mem_directoryNames name (List.mem_of_mem_take hname)) _

theorem names_directoryAbove_zero (start : String) :
    Path.names (directoryAbove d start 0) = directoryNames d start := by
  rw [names_directoryAbove, Nat.sub_zero, List.take_length]

/-- Each directory has the names of the one before, without the last one. -/
theorem names_directoryAbove_succ (start : String) (k : Nat) :
    Path.names (directoryAbove d start (k + 1)) = (Path.names (directoryAbove d start k)).dropLast := by
  rw [names_directoryAbove, names_directoryAbove, List.dropLast_eq_take, List.length_take, List.take_take]
  congr 1
  omega

/-- Going up ends at the root. -/
theorem exists_top (start : String) : ∃ n, Path.names (directoryAbove d start n) = [] ∧
    ∀ k, n ≤ k → directoryAbove d start k = directoryAbove d start n := by
  refine ⟨(directoryNames d start).length, ?_, fun k hk => ?_⟩
  · rw [names_directoryAbove, Nat.sub_self, List.take_zero]
  · rw [directoryAbove_eq, directoryAbove_eq, Nat.sub_eq_zero_of_le hk, Nat.sub_self]

/-- A configuration file in one of these directories is below its names. -/
theorem join_directoryAbove {start name : String} (hname : name ∈ fileNames) (k : Nat) :
    Path.join (directoryAbove d start k) name = Path.extraSlash (Path.join d.here start) ++
      Path.ofNames (Path.names (directoryAbove d start k) ++ [name]) := by
  rw [names_directoryAbove, directoryAbove_eq]
  refine Path.join_ofNames (List.forall_mem_append.mpr ⟨?_, ?_⟩) _
  · exact fun n hn => proper_of_mem_directoryNames n (List.mem_of_mem_take hn)
  · exact List.forall_mem_singleton.mpr (proper_of_mem_fileNames name hname)

/-- Whether a configuration file exists there is a matter of the tree, unless its path is too long. This is said for any
disk, since the paths depend on the working directory only. -/
theorem has_directoryAbove_iff (e : Disk) {start name : String} (hname : name ∈ fileNames) (k : Nat) :
    e.has (Path.join (directoryAbove d start k) name) = true ↔
      Disk.Fits (Path.join (directoryAbove d start k) name) (Path.names (directoryAbove d start k) ++ [name]) ∧
        (e.root.get? (Path.names (directoryAbove d start k) ++ [name])).isSome = true := by
  rw [join_directoryAbove hname]
  refine Disk.has_ofNames_iff (List.forall_mem_append.mpr ⟨Path.proper_of_mem_names, ?_⟩) (by simp)
  exact List.forall_mem_singleton.mpr (proper_of_mem_fileNames name hname)

/-! ## Changes elsewhere -/

/-- Two disks show the same in a directory: the same names are those of files, and the same names of configuration files
occur. -/
structure SameIn (d d' : Disk) (ns : List String) : Prop where
  files : ∀ name, (∃ content, d.root.get? (ns ++ [name]) = some (.file content)) ↔
    ∃ content, d'.root.get? (ns ++ [name]) = some (.file content)
  configs : ∀ name ∈ fileNames, (d.root.get? (ns ++ [name])).isSome = (d'.root.get? (ns ++ [name])).isSome

/-- The directories that are searched are the same on two disks. -/
def SameOnTheWay (d d' : Disk) (start : String) : Prop :=
  ∀ k, (∀ j < k, ¬ Holds d (directoryAbove d start j)) → SameIn d d' (Path.names (directoryAbove d start k))

/-- In a directory that is searched, the same configuration file counts on a disk that shows the same there. -/
theorem SameIn.chosenIn_eq {d' : Disk} {start : String} {k : Nat}
    (h : SameIn d d' (Path.names (directoryAbove d start k))) :
    chosenIn d' (directoryAbove d start k) = chosenIn d (directoryAbove d start k) := by
  refine List.find?_congr fun path hpath => ?_
  obtain ⟨name, hname, rfl⟩ := List.mem_map.mp hpath
  rw [Bool.eq_iff_iff, has_directoryAbove_iff d' hname, has_directoryAbove_iff d hname, h.configs name hname]

/-- What holds a configuration file is a directory on both disks. -/
theorem SameIn.exists_directory {d' : Disk} {start : String} {k : Nat}
    (h : SameIn d d' (Path.names (directoryAbove d start k))) (hholds : Holds d (directoryAbove d start k)) :
    ∃ entries, d'.root.get? (Path.names (directoryAbove d start k)) = some (.directory entries) := by
  obtain ⟨name, hname, hhas⟩ := hholds
  have hsome := ((has_directoryAbove_iff d hname k).mp hhas).2
  rw [h.configs name hname] at hsome
  obtain ⟨t, ht⟩ := Option.isSome_iff_exists.mp hsome
  exact FileTree.exists_directory_of_get? (List.cons_ne_nil name []) ht

/-- Whether the start is a file can be seen in the directories that are searched. -/
theorem SameOnTheWay.isFile_eq {d' : Disk} {start : String} (h : SameOnTheWay d d' start) :
    d'.isFile (d.absolute start) = d.isFile (d.absolute start) := by
  rw [Bool.eq_iff_iff, isFile_absolute_iff, isFile_absolute_iff]
  refine and_congr_right fun hne => and_congr_right fun hfits => ?_
  have hlast := List.dropLast_append_getLast hne
  have hzero := h 0 fun j hj => absurd hj (Nat.not_lt_zero j)
  by_cases hfile : ∃ content, d.root.get? (Path.names (d.absolute start)) = some (.file content)
  · -- The start is a file in the first directory.
    rw [names_directoryAbove_zero, directoryNames,
      if_pos ((isFile_absolute_iff d).mpr ⟨hne, hfits, hfile⟩)] at hzero
    rw [← hlast]
    exact (hzero.files _).symm
  · -- The start itself is searched first. It may be a file on the other disk only if nothing is below it.
    have hnames : Path.names (directoryAbove d start 0) = Path.names (d.absolute start) := by
      rw [names_directoryAbove_zero, directoryNames,
        if_neg (mt (isFile_absolute_iff d).mp fun hall => hfile hall.2.2)]
    by_cases hholds : Holds d (directoryAbove d start 0)
    · refine iff_of_false ?_ hfile
      rintro ⟨content, hcontent⟩
      obtain ⟨entries, hentries⟩ := hzero.exists_directory hholds
      rw [hnames, hcontent] at hentries
      exact absurd hentries (by simp)
    · -- The search goes on to the directory above the start.
      have hone := h 1 fun j hj => by rwa [Nat.lt_one_iff.mp hj]
      rw [names_directoryAbove_succ, hnames] at hone
      rw [← hlast]
      exact (hone.files _).symm

theorem directoryAbove_congr {d' : Disk} {start : String} (hdirectory : d'.directory = d.directory)
    (hfile : d'.isFile (d.absolute start) = d.isFile (d.absolute start)) (k : Nat) :
    directoryAbove d' start k = directoryAbove d start k := by
  have habsolute : d'.absolute start = d.absolute start := by
    rw [Disk.absolute, Disk.here, hdirectory]
    rfl
  rw [directoryAbove, firstDirectory, habsolute, hfile]
  rfl

/-! ## The file that is found -/

theorem findFile_eq_none_iff {start : String} :
    findFile d start = none ↔ ∀ k, ¬ Holds d (directoryAbove d start k) := by
  rw [findFile_eq_searchUp]
  exact searchUp_eq_none_iff

theorem findFile_eq_some_iff {start path : String} : findFile d start = some path ↔
    ∃ k, chosenIn d (directoryAbove d start k) = some path ∧ ∀ j < k, ¬ Holds d (directoryAbove d start j) := by
  rw [findFile_eq_searchUp]
  exact searchUp_eq_some_iff

/-- What is found depends on the directories that are searched only. -/
theorem SameOnTheWay.findFile_eq {d' : Disk} {start : String} (h : SameOnTheWay d d' start)
    (hdirectory : d'.directory = d.directory) : findFile d' start = findFile d start := by
  have habove := directoryAbove_congr hdirectory h.isFile_eq
  have hchosen (k : Nat) (hk : ∀ j < k, ¬ Holds d (directoryAbove d start j)) :
      chosenIn d' (directoryAbove d' start k) = chosenIn d (directoryAbove d start k) := by
    rw [habove]
    exact (h k hk).chosenIn_eq
  have hholds (k : Nat) (hk : ∀ j < k, ¬ Holds d (directoryAbove d start j))
      (hnot : ¬ Holds d (directoryAbove d start k)) : ¬ Holds d' (directoryAbove d' start k) := by
    rw [← chosenIn_eq_none_iff, hchosen k hk]
    exact chosenIn_eq_none_iff.mpr hnot
  cases hfound : findFile d start with
  | none =>
      have hnone := findFile_eq_none_iff.mp hfound
      exact findFile_eq_none_iff.mpr fun k => hholds k (fun j _ => hnone j) (hnone k)
  | some path =>
      obtain ⟨k, hpath, hbefore⟩ := findFile_eq_some_iff.mp hfound
      refine findFile_eq_some_iff.mpr ⟨k, (hchosen k hbefore).trans hpath, fun j hj => ?_⟩
      exact hholds j (fun i hi => hbefore i (hi.trans hj)) (hbefore j hj)

/-- The configuration file of a place is the first of the configuration names that exists in the nearest directory where
any exists, from the directory of the place up to the root; there is none if there is nothing in these directories. So
what stands elsewhere does not matter. -/
theorem findFile_nearest (d : Disk) (start : String) :
    findFile d start = searchUp d (firstDirectory d start) ∧
    Path.names (directoryAbove d start 0) = directoryNames d start ∧
    (∀ k, Path.names (directoryAbove d start (k + 1)) = (Path.names (directoryAbove d start k)).dropLast) ∧
    (∃ n, Path.names (directoryAbove d start n) = [] ∧
      ∀ k, n ≤ k → directoryAbove d start k = directoryAbove d start n) ∧
    (∀ path, findFile d start = some path ↔ ∃ k before name after, fileNames = before ++ name :: after ∧
      path = Path.join (directoryAbove d start k) name ∧ d.has path = true ∧
      (∀ other ∈ before, d.has (Path.join (directoryAbove d start k) other) = false) ∧
      ∀ j < k, ¬ Holds d (directoryAbove d start j)) ∧
    (findFile d start = none ↔ ∀ k, ¬ Holds d (directoryAbove d start k)) ∧
    ∀ d' : Disk, d'.directory = d.directory → SameOnTheWay d d' start → findFile d' start = findFile d start := by
  refine ⟨findFile_eq_searchUp start, names_directoryAbove_zero start, names_directoryAbove_succ start,
    exists_top start, fun path => ?_, findFile_eq_none_iff, fun d' hdirectory hsame => hsame.findFile_eq hdirectory⟩
  rw [findFile_eq_some_iff]
  constructor
  · rintro ⟨k, hchosen, hbefore⟩
    obtain ⟨before, name, after, hnames, hpath, hhas, hothers⟩ := chosenIn_eq_some_iff.mp hchosen
    exact ⟨k, before, name, after, hnames, hpath, hhas, hothers, hbefore⟩
  · rintro ⟨k, before, name, after, hnames, hpath, hhas, hothers, hbefore⟩
    exact ⟨k, chosenIn_eq_some_iff.mpr ⟨before, name, after, hnames, hpath, hhas, hothers⟩, hbefore⟩

/-- A disk with two configuration files in the directory above that of a file. -/
def projectDisk : Disk where
  root := .directory [("a", .directory [("b", .directory [("c.rb", .file [])]), ("factorylint.yml", .file []),
    (".factorylint.yaml", .file [])])]
  directory := []

/-- The same disk with a configuration file further up and one elsewhere. -/
def crowdedDisk : Disk where
  root := .directory [("a", .directory [("b", .directory [("c.rb", .file [])]), ("factorylint.yml", .file []),
    (".factorylint.yaml", .file [])]), (".factorylint.yml", .file []),
    ("z", .directory [(".factorylint.yml", .file [])])]
  directory := []

theorem findFile_nearest_elsewhere : SameOnTheWay projectDisk crowdedDisk "/a/b/c.rb" ∧
    findFile projectDisk "/a/b/c.rb" = some "/a/.factorylint.yaml" ∧
    findFile crowdedDisk "/a/b/c.rb" = some "/a/.factorylint.yaml" := by
  have hbelow (rest : List String) : crowdedDisk.root.get? ("a" :: rest) = projectDisk.root.get? ("a" :: rest) := rfl
  have hholds : Holds projectDisk (directoryAbove projectDisk "/a/b/c.rb" 1) :=
    ⟨".factorylint.yaml", by decide, by decide⟩
  have hsame : SameOnTheWay projectDisk crowdedDisk "/a/b/c.rb" := by
    intro k hk
    obtain ⟨rest, hrest⟩ : ∃ rest, Path.names (directoryAbove projectDisk "/a/b/c.rb" k) = "a" :: rest := by
      match k, hk with
      | 0, _ => exact ⟨["b"], by decide⟩
      | 1, _ => exact ⟨[], by decide⟩
      | k + 2, hk => exact absurd hholds (hk 1 (by omega))
    rw [hrest]
    refine ⟨fun name => ?_, fun name _ => ?_⟩
    · rw [List.cons_append, hbelow]
    · rw [List.cons_append, hbelow]
  have hfound : findFile projectDisk "/a/b/c.rb" = some "/a/.factorylint.yaml" := by decide
  obtain ⟨_, _, _, _, _, _, helsewhere⟩ := findFile_nearest projectDisk "/a/b/c.rb"
  exact ⟨hsame, hfound, (helsewhere crowdedDisk rfl hsame).trans hfound⟩
end IdiomLint.Config
