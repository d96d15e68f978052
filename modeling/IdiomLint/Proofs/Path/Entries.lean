import Mathlib.Data.List.Induction
import IdiomLint.Proofs.Path

/-!
# Paths of the entries of a directory

The path of an entry stands one name further than the path of its directory (`names_join_of_proper`), has the name of
the entry for its last name, and the same slashes in front (`extraSlash_join`); whether it is made absolute before or
after the name is appended does not matter (`join_join`). The other way round, the directory of an absolute path has all
names but the last one (`names_directoryName_absolute`).
-/

namespace IdiomLint.Path

/-! ## Last names -/

theorem pieces_of_noSlash {name : String} (h : '/' ∉ name.toList) : pieces name = [name] := by
  rw [pieces, splitSlash_of_not_mem h, List.map_singleton, String.ofList_toList]

theorem exists_pieces (path : String) : ∃ front, pieces path = front ++ [baseName path] := by
  cases hlast : (pieces path).getLast? with
  | none => exact absurd (List.map_eq_nil_iff.mp (List.getLast?_eq_none_iff.mp hlast)) (splitSlash_ne_nil _)
  | some last =>
      rw [baseName, hlast]
      exact List.getLast?_eq_some_iff.mp hlast

theorem baseName_of_noSlash {name : String} (h : '/' ∉ name.toList) : baseName name = name := by
  rw [baseName, pieces_of_noSlash h]
  rfl

theorem baseName_append_slash {name : String} (h : '/' ∉ name.toList) (front : String) :
    baseName (front ++ "/" ++ name) = name := by
  rw [baseName, pieces_append_slash, pieces_of_noSlash h, List.getLast?_concat]
  rfl

/-- The last name is all of the path, or what follows its last slash. -/
theorem baseName_cases (path : String) : '/' ∉ (baseName path).toList ∧
    (path = baseName path ∨ ∃ front, path = front ++ "/" ++ baseName path) := by
  by_cases h : '/' ∈ path.toList
  · obtain ⟨tail, front, hpath, htail⟩ := List.eq_append_cons_of_mem (List.mem_reverse.mpr h)
    have hslash : '/' ∉ (String.ofList tail.reverse).toList := by
      simpa using htail
    have heq : path = String.ofList front.reverse ++ "/" ++ String.ofList tail.reverse := by
      rw [← String.toList_inj, ← List.reverse_reverse path.toList, hpath]
      simp
    rw [heq, baseName_append_slash hslash]
    exact ⟨hslash, Or.inr ⟨_, rfl⟩⟩
  · rw [baseName_of_noSlash h]
    exact ⟨h, Or.inl rfl⟩

/-- A path ends like its last name. -/
theorem suffix_baseName_iff {ending : List Char} (h : '/' ∉ ending) (path : String) :
    ending <:+ path.toList ↔ ending <:+ (baseName path).toList := by
  rcases (baseName_cases path).2 with hpath | ⟨front, hpath⟩
  · rw [← hpath]
  · have hslash : ('/' :: (baseName path).toList) <:+ path.toList := by
      refine ⟨front.toList, ?_⟩
      have htoList := congrArg String.toList hpath
      simpa using htoList.symm
    refine ⟨fun hending => ?_, fun hending => hending.trans ((List.suffix_cons _ _).trans hslash)⟩
    refine List.suffix_of_suffix_length_le hending ((List.suffix_cons _ _).trans hslash) ?_
    -- A longer end would reach back to the slash.
    refine Nat.le_of_not_lt fun hlong => ?_
    have hreach := List.suffix_of_suffix_length_le hslash hending (by rw [List.length_cons]; exact hlong)
    exact h (hreach.subset List.mem_cons_self)

/-! ## Entries of a directory -/

theorem ne_empty_of_isAbsolute {path : String} (h : isAbsolute path = true) : path ≠ "" := by
  rintro rfl
  exact absurd h (by decide)

theorem isAbsolute_of_noSlash {name : String} (h : '/' ∉ name.toList) : isAbsolute name = false := by
  rw [isAbsolute, beq_eq_false_iff_ne]
  intro hhead
  exact h (List.mem_of_mem_head? hhead)

/-- An entry of a directory stands one name further. -/
theorem names_join_of_proper {name : String} (h : Proper name) (directory : String) :
    names (join directory name) = names directory ++ [name] := by
  rw [names_join (isAbsolute_of_noSlash h.noSlash), pieces_of_noSlash h.noSlash, List.foldl_cons, List.foldl_nil,
    step_of_proper h, List.reverse_cons, List.reverse_reverse]

theorem baseName_join {name : String} (h : Proper name) (directory : String) :
    baseName (join directory name) = name := by
  rcases join_cases (isAbsolute_of_noSlash h.noSlash) directory with ⟨_, hjoin⟩ | ⟨front, _, hjoin⟩ | ⟨_, _, hjoin⟩
  · rw [hjoin, baseName_of_noSlash h.noSlash]
  · rw [hjoin, baseName_append_slash h.noSlash]
  · rw [hjoin, baseName_append_slash h.noSlash]

theorem join_ne_empty {name : String} (h : Proper name) (directory : String) : join directory name ≠ "" := by
  intro hempty
  have hname := baseName_join h directory
  rw [hempty] at hname
  exact h.nonempty hname.symm

/-- In front of the last name, a path ends in a slash. -/
theorem toList_dropName {name : String} (h : '/' ∉ name.toList) (front : String) :
    ((front ++ "/" ++ name).toList.reverse.dropWhile (· != '/')).reverse = front.toList ++ ['/'] := by
  rw [show (front ++ "/" ++ name).toList.reverse = name.toList.reverse ++ '/' :: front.toList.reverse by simp,
    List.dropWhile_append_of_pos]
  · simp
  · intro c hc
    rw [bne_iff_ne]
    exact fun heq => h (heq ▸ List.mem_reverse.mp hc)

/-- The last name can be left out. -/
theorem names_directoryName {name : String} (h : '/' ∉ name.toList) (front : String) :
    names (directoryName (front ++ "/" ++ name)) = names front := by
  have htrimmed (cs : List Char) :
      names (String.ofList (cs.reverse.dropWhile (· == '/')).reverse) = names (String.ofList cs) := by
    induction cs using List.reverseRecOn with
    | nil => rfl
    | append_singleton cs c ih =>
        rw [List.reverse_concat, List.dropWhile_cons]
        split
        · next hc =>
            rw [ih, beq_iff_eq.mp hc, String.ofList_append]
            exact (names_slash _).symm
        · rw [← List.reverse_concat, List.reverse_reverse]
  have hslash : names (String.ofList (front.toList ++ ['/'])) = names front := by
    rw [String.ofList_append, String.ofList_toList]
    exact names_slash front
  rw [directoryName, toList_dropName h]
  split
  · exact hslash
  · rw [htrimmed, hslash]

theorem exists_ofNames_concat (ns : List String) (name : String) :
    ∃ front, ofNames (ns ++ [name]) = front ++ "/" ++ name := by
  cases ns with
  | nil => exact ⟨"", by rw [ofNames, List.nil_append, String.intercalate_singleton, String.empty_append]⟩
  | cons first others =>
      refine ⟨"/" ++ "/".intercalate (first :: others), ?_⟩
      rw [ofNames, String.intercalate_append_of_ne_nil (List.cons_ne_nil _ _) (List.cons_ne_nil _ _),
        String.intercalate_singleton]
      simp only [String.append_assoc]

/-- The directory of something that was made absolute has the same names without the last one. -/
theorem names_directoryName_absolute {directory path name : String} {ns : List String}
    (h : names (join directory path) = ns ++ [name]) : names (directoryName (absolute directory path)) = ns := by
  have hproper : Proper name := @proper_of_mem_names (join directory path) name (by rw [h]; simp)
  obtain ⟨front, hfront⟩ := exists_ofNames_concat ns name
  have habsolute : absolute directory path = (extraSlash (join directory path) ++ front) ++ "/" ++ name := by
    rw [absolute, h, hfront]
    simp only [String.append_assoc]
  have hnames := names_absolute directory path
  rw [habsolute, names_append_slash, pieces_of_noSlash hproper.noSlash, List.foldl_cons, List.foldl_nil,
    step_of_proper hproper, List.reverse_cons, List.reverse_reverse, h] at hnames
  rw [habsolute, names_directoryName hproper.noSlash]
  exact (List.append_inj' hnames rfl).1

/-! ## Slashes in front -/

/-- There is an extra slash in front of exactly two slashes. -/
theorem extraSlash_eq_ite (path : String) : extraSlash path =
    if path.toList[0]? = some '/' ∧ path.toList[1]? = some '/' ∧ path.toList[2]? ≠ some '/' then "/" else "" := by
  unfold extraSlash
  split
  · next hpath => simp [hpath]
  · next rest hthird hpath =>
      cases rest with
      | nil => simp [hpath]
      | cons c rest =>
          have hc : c ≠ '/' := by
            rintro rfl
            exact hthird rest rfl
          simp [hpath, hc]
  · next hother =>
      rw [if_neg]
      rintro ⟨hfirst, hsecond, _⟩
      match hpath : path.toList with
      | [] => simp [hpath] at hfirst
      | [a] => simp [hpath] at hsecond
      | a :: b :: rest =>
          simp only [hpath, List.getElem?_cons_zero, List.getElem?_cons_succ, Option.some.injEq] at hfirst hsecond
          exact hother rest (by rw [hpath, hfirst, hsecond])

/-- An entry has an extra slash in front if its directory has one. -/
theorem extraSlash_join {name : String} (h : Proper name) (directory : String) :
    extraSlash (join directory name) = extraSlash directory := by
  obtain ⟨c, cs, hname⟩ := List.exists_cons_of_ne_nil (mt String.toList_eq_nil_iff.mp h.nonempty)
  have hc : c ≠ '/' := fun heq => h.noSlash (by rw [hname, heq]; exact List.mem_cons_self)
  -- Only the first three characters count, so longer directories are all alike.
  have happend (front : String) : extraSlash (front ++ "/" ++ name) = extraSlash (front ++ "/") := by
    have hlong : (front ++ "/" ++ name).toList = front.toList ++ '/' :: c :: cs := by simp [hname]
    have hshort : (front ++ "/").toList = front.toList ++ ['/'] := by simp
    rw [extraSlash_eq_ite, extraSlash_eq_ite, hlong, hshort]
    match front.toList with
    | [] => simp [hc]
    | [_] => simp [hc]
    | [_, _] => simp
    | _ :: _ :: _ :: _ => simp
  rcases join_cases (isAbsolute_of_noSlash h.noSlash) directory with
    ⟨rfl, hjoin⟩ | ⟨front, rfl, hjoin⟩ | ⟨hne, hend, hjoin⟩
  · rw [hjoin, extraSlash_eq_ite, hname]
    simp [hc, extraSlash]
  · rw [hjoin, happend]
  · rw [hjoin, happend, extraSlash_eq_ite, extraSlash_eq_ite]
    have hslash : (directory ++ "/").toList = directory.toList ++ ['/'] := by simp
    rw [hslash]
    match hdirectory : directory.toList with
    | [] => exact absurd (String.toList_eq_nil_iff.mp hdirectory) hne
    | [a] =>
        have ha : a ≠ '/' := by simpa [hdirectory] using hend
        simp [ha]
    | [_, b] =>
        have hb : b ≠ '/' := by simpa [hdirectory] using hend
        simp [hb]
    | _ :: _ :: _ :: _ => simp

/-- Seen from a directory given by names, only a path that begins at the root can have an extra slash in front. -/
theorem extraSlash_join_ofNames {ns : List String} (h : ∀ name ∈ ns, Proper name) (path : String) :
    extraSlash (join (ofNames ns) path) = extraSlash path := by
  cases habsolute : isAbsolute path with
  | true => rw [join_of_isAbsolute habsolute]
  | false =>
      have hpath : path.toList[0]? ≠ some '/' := by
        rw [← List.head?_eq_getElem?]
        exact beq_eq_false_iff_ne.mp habsolute
      have hsecond : (join (ofNames ns) path).toList[1]? ≠ some '/' := by
        cases ns with
        | nil =>
            rw [join_of_relative habsolute]
            simpa [ofNames] using hpath
        | cons first others =>
            obtain ⟨c, cs, hfirst⟩ := List.exists_cons_of_ne_nil
              (mt String.toList_eq_nil_iff.mp (h first List.mem_cons_self).nonempty)
            have hc : c ≠ '/' := fun heq =>
              (h first List.mem_cons_self).noSlash (by rw [hfirst, heq]; exact List.mem_cons_self)
            obtain ⟨rest, hrest⟩ : ∃ rest, (ofNames (first :: others)).toList = '/' :: c :: rest := by
              rw [toList_ofNames, List.map_cons, hfirst, List.intercalate_cons_cons_left]
              exact ⟨_, rfl⟩
            rw [join_of_relative habsolute]
            split <;> simp [hrest, hc]
      rw [extraSlash_eq_ite, extraSlash_eq_ite, if_neg fun hslash => hsecond hslash.2.1,
        if_neg fun hslash => hpath hslash.1]

/-! ## Entries of a relative path -/

/-- Seen from a directory, relative paths get the same opening. -/
theorem exists_opening (directory : String) :
    ∃ opening, ∀ path, isAbsolute path = false → join directory path = opening ++ path := by
  cases hend : directory.isEmpty || directory.toList.getLast? == some '/' with
  | true => exact ⟨directory, fun path h => by rw [join_of_relative h, if_pos hend]⟩
  | false => exact ⟨directory ++ "/", fun path h => by rw [join_of_relative h, if_neg (by simp [hend])]⟩

theorem join_append {path name : String} (hpath : path ≠ "") (h : isAbsolute name = false) (opening : String) :
    join (opening ++ path) name = opening ++ join path name := by
  have hempty : (opening ++ path).isEmpty = path.isEmpty := by
    rw [Bool.eq_iff_iff, String.isEmpty_iff, String.isEmpty_iff, String.append_eq_empty_iff, and_iff_right_of_imp]
    exact fun heq => absurd heq hpath
  have hlast : (opening ++ path).toList.getLast? = path.toList.getLast? := by
    rw [String.toList_append, List.getLast?_append,
      List.getLast?_eq_some_getLast (mt String.toList_eq_nil_iff.mp hpath), Option.some_or]
  rw [join_of_relative h, join_of_relative h, hempty, hlast]
  split
  · rw [String.append_assoc]
  · rw [String.append_assoc, String.append_assoc, String.append_assoc]

theorem isAbsolute_join {path name : String} (hpath : path ≠ "") (h : isAbsolute name = false) :
    isAbsolute (join path name) = isAbsolute path := by
  have hhead (rest : String) : (path ++ rest).toList.head? = path.toList.head? := by
    rw [String.toList_append, List.head?_append,
      List.head?_eq_some_head (mt String.toList_eq_nil_iff.mp hpath), Option.some_or]
  rw [isAbsolute, isAbsolute, join_of_relative h]
  split
  · rw [hhead]
  · rw [String.append_assoc, hhead]

/-- Entries can be appended to a path before or after it is seen from a directory. -/
theorem join_join {path name : String} (hpath : path ≠ "") (h : isAbsolute name = false) (directory : String) :
    join directory (join path name) = join (join directory path) name := by
  have hjoin := isAbsolute_join hpath h
  cases habsolute : isAbsolute path with
  | true => rw [join_of_isAbsolute (hjoin.trans habsolute), join_of_isAbsolute habsolute]
  | false =>
      obtain ⟨opening, hopening⟩ := exists_opening directory
      rw [hopening _ (hjoin.trans habsolute), hopening _ habsolute, join_append hpath h]

end IdiomLint.Path
