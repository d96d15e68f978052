import Mathlib.Data.List.DropRight
import Mathlib.Logic.Function.Iterate
import IdiomLint.Proofs.Path.Entries

/-!
# Directories above a directory

The directory of a resolved path is the path of all its names but the last one (`directoryName_ofNames`), and that of
the root is the root, so that going up and up from a path ends there (`iterate_directoryName`). That going up ends can
also be seen from the text alone: a path is longer than its directory unless they are the same
(`length_directoryName_lt`).
-/

namespace IdiomLint.Path

/-! ## Going up shortens -/

theorem directoryName_isPrefix (path : String) : (directoryName path).toList <+: path.toList := by
  have hfront : (path.toList.reverse.dropWhile (· != '/')).reverse <+: path.toList :=
    List.rdropWhile_prefix (· != '/') path.toList
  rw [directoryName, String.toList_ofList]
  split
  · exact hfront
  · exact (List.rdropWhile_prefix (· == '/') _).trans hfront

/-- A path is longer than its directory unless it is its own directory. -/
theorem length_directoryName_lt {path : String} (h : directoryName path ≠ path) :
    (directoryName path).length < path.length := by
  have hbegins := directoryName_isPrefix path
  rw [← String.length_toList, ← String.length_toList]
  refine lt_of_le_of_ne hbegins.length_le fun hlength => h ?_
  exact String.toList_inj.mp (hbegins.eq_of_length hlength)

/-! ## Resolved paths -/

theorem ofNames_concat {ns : List String} (hne : ns ≠ []) (name : String) :
    ofNames (ns ++ [name]) = ofNames ns ++ "/" ++ name := by
  rw [ofNames, ofNames, String.intercalate_append_of_ne_nil hne (List.cons_ne_nil name []),
    String.intercalate_singleton]
  simp only [String.append_assoc]

theorem ofNames_singleton (name : String) : ofNames [name] = "/" ++ name := by
  rw [ofNames, String.intercalate_singleton]

/-- Only the path of the root ends in a slash. -/
theorem getLast?_ofNames {ns : List String} (h : ∀ name ∈ ns, Proper name) (hne : ns ≠ []) :
    (ofNames ns).toList.getLast? ≠ some '/' := by
  rcases List.eq_nil_or_concat ns with rfl | ⟨above, last, rfl⟩
  · exact absurd rfl hne
  · rw [List.concat_eq_append] at h ⊢
    have hlast := h last (by simp)
    obtain ⟨front, hfront⟩ := exists_ofNames_concat above last
    have hne : last.toList ≠ [] := mt String.toList_eq_nil_iff.mp hlast.nonempty
    rw [hfront, String.toList_append, List.getLast?_append, List.getLast?_eq_some_getLast hne, Option.some_or]
    intro hslash
    exact hlast.noSlash (Option.some.inj hslash ▸ List.getLast_mem hne)

theorem getLast?_extraSlash {ns : List String} (h : ∀ name ∈ ns, Proper name) (p : String) :
    (extraSlash p ++ ofNames ns).toList.getLast? = some '/' ↔ ns = [] := by
  have hofNames : (ofNames ns).toList ≠ [] := by
    rw [toList_ofNames]
    exact List.cons_ne_nil _ _
  rw [String.toList_append, List.getLast?_append, List.getLast?_eq_some_getLast hofNames, Option.some_or,
    ← List.getLast?_eq_some_getLast hofNames]
  constructor
  · intro hslash
    by_contra hne
    exact getLast?_ofNames h hne hslash
  · rintro rfl
    rfl

/-- An entry of a directory has the path of the directory with its name added. -/
theorem join_ofNames {ns : List String} {name : String} (h : ∀ n ∈ ns ++ [name], Proper n) (p : String) :
    join (extraSlash p ++ ofNames ns) name = extraSlash p ++ ofNames (ns ++ [name]) := by
  obtain ⟨hns, hname⟩ := List.forall_mem_append.mp h
  have hempty : (extraSlash p ++ ofNames ns).isEmpty = false := by
    rw [Bool.eq_false_iff, Ne, String.isEmpty_iff]
    exact ne_empty_of_isAbsolute (isAbsolute_extraSlash p ns)
  rw [join_of_relative (isAbsolute_of_noSlash (hname name (by simp)).noSlash), hempty, Bool.false_or]
  by_cases hnil : ns = []
  · rw [if_pos (beq_iff_eq.mpr ((getLast?_extraSlash hns p).mpr hnil)), hnil, List.nil_append, ofNames_singleton,
      String.append_assoc]
    rfl
  · rw [if_neg (by rw [beq_iff_eq, getLast?_extraSlash hns p]; exact hnil), ofNames_concat hnil]
    simp only [String.append_assoc]

/-- What ends in no slash is the directory of what follows it. -/
theorem directoryName_concat {front name : String} (hname : '/' ∉ name.toList) (hne : front ≠ "")
    (hlast : front.toList.getLast? ≠ some '/') : directoryName (front ++ "/" ++ name) = front := by
  have htrimmed : ((front.toList ++ ['/']).reverse.dropWhile (· == '/')).reverse = front.toList := by
    obtain ⟨c, cs, hfront⟩ := List.exists_cons_of_ne_nil
      (mt List.reverse_eq_nil_iff.mp (mt String.toList_eq_nil_iff.mp hne))
    have hc : c ≠ '/' := by
      rintro rfl
      rw [← List.head?_reverse, hfront] at hlast
      exact hlast rfl
    rw [List.reverse_concat, List.dropWhile_cons, if_pos (beq_self_eq_true _), hfront, List.dropWhile_cons,
      if_neg (by rwa [beq_iff_eq]), ← hfront, List.reverse_reverse]
  rw [directoryName, toList_dropName hname]
  simp only [htrimmed]
  rw [if_neg (by rwa [List.isEmpty_iff, String.toList_eq_nil_iff]), String.ofList_toList]

/-- The directory of a resolved path has all names but the last one; that of the root is the root. -/
theorem directoryName_ofNames {ns : List String} (h : ∀ name ∈ ns, Proper name) (p : String) :
    directoryName (extraSlash p ++ ofNames ns) = extraSlash p ++ ofNames ns.dropLast := by
  rcases List.eq_nil_or_concat ns with rfl | ⟨above, last, rfl⟩
  · rcases extraSlash_eq p with hslash | hslash <;> (rw [hslash]; decide +kernel)
  · rw [List.concat_eq_append] at h ⊢
    rw [List.dropLast_concat]
    obtain ⟨habove, hlast⟩ := List.forall_mem_append.mp h
    have hname := (hlast last (by simp)).noSlash
    by_cases hnil : above = []
    · -- In front of the only name there are slashes only, which stay.
      rw [hnil, List.nil_append, ofNames_singleton, ← String.append_assoc, directoryName, toList_dropName hname]
      rcases extraSlash_eq p with hslash | hslash <;> (rw [hslash]; decide +kernel)
    · rw [ofNames_concat hnil, ← String.append_assoc, ← String.append_assoc]
      exact directoryName_concat hname (ne_empty_of_isAbsolute (isAbsolute_extraSlash p above))
        (mt (getLast?_extraSlash habove p).mp hnil)

/-- Going up from a resolved path takes away the last name again and again. -/
theorem iterate_directoryName {ns : List String} (h : ∀ name ∈ ns, Proper name) (p : String) (k : Nat) :
    directoryName^[k] (extraSlash p ++ ofNames ns) = extraSlash p ++ ofNames (ns.take (ns.length - k)) := by
  induction k with
  | zero => rw [Nat.sub_zero, List.take_length]; rfl
  | succ k ih =>
      have htake : ∀ name ∈ ns.take (ns.length - k), Proper name :=
        fun name hname => h name (List.mem_of_mem_take hname)
      rw [Function.iterate_succ_apply', ih, directoryName_ofNames htake, List.dropLast_eq_take, List.length_take,
        List.take_take]
      congr 3
      omega

end IdiomLint.Path
