import FlashNext.Checkpoint.Agreement
import FlashNext.Text.Words

/-!
# The two rules for names

The launcher reads a name as a path, writes the path back and compares; the verifier splits the
name at its slashes and looks at the parts.  A name that is written back as it is has no part that
reading drops, so the rules agree, with one exception: the path of `.` has no parts at all and is
written as `.` again.
-/

namespace FlashNext
namespace Checkpoint

open Posix

/-! ## Reading a name and writing it back -/

theorem splitSlash_ne_nil (s : String) : splitSlash s ≠ [] := by
  rw [splitSlash, ne_eq, List.map_eq_nil_iff]
  exact List.splitOn_ne_nil '/' s.toList

theorem intercalate_splitSlash (s : String) : "/".intercalate (splitSlash s) = s := by
  refine String.toList_injective ?_
  have hid : String.toList ∘ String.ofList = id := funext fun cs => String.toList_ofList
  rw [String.toList_intercalate, splitSlash, List.map_map, hid, List.map_id]
  exact List.intercalate_splitOn '/'

theorem splitSlash_noSlash {s part : String} (h : part ∈ splitSlash s) : '/' ∉ part.toList := by
  obtain ⟨cs, hcs, rfl⟩ := List.mem_map.mp h
  rw [String.toList_ofList]
  intro hslash
  exact absurd (Text.sep_of_mem_splitOnP hcs '/' hslash) (by decide)

/-- Parts with no slash in them are read back as they are. -/
theorem splitSlash_intercalate {parts : List String} (hne : parts ≠ [])
    (h : ∀ part ∈ parts, '/' ∉ part.toList) : splitSlash ("/".intercalate parts) = parts := by
  have hid : String.ofList ∘ String.toList = id := funext fun s => String.ofList_toList
  rw [splitSlash, String.toList_intercalate]
  have hsplit : (['/'].intercalate (parts.map String.toList)).splitOn '/' =
      parts.map String.toList := by
    refine List.splitOn_intercalate '/' ?_ ?_
    · rw [List.forall_mem_map]
      exact h
    · rw [ne_eq, List.map_eq_nil_iff]
      exact hne
  show (List.splitOn '/' (['/'].intercalate _)).map String.ofList = parts
  rw [hsplit, List.map_map, hid, List.map_id]

theorem isAbsolute_iff {s : String} :
    (PurePath.ofString s).isAbsolute = true ↔ s.toList.head? = some '/' := by
  rw [PurePath.isAbsolute, decide_eq_true_eq]
  refine ⟨rootOf_ne_none, fun h => ?_⟩
  show PurePath.rootOf s.toList ≠ .none
  obtain ⟨cs, hcs⟩ := List.head?_eq_some_iff.mp h
  rw [hcs]
  unfold PurePath.rootOf
  split
  · decide
  · decide
  · decide
  · next hother => exact absurd rfl (hother cs)

/-- What a relative path is written back as. -/
theorem str_relative {s : String} (h : s.toList.head? ≠ some '/') :
    (PurePath.ofString s).str =
      if (PurePath.ofString s).parts = [] then "."
      else "/".intercalate (PurePath.ofString s).parts := by
  have hroot : (PurePath.ofString s).root = .none := by
    by_contra hne
    exact h (rootOf_ne_none hne)
  rw [PurePath.str, hroot]
  simp only [true_and, Root.text, String.empty_append]

/-- A name comes back unchanged when reading drops no part of it, or when it is `.`. -/
theorem str_eq_iff {s : String} (h : s.toList.head? ≠ some '/') :
    (PurePath.ofString s).str = s ↔
      s = "." ∨ ∀ part ∈ splitSlash s, part ≠ "" ∧ part ≠ "." := by
  have hkept : (∀ part ∈ splitSlash s, part ≠ "" ∧ part ≠ ".") ↔
      (PurePath.ofString s).parts = splitSlash s := by
    rw [PurePath.ofString, List.filter_eq_self]
    simp only [Bool.and_eq_true, decide_eq_true_eq]
  rw [str_relative h, hkept]
  by_cases hnil : (PurePath.ofString s).parts = []
  · rw [if_pos hnil, hnil]
    constructor
    · intro hdot
      exact .inl hdot.symm
    · intro hcases
      rcases hcases with hdot | hsplit
      · exact hdot.symm
      · exact absurd hsplit.symm (splitSlash_ne_nil s)
  · rw [if_neg hnil]
    constructor
    · intro hstr
      right
      rw [← congrArg splitSlash hstr]
      refine (splitSlash_intercalate hnil fun part hpart => ?_).symm
      exact splitSlash_noSlash (List.mem_of_mem_filter hpart)
    · intro hcases
      rcases hcases with rfl | hsplit
      · exact absurd rfl hnil
      · rw [hsplit, intercalate_splitSlash]

/-! ## The rules -/

theorem safeRelpath_iff {name : String} (hlength : name.toList.length ≤ maxPathLength)
    (hplain : ∀ c ∈ name.toList, 32 ≤ c.toNat) :
    safeRelpath name = true ↔ name ≠ "" ∧ name.toList.head? ≠ some '/' ∧ '\\' ∉ name.toList ∧
      ∀ part ∈ splitSlash name, part ≠ "" ∧ part ≠ "." ∧ part ≠ ".." := by
  have hzero : '\x00' ∉ name.toList := fun h => absurd (hplain _ h) (by decide)
  simp only [safeRelpath, Bool.and_eq_true, decide_eq_true_eq, Bool.not_eq_true',
    List.contains_eq_mem, decide_eq_false_iff_not, List.all_eq_true, hlength, hzero,
    not_false_eq_true, and_true, and_assoc]

theorem plain_of_all {name : String}
    (h : (name.toList.all fun c => decide (32 ≤ c.toNat)) = true) :
    ∀ c ∈ name.toList, 32 ≤ c.toNat :=
  fun c hc => of_decide_eq_true (List.all_eq_true.mp h c hc)

theorem safeName_iff {name : String} (hplain : ∀ c ∈ name.toList, 32 ≤ c.toNat) :
    safeName name = true ↔ name ≠ "" ∧ name.toList.head? ≠ some '/' ∧ '\\' ∉ name.toList ∧
      (name = "." ∨ ∀ part ∈ splitSlash name, part ≠ "" ∧ part ≠ "." ∧ part ≠ "..") := by
  have habs : (PurePath.ofString name).isAbsolute = false ↔ name.toList.head? ≠ some '/' := by
    rw [← Bool.not_eq_true, isAbsolute_iff]
  have hall : (name.toList.all fun c => decide (32 ≤ c.toNat)) = true := by
    rw [List.all_eq_true]
    exact fun c hc => decide_eq_true (hplain c hc)
  simp only [safeName, Bool.and_eq_true, decide_eq_true_eq, Bool.not_eq_true',
    List.contains_eq_mem, decide_eq_false_iff_not, hall, and_true, habs, and_assoc]
  refine and_congr_right fun _ => and_congr_right fun hhead => ?_
  rw [str_eq_iff hhead]
  have hdots : ".." ∉ (PurePath.ofString name).parts ↔ ".." ∉ splitSlash name := by
    rw [PurePath.ofString, List.mem_filter]
    simp
  rw [hdots]
  constructor
  · intro h
    obtain ⟨hup, hback, hcases⟩ := h
    refine ⟨hback, hcases.imp_right fun hparts part hpart => ?_⟩
    obtain ⟨hempty, hdot⟩ := hparts part hpart
    refine ⟨hempty, hdot, ?_⟩
    rintro rfl
    exact hup hpart
  · intro h
    obtain ⟨hback, hcases⟩ := h
    rcases hcases with rfl | hparts
    · exact ⟨by decide, hback, .inl rfl⟩
    · refine ⟨fun hup => (hparts _ hup).2.2 rfl, hback, .inr fun part hpart => ?_⟩
      exact ⟨(hparts part hpart).1, (hparts part hpart).2.1⟩

/-- The path lies below the root, by its text alone. -/
def ProperDescendant (root p : PurePath) : Prop :=
  p.root = root.root ∧ ∃ rest, rest ≠ [] ∧ ".." ∉ rest ∧ p.parts = root.parts ++ rest

/-- What the two rules are for. -/
structure RulesAgree (name : String) : Prop where
  same : safeName name = true ↔ safeRelpath name = true
  below : safeName name = true → ∀ root : PurePath, ProperDescendant root (root.child name)

theorem child_below {root : PurePath} {name : String} (h : safeRelpath name = true) :
    ProperDescendant root (root.child name) := by
  rw [child_eq_joinPath h]
  simp only [safeRelpath, Bool.and_eq_true, decide_eq_true_eq, List.all_eq_true] at h
  refine ⟨rfl, splitSlash name, splitSlash_ne_nil name, fun hup => ?_, rfl⟩
  exact (h.2 _ hup).2 rfl

theorem rulesAgree_iff {name : String} (hlength : name.toList.length ≤ maxPathLength)
    (hplain : ∀ c ∈ name.toList, 32 ≤ c.toNat) : RulesAgree name ↔ name ≠ "." := by
  constructor
  · rintro ⟨-, hbelow⟩ rfl
    obtain ⟨-, rest, hne, -, hparts⟩ := hbelow (by decide) ⟨.none, []⟩
    have hnil : rest = [] := by
      rw [List.nil_append] at hparts
      rw [← hparts]
      decide
    exact hne hnil
  · intro hdot
    have hsame : safeName name = true ↔ safeRelpath name = true := by
      rw [safeName_iff hplain, safeRelpath_iff hlength hplain]
      simp only [hdot, false_or]
    exact ⟨hsame, fun h root => child_below (hsame.mp h)⟩

theorem rulesAgree_iff_config :
    RulesAgree "tokenizer/config.json" ↔ "tokenizer/config.json" ≠ "." :=
  rulesAgree_iff (by decide) (plain_of_all (by decide))

/-- The launcher admits `.`, the verifier does not. -/
theorem rules_differ : ¬ ∀ name : String, name.toList.length ≤ maxPathLength →
    (∀ c ∈ name.toList, 32 ≤ c.toNat) → RulesAgree name := by
  intro h
  have hsame := (h "." (by decide) (plain_of_all (by decide))).same
  exact absurd (hsame.mp (by decide)) (by decide)

end Checkpoint
end FlashNext
