import FlashNext.Ple.Opening
import FlashNext.Ple.Prepare
import FlashNext.Py.OsPath

/-!
# Paths and their components

A path that can be walked is the text of its components (`pathComponents_text`), so the directory
and the base of a path are known by its components.
-/

namespace FlashNext
namespace Ple

open Effect
open Py (Str Value str pathText)

/-- What stands before the slash of one more component. -/
def front (parts : List Str) : Str := if parts = [] then [] else pathText parts

theorem pathText_snoc (parts : List Str) (name : Str) :
    pathText (parts ++ [name]) = front parts ++ 47 :: name := by
  induction parts with
  | nil => simp [pathText, front]
  | cons part parts ih =>
    cases parts with
    | nil => simp [pathText, front, List.intercalate_cons_cons]
    | cons next parts =>
      rw [front, if_neg (by simp)] at ih ⊢
      simp only [pathText, List.cons_append, List.intercalate_cons_cons, List.cons.injEq,
        true_and, List.append_assoc, List.nil_append] at ih ⊢
      rw [ih]

/-- A path that can be walked is the text of its components. -/
theorem pathComponents_text {path what : Str} {parts : List Str}
    (h : pathComponents path what = .ok parts) :
    path = pathText parts ∧ 0 ∉ path ∧ ∀ part ∈ parts, Py.Plain part := by
  obtain ⟨hhead, hnul, hparts, hsafe⟩ := pathComponents_ok.mp h
  cases path with
  | nil => cases hhead
  | cons c rest =>
    obtain rfl : c = 47 := Option.some.inj hhead
    by_cases hroot : rest = []
    · subst hroot
      rw [componentsOf, if_pos rfl] at hparts
      subst hparts
      exact ⟨rfl, hnul, fun part hpart => by cases hpart⟩
    · have hne : (47 :: rest) ≠ [47] := fun heq => hroot (List.cons.inj heq).2
      have hsplit : (47 :: rest).splitOn 47 = [] :: rest.splitOn 47 :=
        List.splitOn_append_cons_self_of_not_mem List.not_mem_nil rest
      rw [componentsOf, if_neg hne, hsplit, List.tail_cons] at hparts hsafe
      subst hparts
      refine ⟨?_, hnul, fun part hpart => ?_⟩
      · rw [pathText, List.intercalate_splitOn]
      · obtain ⟨hempty, hdot, hdots⟩ := hsafe part hpart
        refine ⟨hempty, fun hslash => ?_, hdot, hdots⟩
        exact absurd (Text.sep_of_mem_splitOnP hpart 47 hslash) (by decide)

theorem pathComponents_pathText {parts : List Str} (what : Str) (hnul : 0 ∉ pathText parts)
    (h : ∀ part ∈ parts, Py.Plain part) : pathComponents (pathText parts) what = .ok parts := by
  have hparts : componentsOf (pathText parts) = parts := by
    by_cases hnil : parts = []
    · subst hnil
      rfl
    · have hne : pathText parts ≠ [47] := by
        obtain ⟨part, rest, rfl⟩ := List.exists_cons_of_ne_nil hnil
        obtain ⟨hpart, -⟩ := List.forall_mem_cons.mp h
        obtain ⟨c, cs, rfl⟩ := List.exists_cons_of_ne_nil hpart.nonempty
        cases rest <;> simp [pathText, List.intercalate_cons_cons]
      rw [componentsOf, if_neg hne, Py.splitOn_pathText h, if_neg hnil, List.tail_cons]
  refine pathComponents_ok.mpr ⟨rfl, hnul, hparts, fun part hpart => ?_⟩
  rw [hparts] at hpart
  exact ⟨(h part hpart).nonempty, (h part hpart).notDot, (h part hpart).notDots⟩

/-- A walkable path other than the root does not end in a slash. -/
theorem pathText_last {parts : List Str} (hne : parts ≠ []) (h : ∀ part ∈ parts, Py.Plain part) :
    ∃ init c, pathText parts = init ++ [c] ∧ c ≠ 47 := by
  obtain ⟨init, name, rfl⟩ := List.eq_nil_or_concat parts |>.resolve_left hne
  rw [List.concat_eq_append] at h ⊢
  have hname := h name (by simp)
  obtain ⟨cs, c, hcs⟩ := List.eq_nil_or_concat name |>.resolve_left hname.nonempty
  rw [List.concat_eq_append] at hcs
  refine ⟨front init ++ 47 :: cs, c, ?_, ?_⟩
  · rw [pathText_snoc, hcs]
    simp
  · rintro rfl
    exact hname.noSlash (by simp [hcs])

theorem rstripSlash_pathText {parts : List Str} (h : ∀ part ∈ parts, Py.Plain part) :
    rstripSlash (pathText parts) = front parts := by
  by_cases hnil : parts = []
  · subst hnil
    rfl
  · obtain ⟨init, c, htext, hc⟩ := pathText_last hnil h
    rw [front, if_neg hnil, rstripSlash, htext, List.reverse_append]
    show (((c :: init.reverse).dropWhile (· == 47)).reverse) = init ++ [c]
    rw [List.dropWhile_cons_of_neg (by simpa using hc), List.reverse_cons, List.reverse_reverse]

theorem rsplit_pathText {parts : List Str} {name : Str} (hname : 47 ∉ name) :
    (pathText (parts ++ [name])).reverse.takeWhile (· != 47) = name.reverse ∧
      (pathText (parts ++ [name])).reverse.dropWhile (· != 47) = 47 :: (front parts).reverse := by
  have hpass : ∀ c ∈ name.reverse, (c != 47) = true := by
    intro c hc
    rw [bne_iff_ne]
    rintro rfl
    exact hname (List.mem_reverse.mp hc)
  have hrev : (pathText (parts ++ [name])).reverse = name.reverse ++ 47 :: (front parts).reverse := by
    rw [pathText_snoc]
    simp
  rw [hrev]
  constructor
  · rw [List.takeWhile_append_of_pos hpass, List.takeWhile_cons_of_neg (by decide), List.append_nil]
  · rw [List.dropWhile_append_of_pos hpass, List.dropWhile_cons_of_neg (by decide)]

theorem basename_pathText {parts : List Str} {name : Str} (hname : 47 ∉ name) :
    basename (pathText (parts ++ [name])) = name := by
  rw [basename, (rsplit_pathText hname).1, List.reverse_reverse]

theorem dirname_pathText {parts : List Str} {name : Str} (hname : 47 ∉ name)
    (h : ∀ part ∈ parts, Py.Plain part) : dirname (pathText (parts ++ [name])) = pathText parts := by
  unfold dirname
  dsimp only
  rw [(rsplit_pathText hname).2, List.reverse_cons, List.reverse_reverse]
  by_cases hnil : parts = []
  · subst hnil
    rfl
  · obtain ⟨init, c, htext, hc⟩ := pathText_last hnil h
    rw [front, if_neg hnil, htext]
    have hall : ((init ++ [c] ++ [47]).all (· == 47)) = false := by
      rw [List.all_eq_false]
      exact ⟨c, by simp, by simpa using hc⟩
    rw [hall, if_neg Bool.false_ne_true, List.reverse_append, List.reverse_append]
    show ((47 :: c :: init.reverse).dropWhile (· == 47)).reverse = init ++ [c]
    rw [List.dropWhile_cons_of_pos (by rfl), List.dropWhile_cons_of_neg (by simpa using hc),
      List.reverse_cons, List.reverse_reverse]

theorem dirnameOrRoot_pathText {parts : List Str} {name : Str} (hname : 47 ∉ name)
    (h : ∀ part ∈ parts, Py.Plain part) :
    dirnameOrRoot (pathText (parts ++ [name])) = pathText parts := by
  rw [dirnameOrRoot, dirname_pathText hname h, pathText, if_neg (List.cons_ne_nil _ _)]

/-! ## Two roots -/

theorem commonParts_self (parts more : List Str) :
    commonParts (parts ++ more) parts = parts := by
  induction parts with
  | nil =>
    cases more <;> rfl
  | cons part parts ih => simp [commonParts, ih]

/-- Roots that are apart are neither the same, nor is the one a directory of the other, nor is the
cache the root of everything. -/
theorem checkApart_parts {modelRoot cacheDir what what' : Str} {ms cs : List Str}
    (h : checkApart modelRoot cacheDir = .ok ()) (hm : pathComponents modelRoot what = .ok ms)
    (hc : pathComponents cacheDir what' = .ok cs) : cs ≠ [] ∧ ∀ more, ms ≠ cs ++ more := by
  have hmodel := pathComponents_ok.mp hm
  have hcache := pathComponents_ok.mp hc
  have hm' : pathComponents modelRoot (str "model_root") = .ok ms := pathComponents_ok.mpr hmodel
  have hc' : pathComponents cacheDir (str "cache_dir") = .ok cs := pathComponents_ok.mpr hcache
  simp only [checkApart, hm', hc', bind_ok, reject_ok, Bool.or_eq_false_iff,
    decide_eq_false_iff_not] at h
  obtain ⟨ms', hms, cs', hcs, -, hcommon⟩ := h
  obtain rfl := Except.ok.inj hms
  obtain rfl := Except.ok.inj hcs
  have hdir : commonParts ms cs ≠ cs := by
    intro heq
    refine hcommon ?_
    rw [commonpath, heq, (pathComponents_text hc).1]
    rfl
  constructor
  · rintro rfl
    refine hdir ?_
    cases ms <;> rfl
  · rintro more rfl
    exact hdir (commonParts_self cs more)

end Ple
end FlashNext
