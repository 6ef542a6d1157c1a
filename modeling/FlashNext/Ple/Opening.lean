import FlashNext.Ple.Derive

/-!
# Opening the source

The builder walks to the directory of the source from the root and opens the file there.  Where
no call fails this refuses a path for its text only, and the directory of a path that can be
walked can be walked (`pathComponents_dirname`).
-/

namespace FlashNext
namespace Ple

open Effect
open Py (Str Value str)
open Text (Bytes)

/-! ## Paths -/

/-- A component that stays where it is. -/
def SafePart (part : Str) : Prop := part ≠ [] ∧ part ≠ str "." ∧ part ≠ str ".."

/-- The components of a path. -/
def componentsOf (path : Str) : List Str := if path = [47] then [] else (path.splitOn 47).tail

theorem pathComponents_ok {path what : Str} {parts : List Str} :
    pathComponents path what = .ok parts ↔ path.head? = some 47 ∧ 0 ∉ path ∧
      componentsOf path = parts ∧ ∀ part ∈ componentsOf path, SafePart part := by
  simp only [pathComponents, bind_ok, reject_ok, pure_ok, Bool.or_eq_false_iff,
    bne_eq_false_iff_eq, List.contains_eq_mem, decide_eq_false_iff_not, List.any_eq_false,
    Bool.not_eq_true, SafePart, componentsOf]
  constructor
  · rintro ⟨_, ⟨hhead, hnul⟩, _, hparts, h⟩
    exact ⟨hhead, hnul, h, fun part hpart => ⟨(hparts part hpart).1.1, (hparts part hpart).1.2,
      (hparts part hpart).2⟩⟩
  · rintro ⟨hhead, hnul, h, hparts⟩
    exact ⟨(), ⟨hhead, hnul⟩, (), fun part hpart => ⟨⟨(hparts part hpart).1,
      (hparts part hpart).2.1⟩, (hparts part hpart).2.2⟩, h⟩

/-- A path is what stands before its last slash, the slash and its last component. -/
theorem split_basename {path : Str} (h : path.head? = some 47) :
    ∃ front, path = front ++ 47 :: basename path ∧ 47 ∉ basename path ∧
      (path.reverse.dropWhile (· != 47)).reverse = front ++ [47] := by
  have hmem : 47 ∈ path.reverse := List.mem_reverse.mpr (List.mem_of_head? h)
  have hsplit := List.takeWhile_append_dropWhile (p := (· != 47)) (l := path.reverse)
  have hnot : 47 ∉ path.reverse.takeWhile (· != 47) := by
    intro hin
    have hpred := List.all_eq_true.mp List.all_takeWhile 47 hin
    cases hpred
  cases hdrop : path.reverse.dropWhile (· != 47) with
  | nil =>
    rw [hdrop, List.append_nil] at hsplit
    rw [hsplit] at hnot
    exact absurd hmem hnot
  | cons c r =>
    have hc : c = 47 := by
      have := List.head?_dropWhile_not (fun x => x != 47) path.reverse
      rw [hdrop] at this
      simpa using this
    refine ⟨r.reverse, ?_, ?_, ?_⟩
    · rw [hdrop, hc] at hsplit
      have := congrArg List.reverse hsplit
      rw [List.reverse_append, List.reverse_reverse, List.reverse_cons, List.append_assoc] at this
      exact this.symm
    · unfold basename
      rw [List.mem_reverse]
      exact hnot
    · rw [hc, List.reverse_cons]

/-- The directory of a path that can be walked can be walked. -/
theorem pathComponents_dirname {path what : Str} {parts : List Str}
    (h : pathComponents path what = .ok parts) (what' : Str) :
    dirname path ≠ [] ∧ ∃ parts', pathComponents (dirname path) what' = .ok parts' := by
  obtain ⟨hhead, hnul, -, hparts⟩ := pathComponents_ok.mp h
  obtain ⟨front, hpath, hbase, hdrop⟩ := split_basename hhead
  by_cases hfront : front = []
  · have hdir : dirname path = [47] := by
      unfold dirname
      rw [hdrop, hfront]
      rfl
    rw [hdir]
    refine ⟨List.cons_ne_nil 47 [], [], pathComponents_ok.mpr ⟨rfl, by decide, rfl, ?_⟩⟩
    intro part hpart
    cases hpart
  -- the last component before the base is no empty one, so one slash is stripped
  have hroot : path ≠ [47] := by
    intro hroot
    rw [hroot] at hpath
    have := congrArg List.length hpath
    rw [List.length_append, List.length_cons] at this
    have := List.length_pos_iff.mpr hfront
    simp at *
    omega
  have hcomponents : componentsOf path = (front.splitOn 47).tail ++ [basename path] := by
    unfold componentsOf
    rw [if_neg hroot]
    conv_lhs => rw [hpath]
    rw [List.splitOn_append_cons_self, List.splitOn_eq_singleton hbase,
      List.tail_append_of_ne_nil (List.splitOn_ne_nil 47 front)]
  have hlast : ∀ init, front ≠ init ++ [47] := by
    intro init hinit
    have htail : [] ∈ (front.splitOn 47).tail := by
      rw [hinit, List.splitOn_append_cons_self, List.splitOn_nil,
        List.tail_append_of_ne_nil (List.splitOn_ne_nil 47 init)]
      exact List.mem_append_right _ List.mem_cons_self
    have hin : [] ∈ componentsOf path := by
      rw [hcomponents]
      exact List.mem_append_left _ htail
    exact (hparts [] hin).1 rfl
  have hdir : dirname path = front := by
    obtain ⟨init, c, rfl⟩ := List.eq_nil_or_concat front |>.resolve_left hfront
    rw [List.concat_eq_append] at hlast hdrop ⊢
    have hc : c ≠ 47 := fun hc => hlast init (hc ▸ rfl)
    have hother : ((init ++ [c] ++ [47]).all (· == 47)) = false := by
      rw [List.all_eq_false]
      exact ⟨c, by simp, by simpa using hc⟩
    unfold dirname
    dsimp only
    rw [hdrop, hother, if_neg Bool.false_ne_true, List.reverse_append, List.reverse_append]
    show ((47 :: c :: init.reverse).dropWhile (· == 47)).reverse = init ++ [c]
    rw [List.dropWhile_cons_of_pos (by rfl), List.dropWhile_cons_of_neg (by simpa using hc),
      List.reverse_cons, List.reverse_reverse]
  rw [hdir]
  have hsub : ∀ part ∈ componentsOf front, SafePart part := by
    intro part hpart
    refine hparts part ?_
    rw [hcomponents]
    unfold componentsOf at hpart
    rw [if_neg (show ¬ front = [47] from hlast [])] at hpart
    exact List.mem_append_left _ hpart
  have hstart : front.head? = some 47 := by
    rw [hpath, List.head?_append_of_ne_nil _ hfront] at hhead
    exact hhead
  have hclean : 0 ∉ front := by
    intro hin
    rw [hpath] at hnul
    exact hnul (List.mem_append_left _ hin)
  exact ⟨hfront, componentsOf front, pathComponents_ok.mpr ⟨hstart, hclean, rfl, hsub⟩⟩

/-! ## Walking -/

/-- What `resolveAnchored` asks of the path. -/
def anchored (file : SourceFile) (path what : Str) : Except Str Str := do
  let parts ← pathComponents path what
  match parts.getLast? with
  | none => return path
  | some _ => do
    let _ ← pathComponents (dirname path) (what ++ str " parent")
    reject (file.stat.kind = FileKind.symlink) (what ++ str " is a symlink")
    return path

section

variable {file : SourceFile} {mayFail : Prop} {what path : Str}

theorem openChild_passes (current : Fd) (part : Str) :
    Passes file mayFail (openChild false current part) := by
  refine Yields.then (Yields.ask (.openDir current part) ⟨.ok current, current, rfl⟩) ?_
  intro a ha
  rcases ha with ⟨child, rfl⟩ | ⟨hfail, e, rfl⟩
  · trivial
  · show Yields file mayFail _ _ (if e.errno = .enoent ∧ false = true then _ else _)
    rw [if_neg fun h => Bool.false_ne_true h.2]
    exact .inl hfail

theorem walkDirs_passes (parts : List Str) (current : Fd) :
    Passes file mayFail (walkDirs what false current parts) := by
  induction parts generalizing current with
  | nil => trivial
  | cons part parts ih =>
    have hstep : Passes file mayFail (do
        let child ← openChild false current part
        orOs (ask (.close current))
        return child) := by
      refine Yields.then (openChild_passes current part) fun child _ => ?_
      exact Yields.then (close_passes current) fun _ _ => trivial
    exact Yields.then (Yields.onRaise hstep.catchOs (close_passes current)) fun child _ => ih child

/-- A directory is refused for its path only. -/
theorem openDir_bind_computes {α : Type} {f : Fd → CacheM α} {r : Except Str α}
    (h : ∀ fd, Computes file mayFail (f fd) r) :
    Computes file mayFail (openDir path what false >>= f) (do
      let _ ← pathComponents path what
      r) := by
  rw [openDir]
  simp only [bind_assoc]
  refine Computes.bind (Computes.orFail _) fun parts _ => ?_
  refine Yields.then openRoot_passes fun current _ => ?_
  exact Yields.then (walkDirs_passes parts current) fun fd _ => h fd

theorem resolveAnchored_computes :
    Computes file mayFail (resolveAnchored path what) (anchored file path what) := by
  refine Computes.bind (Computes.orFail _) fun parts _ => ?_
  cases parts.getLast? with
  | none => exact Computes.ret path
  | some last =>
    refine openDir_bind_computes fun parent => ?_
    refine Computes.bind ?_ fun _ _ => Computes.ret path
    refine Yields.finally_ ?_ (close_passes parent)
    exact Computes.step (lstat_computes parent last _) (Computes.orFail _)

end

end Ple
end FlashNext
