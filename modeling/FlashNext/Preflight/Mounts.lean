import FlashNext.Py.OsPath
import FlashNext.Spans.Longest

/-!
# The mount that a path is on

`mountFor` scans the mount table once and keeps an entry whose mount point is longer than the best
one so far.  Of several mounts at one place it keeps the first, while the last is the one that is
seen there (`mountFor_single`, `mountFor_visible_iff`).
-/

namespace FlashNext
namespace Preflight

open Py (Str str)
open Spans (keepLonger longest exists_longest le_longest foldl_keepLonger foldl_keepLonger_congr)

structure MountEntry where
  mountPoint : Str
  fstype : Str
  source : Str
  deriving DecidableEq

/-- The path is the mount point or lies below it, by the text of both. -/
def coversText (mountPoint target : Str) : Bool :=
  target = mountPoint ||
    ((mountPoint.reverse.dropWhile (· == 47)).reverse ++ [47]).isPrefixOf target

/-- One round of the scan. -/
def betterMount (cwd target : Str) (best : Option MountEntry) (entry : MountEntry) :
    Option MountEntry :=
  let mountPoint := Py.abspath cwd entry.mountPoint
  if coversText mountPoint target then
    match best with
    | none => some entry
    | some b =>
      if (Py.abspath cwd b.mountPoint).length < mountPoint.length then some entry else some b
  else best

/-- `_mount_for`. -/
def mountFor (cwd target : Str) (mounts : List MountEntry) : Option MountEntry :=
  mounts.foldl (betterMount cwd (Py.abspath cwd target)) none

/-! ## What is seen at a path -/

/-- A mount table as the kernel lists it: every mount point is a normal absolute path. -/
structure MountTable where
  entries : List MountEntry
  /-- The components of a mount point. -/
  place : MountEntry → List Str
  normal : ∀ e ∈ entries, (∀ c ∈ place e, Py.Plain c) ∧ e.mountPoint = Py.pathText (place e)

variable {cwd target : Str} {T : MountTable}

/-- The mount point is the path or an ancestor of it. -/
def Above (T : MountTable) (target : Str) (e : MountEntry) : Prop :=
  T.place e <+: Py.components true target

instance (T : MountTable) (target : Str) (e : MountEntry) : Decidable (Above T target e) :=
  inferInstanceAs (Decidable (_ <+: _))

/-- The entries whose mount point is the path or an ancestor of it. -/
def above (T : MountTable) (target : Str) : List MountEntry :=
  T.entries.filter fun e => Above T target e

/-- The number of components of the longest mount point above the path. -/
def depth (T : MountTable) (target : Str) : Nat :=
  longest (fun e => (T.place e).length) (above T target)

/-- The entries at the longest mount point above the path, in the order of the table. -/
def atTop (T : MountTable) (target : Str) : List MountEntry :=
  (above T target).filter fun e => (T.place e).length = depth T target

/-- The entry of the filesystem that is seen at the path: the last that was mounted there. -/
def visible (T : MountTable) (target : Str) : Option MountEntry := (atTop T target).getLast?

/-! ## What the scan keeps -/

theorem rstrip_pathText {c : Str} {comps : List Str} (h : ∀ d ∈ c :: comps, Py.Plain d) :
    ((Py.pathText (c :: comps)).reverse.dropWhile (· == 47)).reverse = Py.spread (c :: comps) := by
  rw [Py.pathText_cons]
  obtain ⟨front, last, hsplit⟩ : ∃ front last, c :: comps = front ++ [last] :=
    ⟨_, _, (List.dropLast_append_getLast (List.cons_ne_nil c comps)).symm⟩
  have hplain : Py.Plain last := by
    refine h last ?_
    rw [hsplit]
    exact List.mem_append_right _ (List.mem_singleton_self last)
  obtain ⟨x, cs, hlast⟩ := List.exists_cons_of_ne_nil (List.reverse_ne_nil_iff.mpr hplain.nonempty)
  have hx : (x == 47) = false := by
    rw [beq_eq_false_iff_ne]
    rintro rfl
    refine hplain.noSlash (List.mem_reverse.mp ?_)
    rw [hlast]
    exact List.mem_cons_self
  have hreverse : ∃ rest, (Py.spread (c :: comps)).reverse = x :: rest := by
    refine ⟨cs ++ 47 :: (Py.spread front).reverse, ?_⟩
    rw [hsplit, Py.spread, List.flatMap_append, List.reverse_append, List.flatMap_cons,
      List.flatMap_nil, List.append_nil, List.reverse_cons, hlast, List.append_assoc]
    rfl
  obtain ⟨rest, hrest⟩ := hreverse
  rw [hrest, List.dropWhile_cons_of_neg (by rw [hx]; decide), ← hrest, List.reverse_reverse]

theorem coversText_single {m t : List Str} (hm : ∀ c ∈ m, Py.Plain c) (ht : ∀ c ∈ t, Py.Plain c) :
    coversText (Py.pathText m) (Py.pathText t) = true ↔ m <+: t := by
  rw [coversText, Bool.or_eq_true, decide_eq_true_eq, List.isPrefixOf_iff_prefix, eq_comm,
    Py.pathText_inj hm ht]
  cases m with
  | nil =>
    refine iff_of_true (.inr ?_) List.nil_prefix
    exact List.cons_prefix_cons.mpr ⟨rfl, List.nil_prefix⟩
  | cons c m =>
    rw [rstrip_pathText hm]
    have hbelow : Py.spread (c :: m) ++ [47] <+: Py.pathText t ↔ c :: m <+: t ∧ c :: m ≠ t := by
      cases t with
      | nil =>
        refine iff_of_false (fun h => ?_) fun h => ?_
        · have hlength := h.length_le
          obtain ⟨x, cs, hc⟩ := List.exists_cons_of_ne_nil
            (hm c List.mem_cons_self).nonempty
          simp [Py.pathText, Py.spread, hc] at hlength
        · exact absurd (List.prefix_nil.mp h.1) (List.cons_ne_nil _ _)
      | cons d t =>
        rw [Py.pathText_cons]
        exact Py.spread_below_iff (fun c hc => (hm c hc).noSlash) fun c hc => (ht c hc).noSlash
    rw [hbelow]
    constructor
    · intro h
      rcases h with rfl | h
      · exact List.prefix_rfl
      · exact h.1
    · intro h
      by_cases heq : c :: m = t
      · exact .inl heq
      · exact .inr ⟨h, heq⟩

/-- Below two slashes only the root is found. -/
theorem coversText_double {m t : List Str} (hm : ∀ c ∈ m, Py.Plain c) :
    coversText (Py.pathText m) (47 :: Py.pathText t) = true ↔ m = [] := by
  rw [coversText, Bool.or_eq_true, decide_eq_true_eq, List.isPrefixOf_iff_prefix]
  cases m with
  | nil =>
    refine iff_of_true (.inr ?_) rfl
    exact List.cons_prefix_cons.mpr ⟨rfl, List.nil_prefix⟩
  | cons c m =>
    obtain ⟨x, cs, hc⟩ := List.exists_cons_of_ne_nil (hm c List.mem_cons_self).nonempty
    have hx : x ≠ 47 := by
      rintro rfl
      refine (hm c List.mem_cons_self).noSlash ?_
      rw [hc]
      exact List.mem_cons_self
    have htext : ∃ rest, Py.spread (c :: m) = 47 :: x :: rest := by
      refine ⟨cs ++ Py.spread m, ?_⟩
      rw [Py.spread, List.flatMap_cons, hc]
      rfl
    obtain ⟨rest, htext⟩ := htext
    rw [rstrip_pathText hm, Py.pathText_cons, htext]
    refine iff_of_false (fun h => ?_) (List.cons_ne_nil c m)
    rcases h with h | h
    · exact hx (List.cons.inj (List.cons.inj h).2).1.symm
    · exact hx (List.cons_prefix_cons.mp (List.cons_prefix_cons.mp h).2).1

/-- Mount points above one path are as long as they are deep. -/
theorem length_lt_iff {m m' t : List Str} (hm : m <+: t) (hm' : m' <+: t)
    (ht : ∀ c ∈ t, Py.Plain c) :
    (Py.pathText m).length < (Py.pathText m').length ↔ m.length < m'.length := by
  have hlonger : ∀ {a b : List Str}, a <+: t → b <+: t → a.length < b.length →
      (Py.pathText a).length < (Py.pathText b).length := by
    intro a b ha hb hlt
    obtain ⟨rest, rfl⟩ := List.prefix_of_prefix_length_le ha hb (Nat.le_of_lt hlt)
    have hrest : rest ≠ [] := by
      rintro rfl
      rw [List.append_nil] at hlt
      exact Nat.lt_irrefl _ hlt
    obtain ⟨d, ds, rfl⟩ := List.exists_cons_of_ne_nil hrest
    have hd : Py.Plain d := by
      refine ht d (hb.subset ?_)
      exact List.mem_append_right _ List.mem_cons_self
    have hpos : 0 < d.length := List.length_pos_iff.mpr hd.nonempty
    have hspread : 2 ≤ (Py.spread (d :: ds)).length := by
      rw [Py.spread, List.flatMap_cons, List.length_append, List.length_cons]
      omega
    cases a with
    | nil =>
      rw [List.nil_append, Py.pathText_cons]
      show 1 < _
      omega
    | cons c a =>
      rw [List.cons_append, Py.pathText_cons, Py.pathText_cons, ← List.cons_append,
        Py.length_spread_append]
      omega
  constructor
  · intro h
    by_contra hge
    rcases Nat.lt_or_eq_of_le (Nat.le_of_not_lt hge) with hlt | heq
    · exact absurd (hlonger hm' hm hlt) (Nat.lt_asymm h)
    · have hsame : m' = m := by
        obtain ⟨rest, hrest⟩ := List.prefix_of_prefix_length_le hm' hm (Nat.le_of_eq heq)
        have hnil : rest = [] := by
          have hlength := congrArg List.length hrest
          rw [List.length_append] at hlength
          exact List.length_eq_zero_iff.mp (by omega)
        rw [← hrest, hnil, List.append_nil]
      rw [hsame] at h
      exact Nat.lt_irrefl _ h
  · exact hlonger hm hm'

/-! ## What the scan finds -/

/-- The entries that the text of the path is compared with successfully. -/
def found (T : MountTable) (target : Str) : List MountEntry :=
  T.entries.filter fun e => coversText e.mountPoint target

theorem abspath_mountPoint {e : MountEntry} (h : e ∈ T.entries) :
    Py.abspath cwd e.mountPoint = e.mountPoint := by
  obtain ⟨hplain, hpoint⟩ := T.normal e h
  rw [hpoint, Py.abspath_pathText hplain]

/-- What was kept so far is an entry of the table. -/
theorem betterMount_eq {best : Option MountEntry} {e : MountEntry} (he : e ∈ T.entries)
    (hbest : ∀ b ∈ best, b ∈ T.entries) :
    betterMount cwd target best e = if coversText e.mountPoint target then
      keepLonger (fun e => e.mountPoint.length) best e else best := by
  unfold betterMount
  rw [abspath_mountPoint he]
  cases best with
  | none => rfl
  | some b =>
    simp only [abspath_mountPoint (hbest b rfl)]
    rfl

theorem mountFor_eq : mountFor cwd target T.entries =
    (found T (Py.abspath cwd target)).foldl (keepLonger fun e => e.mountPoint.length) none := by
  rw [found, List.foldl_filter, mountFor]
  have hfold : ∀ (es : List MountEntry) (best : Option MountEntry), (∀ e ∈ es, e ∈ T.entries) →
      (∀ b ∈ best, b ∈ T.entries) →
      es.foldl (betterMount cwd (Py.abspath cwd target)) best =
        es.foldl (fun best e => if coversText e.mountPoint (Py.abspath cwd target) then
          keepLonger (fun e => e.mountPoint.length) best e else best) best := by
    intro es
    induction es with
    | nil => exact fun _ _ _ => rfl
    | cons e es ih =>
      intro best hes hbest
      obtain ⟨he, hes⟩ := List.forall_mem_cons.mp hes
      rw [List.foldl_cons, List.foldl_cons, betterMount_eq he hbest]
      refine ih _ hes fun b hb => ?_
      split at hb
      · rcases Spans.keepLonger_cases hb with hb | hb
        · rw [hb]
          exact he
        · exact hbest b hb
      · exact hbest b hb
  exact hfold T.entries none (fun _ h => h) fun b hb => by cases hb

/-- With one slash in front the first of the deepest entries is found. -/
theorem mountFor_single (hhead : target.head? = some 47) (hone : Py.initialSlashes target = 1) :
    mountFor cwd target T.entries = (atTop T target).head? := by
  have ht := Py.components_plain target
  have hfound : found T (Py.abspath cwd target) = above T target := by
    refine List.filter_congr fun e he => ?_
    obtain ⟨hplain, hpoint⟩ := T.normal e he
    rw [Py.abspath_single hhead hone, hpoint, Bool.eq_iff_iff, decide_eq_true_eq]
    exact coversText_single hplain ht
  rw [mountFor_eq, hfound, foldl_keepLonger_congr _ fun e => (T.place e).length,
    foldl_keepLonger]
  · rfl
  · intro e he e' he'
    obtain ⟨hmem, habove⟩ := List.mem_filter.mp he
    obtain ⟨hmem', habove'⟩ := List.mem_filter.mp he'
    rw [(T.normal e hmem).2, (T.normal e' hmem').2]
    exact length_lt_iff (of_decide_eq_true habove) (of_decide_eq_true habove') ht

/-- With two slashes in front the first of the root's entries is found. -/
theorem mountFor_double (hhead : target.head? = some 47) (htwo : Py.initialSlashes target = 2) :
    mountFor cwd target T.entries = (T.entries.filter fun e => T.place e = []).head? := by
  have hfound : found T (Py.abspath cwd target) = T.entries.filter fun e => T.place e = [] := by
    refine List.filter_congr fun e he => ?_
    obtain ⟨hplain, hpoint⟩ := T.normal e he
    rw [Py.abspath_double hhead htwo, hpoint, Bool.eq_iff_iff, decide_eq_true_eq]
    exact coversText_double hplain
  rw [mountFor_eq, hfound, foldl_keepLonger_congr _ fun e => (T.place e).length,
    foldl_keepLonger]
  · congr 1
    refine List.filter_eq_self.mpr fun e he => decide_eq_true ?_
    have hroot : ∀ e ∈ T.entries.filter fun e => T.place e = [], (T.place e).length = 0 := by
      intro e he
      rw [of_decide_eq_true (List.mem_filter.mp he).2]
      rfl
    obtain ⟨e', he', hlongest⟩ := exists_longest (fun e => (T.place e).length)
      (List.ne_nil_of_mem he)
    rw [← hlongest, hroot e he, hroot e' he']
  · intro e he e' he'
    obtain ⟨hmem, hroot⟩ := List.mem_filter.mp he
    obtain ⟨hmem', hroot'⟩ := List.mem_filter.mp he'
    rw [(T.normal e hmem).2, (T.normal e' hmem').2, of_decide_eq_true hroot,
      of_decide_eq_true hroot']
    exact iff_of_false (Nat.lt_irrefl _) (Nat.lt_irrefl _)

/-- The first and the last mount at the longest mount point above the path are the same, and the
path is not written with two slashes below a mount other than the root. -/
def Unstacked (T : MountTable) (target : Str) : Prop :=
  (Py.initialSlashes target = 1 ∨ ∀ e ∈ above T target, T.place e = []) ∧
    (atTop T target).head? = (atTop T target).getLast?

theorem mountFor_visible_iff (hhead : target.head? = some 47) :
    mountFor cwd target T.entries = visible T target ↔ Unstacked T target := by
  rcases Py.initialSlashes_cases hhead with hone | htwo
  · rw [mountFor_single hhead hone, Unstacked, visible]
    exact (and_iff_right (.inl hone)).symm
  · have hnot : Py.initialSlashes target ≠ 1 := by
      rw [htwo]
      decide
    rw [mountFor_double hhead htwo, Unstacked, or_iff_right hnot, visible]
    by_cases hroots : ∀ e ∈ above T target, T.place e = []
    · have habove : above T target = T.entries.filter fun e => T.place e = [] := by
        show T.entries.filter (fun e => decide (Above T target e)) = _
        refine List.filter_congr fun e he => decide_eq_decide.mpr ?_
        constructor
        · exact fun h => hroots e (List.mem_filter.mpr ⟨he, decide_eq_true h⟩)
        · intro h
          show T.place e <+: _
          rw [h]
          exact List.nil_prefix
      have htop : atTop T target = above T target := by
        refine List.filter_eq_self.mpr fun e he => decide_eq_true ?_
        obtain ⟨e', he', hlongest⟩ := exists_longest (fun e => (T.place e).length)
          (List.ne_nil_of_mem he)
        show _ = longest (fun e => (T.place e).length) (above T target)
        rw [← hlongest, hroots e he, hroots e' he']
      rw [and_iff_right hroots, htop, habove]
    · refine iff_of_false (fun h => ?_) fun h => hroots h.1
      simp only [not_forall] at hroots
      obtain ⟨e, he, hne⟩ := hroots
      have hdeep : 0 < depth T target :=
        Nat.lt_of_lt_of_le (List.length_pos_iff.mpr hne)
          (le_longest (fun e => (T.place e).length) he)
      obtain ⟨e', he', hlongest⟩ := exists_longest (fun e => (T.place e).length)
        (List.ne_nil_of_mem he)
      have hmem : e' ∈ atTop T target := List.mem_filter.mpr ⟨he', decide_eq_true hlongest⟩
      cases hlast : (atTop T target).getLast? with
      | none =>
        rw [List.getLast?_eq_none_iff.mp hlast] at hmem
        exact absurd hmem List.not_mem_nil
      | some last =>
        rw [hlast] at h
        have hroot := of_decide_eq_true (List.mem_filter.mp (List.mem_of_head? h)).2
        have hlength := of_decide_eq_true
          (List.mem_filter.mp (List.mem_of_getLast? hlast)).2
        rw [hroot] at hlength
        exact absurd hlength.symm (Nat.pos_iff_ne_zero.mp hdeep)

end Preflight
end FlashNext
