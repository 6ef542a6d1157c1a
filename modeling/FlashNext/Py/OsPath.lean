import FlashNext.Py.Value
import FlashNext.Text.Words

/-!
# Normal paths

`normpath` and `abspath` of `os.path`.  An absolute path is normalised to one slash, or to two where
it begins with exactly two, and its components; `pathText` writes components below one slash, and
what is written so is normal.
-/

namespace FlashNext
namespace Py

/-- What one component does to those that are kept. -/
def keepComponent (absolute : Bool) (kept : List Str) (comp : Str) : List Str :=
  if comp = [] ∨ comp = str "." then kept
  else if comp ≠ str ".." ∨ (absolute = false ∧ kept = []) ∨ kept.getLast? = some (str "..") then
    kept ++ [comp]
  else kept.dropLast

def components (absolute : Bool) (path : Str) : List Str :=
  (path.splitOn 47).foldl (keepComponent absolute) []

def initialSlashes : Str → Nat
  | 47 :: 47 :: 47 :: _ => 1
  | 47 :: 47 :: _ => 2
  | 47 :: _ => 1
  | _ => 0

/-- `os.path.normpath`. -/
def normpath (path : Str) : Str :=
  let slashes := initialSlashes path
  let normal := List.replicate slashes 47 ++ [47].intercalate (components (slashes != 0) path)
  if normal = [] then str "." else normal

/-- `os.path.abspath`. -/
def abspath (cwd path : Str) : Str :=
  if path.head? = some 47 then normpath path
  else normpath (if cwd.getLast? = some 47 then cwd ++ path else cwd ++ 47 :: path)

/-- A component that normalisation keeps as it is. -/
structure Plain (comp : Str) : Prop where
  nonempty : comp ≠ []
  noSlash : 47 ∉ comp
  notDot : comp ≠ str "."
  notDots : comp ≠ str ".."

/-- The path of components below one slash. -/
def pathText (comps : List Str) : Str := 47 :: [47].intercalate comps

/-! ## The components of a normal path -/

theorem keepComponent_plain {kept : List Str} {comp : Str} (hslash : 47 ∉ comp)
    (h : ∀ c ∈ kept, Plain c) : ∀ c ∈ keepComponent true kept comp, Plain c := by
  unfold keepComponent
  split
  · exact h
  · next hskip =>
    obtain ⟨hempty, hdot⟩ := not_or.mp hskip
    split
    · next hadd =>
      have hdots : comp ≠ str ".." := by
        rcases hadd with hdots | hstart | hlast
        · exact hdots
        · exact absurd hstart.1 (by decide)
        · exact absurd rfl (h _ (List.mem_of_getLast? hlast)).notDots
      intro c hc
      rcases List.mem_append.mp hc with hc | hc
      · exact h c hc
      · rw [List.mem_singleton.mp hc]
        exact ⟨hempty, hslash, hdot, hdots⟩
    · exact fun c hc => h c ((List.dropLast_sublist kept).subset hc)

theorem components_plain (path : Str) : ∀ c ∈ components true path, Plain c := by
  have hpieces : ∀ piece ∈ path.splitOn 47, 47 ∉ piece := by
    intro piece hpiece hslash
    exact absurd (Text.sep_of_mem_splitOnP hpiece 47 hslash) (by decide)
  have hfold : ∀ (pieces kept : List Str), (∀ piece ∈ pieces, 47 ∉ piece) →
      (∀ c ∈ kept, Plain c) → ∀ c ∈ pieces.foldl (keepComponent true) kept, Plain c := by
    intro pieces
    induction pieces with
    | nil => exact fun _ _ h => h
    | cons piece pieces ih =>
      intro kept hslash h
      obtain ⟨hpiece, hrest⟩ := List.forall_mem_cons.mp hslash
      exact ih _ hrest (keepComponent_plain hpiece h)
  exact hfold _ [] hpieces fun c hc => absurd hc List.not_mem_nil

theorem keepComponent_of_plain {kept : List Str} {comp : Str} (h : Plain comp) :
    keepComponent true kept comp = kept ++ [comp] := by
  have hskip : ¬ (comp = [] ∨ comp = str ".") := fun hor => hor.elim h.nonempty h.notDot
  rw [keepComponent, if_neg hskip, if_pos (.inl h.notDots)]

theorem splitOn_pathText {comps : List Str} (h : ∀ c ∈ comps, Plain c) :
    (pathText comps).splitOn 47 = [] :: if comps = [] then [[]] else comps := by
  have hhead : (pathText comps).splitOn 47 = [] :: ([47].intercalate comps).splitOn 47 :=
    List.splitOn_append_cons_self_of_not_mem (List.not_mem_nil) _
  rw [hhead]
  split
  · next hnil =>
    rw [hnil]
    rfl
  · next hne =>
    rw [List.splitOn_intercalate 47 (fun c hc => (h c hc).noSlash) hne]

theorem components_pathText {comps : List Str} (h : ∀ c ∈ comps, Plain c) :
    components true (pathText comps) = comps := by
  have hfold : ∀ (cs kept : List Str), (∀ c ∈ cs, Plain c) →
      cs.foldl (keepComponent true) kept = kept ++ cs := by
    intro cs
    induction cs with
    | nil => exact fun kept _ => (List.append_nil kept).symm
    | cons c cs ih =>
      intro kept hcs
      obtain ⟨hc, hrest⟩ := List.forall_mem_cons.mp hcs
      rw [List.foldl_cons, keepComponent_of_plain hc, ih _ hrest, List.append_assoc]
      rfl
  rw [components, splitOn_pathText h]
  split
  · next hnil =>
    rw [hnil]
    rfl
  · exact hfold comps [] h

theorem initialSlashes_pathText {comps : List Str} (h : ∀ c ∈ comps, Plain c) :
    initialSlashes (pathText comps) = 1 := by
  cases comps with
  | nil => rfl
  | cons c comps =>
    obtain ⟨hc, -⟩ := List.forall_mem_cons.mp h
    obtain ⟨x, cs, rfl⟩ := List.exists_cons_of_ne_nil hc.nonempty
    have hx : x ≠ 47 := by
      rintro rfl
      exact hc.noSlash List.mem_cons_self
    have htext : ∃ rest, pathText ((x :: cs) :: comps) = 47 :: x :: rest := by
      cases comps with
      | nil => exact ⟨cs, by rw [pathText, List.intercalate_singleton]⟩
      | cons d comps => exact ⟨_, rfl⟩
    obtain ⟨rest, htext⟩ := htext
    rw [htext]
    unfold initialSlashes
    split
    · rfl
    · next heq => exact absurd (List.cons.inj (List.cons.inj heq).2).1 hx
    · rfl
    · next hother => exact absurd rfl (hother (x :: rest))

theorem normpath_absolute {path : Str} (h : initialSlashes path ≠ 0) :
    normpath path = List.replicate (initialSlashes path) 47 ++
      [47].intercalate (components true path) := by
  have htrue : (initialSlashes path != 0) = true := bne_iff_ne.mpr h
  rw [normpath, htrue]
  refine if_neg ?_
  rw [List.append_eq_nil_iff, List.replicate_eq_nil_iff]
  exact fun hnil => h hnil.1

theorem initialSlashes_cases {path : Str} (h : path.head? = some 47) :
    initialSlashes path = 1 ∨ initialSlashes path = 2 := by
  obtain ⟨rest, rfl⟩ := List.head?_eq_some_iff.mp h
  unfold initialSlashes
  split
  · exact .inl rfl
  · exact .inr rfl
  · exact .inl rfl
  · next hother => exact absurd rfl (hother rest)

/-- What is written below one slash is normal. -/
theorem abspath_pathText {cwd : Str} {comps : List Str} (h : ∀ c ∈ comps, Plain c) :
    abspath cwd (pathText comps) = pathText comps := by
  have hone := initialSlashes_pathText h
  have hhead : (pathText comps).head? = some 47 := rfl
  rw [abspath, if_pos hhead, normpath_absolute (by rw [hone]; decide), hone, components_pathText h]
  rfl

/-- An absolute path with one slash or with three and more. -/
theorem abspath_single {cwd path : Str} (h : path.head? = some 47)
    (hone : initialSlashes path = 1) : abspath cwd path = pathText (components true path) := by
  rw [abspath, if_pos h, normpath_absolute (by rw [hone]; decide), hone]
  rfl

theorem abspath_double {cwd path : Str} (h : path.head? = some 47)
    (htwo : initialSlashes path = 2) :
    abspath cwd path = 47 :: pathText (components true path) := by
  rw [abspath, if_pos h, normpath_absolute (by rw [htwo]; decide), htwo]
  rfl

/-! ## Paths below paths -/

/-- Components, each behind a slash. -/
def spread (comps : List Str) : Str := comps.flatMap fun c => 47 :: c

theorem pathText_cons (c : Str) (comps : List Str) :
    pathText (c :: comps) = spread (c :: comps) := by
  induction comps generalizing c with
  | nil =>
    rw [spread, List.flatMap_cons, List.flatMap_nil, List.append_nil, pathText,
      List.intercalate_singleton]
  | cons d comps ih =>
    have htail : [47].intercalate (c :: d :: comps) = c ++ pathText (d :: comps) := by
      rw [pathText, List.intercalate_cons_cons, List.append_assoc, List.singleton_append]
    rw [pathText, htail, ih]
    rfl

/-- What stands before the first slash. -/
theorem append_cancel {a b rest rest' : Str} (ha : 47 ∉ a) (hb : 47 ∉ b)
    (hrest : rest.head? = some 47) (hrest' : rest' = [] ∨ rest'.head? = some 47)
    (h : a ++ rest = b ++ rest') : a = b ∧ rest = rest' := by
  have hplain : ∀ {w : Str}, 47 ∉ w → ∀ c ∈ w, (c != 47) = true := by
    intro w hw c hc
    rw [bne_iff_ne]
    rintro rfl
    exact hw hc
  have hstop : ∀ {w r : Str}, 47 ∉ w → r = [] ∨ r.head? = some 47 →
      (w ++ r).takeWhile (· != 47) = w := by
    intro w r hw hr
    rw [List.takeWhile_append_of_pos (hplain hw)]
    rcases hr with rfl | hr
    · rw [List.takeWhile_nil, List.append_nil]
    · obtain ⟨r, rfl⟩ := List.head?_eq_some_iff.mp hr
      rw [List.takeWhile_cons_of_neg (by decide), List.append_nil]
  have heq : a = b := by
    rw [← hstop ha (.inr hrest), h, hstop hb hrest']
  subst heq
  exact ⟨rfl, List.append_cancel_left h⟩

theorem head_spread (comps : List Str) : spread comps = [] ∨ (spread comps).head? = some 47 := by
  cases comps with
  | nil => exact .inl rfl
  | cons c comps => exact .inr rfl

/-- A path is below another exactly when its components continue the other's. -/
theorem spread_below_iff {m t : List Str} (hm : ∀ c ∈ m, 47 ∉ c) (ht : ∀ c ∈ t, 47 ∉ c) :
    spread m ++ [47] <+: spread t ↔ m <+: t ∧ m ≠ t := by
  induction m generalizing t with
  | nil =>
    cases t with
    | nil => simp [spread]
    | cons d t =>
      refine iff_of_true ?_ ⟨List.nil_prefix, (List.cons_ne_nil d t).symm⟩
      exact List.cons_prefix_cons.mpr ⟨rfl, List.nil_prefix⟩
  | cons c m ih =>
    obtain ⟨hc, hm'⟩ := List.forall_mem_cons.mp hm
    cases t with
    | nil =>
      refine iff_of_false (fun h => ?_) fun h => ?_
      · exact absurd (List.prefix_nil.mp h) (List.cons_ne_nil _ _)
      · exact absurd (List.prefix_nil.mp h.1) (List.cons_ne_nil _ _)
    | cons d t =>
      obtain ⟨hd, ht'⟩ := List.forall_mem_cons.mp ht
      have hleft : spread (c :: m) ++ [47] = 47 :: (c ++ (spread m ++ [47])) := by
        rw [spread, List.flatMap_cons, ← spread, List.append_assoc, List.cons_append]
      have hright : spread (d :: t) = 47 :: (d ++ spread t) := by
        rw [spread, List.flatMap_cons, ← spread, List.cons_append]
      have hhead : (spread m ++ [47]).head? = some 47 := by
        rcases head_spread m with hnil | hhead
        · rw [hnil]
          rfl
        · obtain ⟨rest, hrest⟩ := List.head?_eq_some_iff.mp hhead
          rw [hrest]
          rfl
      rw [hleft, hright, List.cons_prefix_cons, List.cons_prefix_cons]
      constructor
      · rintro ⟨-, rest, h⟩
        rw [List.append_assoc] at h
        have hhead' : (spread m ++ [47] ++ rest).head? = some 47 := by
          obtain ⟨tail, htail⟩ := List.head?_eq_some_iff.mp hhead
          rw [htail]
          rfl
        obtain ⟨rfl, hrest⟩ := append_cancel hc hd hhead' (head_spread t) h
        obtain ⟨hstem, hne⟩ := (ih hm' ht').mp ⟨rest, hrest⟩
        exact ⟨⟨rfl, hstem⟩, fun h => hne (List.cons.inj h).2⟩
      · rintro ⟨⟨rfl, hstem⟩, hne⟩
        have hne' : m ≠ t := fun h => hne (by rw [h])
        obtain ⟨rest, hrest⟩ := (ih hm' ht').mpr ⟨hstem, hne'⟩
        exact ⟨rfl, rest, by rw [List.append_assoc, hrest]⟩

theorem pathText_inj {m t : List Str} (hm : ∀ c ∈ m, Plain c) (ht : ∀ c ∈ t, Plain c) :
    pathText m = pathText t ↔ m = t := by
  constructor
  · intro h
    rw [← components_pathText hm, h, components_pathText ht]
  · intro h
    rw [h]

/-- Longer prefixes of a path are longer texts. -/
theorem length_spread_append (m rest : List Str) :
    (spread (m ++ rest)).length = (spread m).length + (spread rest).length := by
  rw [spread, List.flatMap_append, List.length_append]
  rfl

end Py
end FlashNext
