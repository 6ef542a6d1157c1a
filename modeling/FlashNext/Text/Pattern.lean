import Mathlib.Data.List.Basic

/-!
# Patterns with groups

A pattern is a sequence of literals, of nonempty runs of one class and of choices.  `run` gives
all ways in which a backtracking matcher matches the front of a text, in the order it tries
them, with what each run and each choice took and the text that is left.  `fullmatch?` asks that
nothing is left; `matchEnd?` is a match that ends in `$`, which a last newline may follow.
-/

namespace FlashNext
namespace Text

variable {α : Type}

inductive Piece (α : Type) where
  | lit (text : List α)
  | many (p : α → Bool)
  | oneOf (alts : List (List α))

/-! ## Matching -/

/-- The nonempty runs at the front, the longest first, each with the text after it. -/
def runsOf (p : α → Bool) : List α → List (List α × List α)
  | [] => []
  | c :: s => if p c then (runsOf p s).map (fun x => (c :: x.1, x.2)) ++ [([c], s)] else []

section

variable [DecidableEq α]

/-- The texts among the choices that stand at the front. -/
def choicesOf (alts : List (List α)) (s : List α) : List (List α × List α) :=
  (alts.filter fun t => t.isPrefixOf s).map fun t => (t, s.drop t.length)

def run : List (Piece α) → List α → List (List (List α) × List α)
  | [], s => [([], s)]
  | .lit t :: ps, s => if t.isPrefixOf s then run ps (s.drop t.length) else []
  | .many p :: ps, s => (runsOf p s).flatMap fun x => (run ps x.2).map fun y => (x.1 :: y.1, y.2)
  | .oneOf alts :: ps, s =>
    (choicesOf alts s).flatMap fun x => (run ps x.2).map fun y => (x.1 :: y.1, y.2)

def fullmatch? (ps : List (Piece α)) (s : List α) : Option (List (List α)) :=
  ((run ps s).find? fun x => x.2.isEmpty).map (·.1)

def matchEnd? (newline : α) (ps : List (Piece α)) (s : List α) : Option (List (List α)) :=
  ((run ps s).find? fun x => x.2.isEmpty || x.2 == [newline]).map (·.1)

end

/-! ## What a match is -/

/-- The groups are ones that the pattern can have taken. -/
def Fits : List (Piece α) → List (List α) → Prop
  | [], gs => gs = []
  | .lit _ :: ps, gs => Fits ps gs
  | .many p :: ps, gs =>
    ∃ g gs', gs = g :: gs' ∧ (g ≠ [] ∧ ∀ c ∈ g, p c = true) ∧ Fits ps gs'
  | .oneOf alts :: ps, gs => ∃ g gs', gs = g :: gs' ∧ g ∈ alts ∧ Fits ps gs'

/-- The text that the pattern matches with these groups. -/
def render : List (Piece α) → List (List α) → List α
  | [], _ => []
  | .lit t :: ps, gs => t ++ render ps gs
  | .many _ :: ps, g :: gs => g ++ render ps gs
  | .oneOf _ :: ps, g :: gs => g ++ render ps gs
  | .many _ :: _, [] => []
  | .oneOf _ :: _, [] => []

theorem mem_runsOf {p : α → Bool} {s g r : List α} :
    (g, r) ∈ runsOf p s ↔ (g ≠ [] ∧ ∀ c ∈ g, p c = true) ∧ s = g ++ r := by
  induction s generalizing g with
  | nil =>
    rw [runsOf]
    constructor
    · intro h
      cases h
    · rintro ⟨⟨hne, -⟩, hs⟩
      exact absurd (List.append_eq_nil_iff.mp hs.symm).1 hne
  | cons c s ih =>
    rw [runsOf]
    by_cases hc : p c = true
    · rw [if_pos hc, List.mem_append, List.mem_map, List.mem_singleton]
      constructor
      · rintro (⟨⟨g', r'⟩, hmem, heq⟩ | heq)
        · obtain ⟨rfl, rfl⟩ := Prod.mk.inj heq
          obtain ⟨⟨-, hall⟩, rfl⟩ := ih.mp hmem
          exact ⟨⟨List.cons_ne_nil _ _, List.forall_mem_cons.mpr ⟨hc, hall⟩⟩, rfl⟩
        · obtain ⟨rfl, rfl⟩ := Prod.mk.inj heq
          exact ⟨⟨List.cons_ne_nil _ _, List.forall_mem_singleton.mpr hc⟩, rfl⟩
      · rintro ⟨⟨hne, hall⟩, hs⟩
        cases g with
        | nil => exact absurd rfl hne
        | cons d g =>
          obtain ⟨rfl, rfl⟩ := List.cons.inj hs
          by_cases hg : g = []
          · subst hg
            exact Or.inr rfl
          · have hrest := (List.forall_mem_cons.mp hall).2
            exact Or.inl ⟨(g, r), ih.mpr ⟨⟨hg, hrest⟩, rfl⟩, rfl⟩
    · rw [if_neg hc]
      constructor
      · intro h
        cases h
      · rintro ⟨⟨hne, hall⟩, hs⟩
        cases g with
        | nil => exact absurd rfl hne
        | cons d g =>
          obtain ⟨rfl, -⟩ := List.cons.inj hs
          exact absurd (hall c List.mem_cons_self) hc

section

variable [DecidableEq α]

theorem mem_choicesOf {alts : List (List α)} {s g r : List α} :
    (g, r) ∈ choicesOf alts s ↔ g ∈ alts ∧ s = g ++ r := by
  rw [choicesOf, List.mem_map]
  constructor
  · rintro ⟨t, ht, heq⟩
    obtain ⟨rfl, rfl⟩ := Prod.mk.inj heq
    obtain ⟨hmem, hprefix⟩ := List.mem_filter.mp ht
    obtain ⟨rest, rfl⟩ := List.isPrefixOf_iff_prefix.mp hprefix
    rw [List.drop_left]
    exact ⟨hmem, rfl⟩
  · rintro ⟨hmem, rfl⟩
    refine ⟨g, List.mem_filter.mpr ⟨hmem, ?_⟩, ?_⟩
    · exact List.isPrefixOf_iff_prefix.mpr (List.prefix_append g r)
    · rw [List.drop_left]

theorem mem_run {ps : List (Piece α)} {s : List α} {gs : List (List α)} {r : List α} :
    (gs, r) ∈ run ps s ↔ Fits ps gs ∧ s = render ps gs ++ r := by
  induction ps generalizing s gs with
  | nil =>
    rw [run, List.mem_singleton, Prod.mk.injEq, Fits, render, List.nil_append]
    exact and_congr_right fun _ => eq_comm
  | cons piece ps ih =>
    cases piece with
    | lit t =>
      rw [run, Fits, render, List.append_assoc]
      by_cases ht : t.isPrefixOf s = true
      · obtain ⟨rest, rfl⟩ := List.isPrefixOf_iff_prefix.mp ht
        rw [if_pos ht, List.drop_left, ih, List.append_cancel_left_eq]
      · rw [if_neg ht]
        constructor
        · intro h
          cases h
        · rintro ⟨-, rfl⟩
          exact absurd (List.isPrefixOf_iff_prefix.mpr (List.prefix_append t _)) ht
    | many p =>
      rw [run, Fits, List.mem_flatMap]
      constructor
      · rintro ⟨⟨g, s'⟩, hg, hmem⟩
        obtain ⟨⟨gs', r'⟩, hrun, heq⟩ := List.mem_map.mp hmem
        obtain ⟨rfl, rfl⟩ := Prod.mk.inj heq
        obtain ⟨hrunOf, rfl⟩ := mem_runsOf.mp hg
        obtain ⟨hfits, rfl⟩ := ih.mp hrun
        exact ⟨⟨g, gs', rfl, hrunOf, hfits⟩, (List.append_assoc _ _ _).symm⟩
      · rintro ⟨⟨g, gs', rfl, hrunOf, hfits⟩, rfl⟩
        refine ⟨(g, render ps gs' ++ r), mem_runsOf.mpr ⟨hrunOf, ?_⟩, ?_⟩
        · exact List.append_assoc _ _ _
        · exact List.mem_map.mpr ⟨(gs', r), ih.mpr ⟨hfits, rfl⟩, rfl⟩
    | oneOf alts =>
      rw [run, Fits, List.mem_flatMap]
      constructor
      · rintro ⟨⟨g, s'⟩, hg, hmem⟩
        obtain ⟨⟨gs', r'⟩, hrun, heq⟩ := List.mem_map.mp hmem
        obtain ⟨rfl, rfl⟩ := Prod.mk.inj heq
        obtain ⟨hchoice, rfl⟩ := mem_choicesOf.mp hg
        obtain ⟨hfits, rfl⟩ := ih.mp hrun
        exact ⟨⟨g, gs', rfl, hchoice, hfits⟩, (List.append_assoc _ _ _).symm⟩
      · rintro ⟨⟨g, gs', rfl, hmem, hfits⟩, rfl⟩
        refine ⟨(g, render ps gs' ++ r), mem_choicesOf.mpr ⟨hmem, ?_⟩, ?_⟩
        · exact List.append_assoc _ _ _
        · exact List.mem_map.mpr ⟨(gs', r), ih.mpr ⟨hfits, rfl⟩, rfl⟩

theorem fullmatch?_eq_some {ps : List (Piece α)} {s : List α} {gs : List (List α)}
    (h : fullmatch? ps s = some gs) : Fits ps gs ∧ s = render ps gs := by
  obtain ⟨⟨gs', r⟩, hfind, rfl⟩ := Option.map_eq_some_iff.mp h
  have hr := List.find?_some hfind
  change r.isEmpty = true at hr
  obtain ⟨hfits, hs⟩ := mem_run.mp (List.mem_of_find?_eq_some hfind)
  rw [List.isEmpty_iff.mp hr, List.append_nil] at hs
  exact ⟨hfits, hs⟩

theorem matchEnd?_eq_some {newline : α} {ps : List (Piece α)} {s : List α} {gs : List (List α)}
    (h : matchEnd? newline ps s = some gs) :
    Fits ps gs ∧ (s = render ps gs ∨ s = render ps gs ++ [newline]) := by
  obtain ⟨⟨gs', r⟩, hfind, rfl⟩ := Option.map_eq_some_iff.mp h
  have hr := List.find?_some hfind
  change (r.isEmpty || r == [newline]) = true at hr
  obtain ⟨hfits, hs⟩ := mem_run.mp (List.mem_of_find?_eq_some hfind)
  rw [Bool.or_eq_true, List.isEmpty_iff, beq_iff_eq] at hr
  rcases hr with hr | hr
  · rw [hr, List.append_nil] at hs
    exact ⟨hfits, Or.inl hs⟩
  · rw [hr] at hs
    exact ⟨hfits, Or.inr hs⟩

theorem fullmatch?_isSome {ps : List (Piece α)} {s : List α} :
    (fullmatch? ps s).isSome = true ↔ ∃ gs, Fits ps gs ∧ s = render ps gs := by
  constructor
  · intro h
    obtain ⟨gs, hgs⟩ := Option.isSome_iff_exists.mp h
    exact ⟨gs, fullmatch?_eq_some hgs⟩
  · rintro ⟨gs, hfits, hs⟩
    rw [fullmatch?, Option.isSome_map, List.find?_isSome]
    refine ⟨(gs, []), mem_run.mpr ⟨hfits, ?_⟩, rfl⟩
    rw [hs, List.append_nil]

theorem matchEnd?_isSome {newline : α} {ps : List (Piece α)} {s : List α} :
    (matchEnd? newline ps s).isSome = true ↔
      ∃ gs, Fits ps gs ∧ (s = render ps gs ∨ s = render ps gs ++ [newline]) := by
  constructor
  · intro h
    obtain ⟨gs, hgs⟩ := Option.isSome_iff_exists.mp h
    exact ⟨gs, matchEnd?_eq_some hgs⟩
  · rintro ⟨gs, hfits, hs⟩
    rw [matchEnd?, Option.isSome_map, List.find?_isSome]
    rcases hs with hs | hs
    · refine ⟨(gs, []), mem_run.mpr ⟨hfits, ?_⟩, rfl⟩
      rw [hs, List.append_nil]
    · refine ⟨(gs, [newline]), mem_run.mpr ⟨hfits, hs⟩, ?_⟩
      simp

/-! ## Texts that match in one way -/

/-- No other groups give this text, with or without a last newline. -/
def Unambiguous (newline : α) (ps : List (Piece α)) (gs : List (List α)) : Prop :=
  ∀ gs', Fits ps gs' → (render ps gs = render ps gs' ∨ render ps gs = render ps gs' ++ [newline]) →
    gs' = gs

theorem fullmatch?_render {newline : α} {ps : List (Piece α)} {gs : List (List α)}
    (hfits : Fits ps gs) (h : Unambiguous newline ps gs) :
    fullmatch? ps (render ps gs) = some gs := by
  obtain ⟨gs', hgs'⟩ := Option.isSome_iff_exists.mp
    (fullmatch?_isSome.mpr ⟨gs, hfits, rfl⟩)
  obtain ⟨hfits', hs⟩ := fullmatch?_eq_some hgs'
  rw [hgs', h gs' hfits' (Or.inl hs)]

theorem matchEnd?_render {newline : α} {ps : List (Piece α)} {gs : List (List α)}
    (hfits : Fits ps gs) (h : Unambiguous newline ps gs) :
    matchEnd? newline ps (render ps gs) = some gs := by
  obtain ⟨gs', hgs'⟩ := Option.isSome_iff_exists.mp
    (matchEnd?_isSome.mpr ⟨gs, hfits, Or.inl rfl⟩)
  obtain ⟨hfits', hs⟩ := matchEnd?_eq_some hgs'
  rw [hgs', h gs' hfits' hs]

end

/-- Where a run ends before a character of another class, it has one end. -/
theorem append_cons_inj {p : α → Bool} {a b s t : List α} {c d : α} (ha : ∀ x ∈ a, p x = true)
    (hb : ∀ x ∈ b, p x = true) (hc : p c = false) (hd : p d = false)
    (h : a ++ c :: s = b ++ d :: t) : a = b ∧ c = d ∧ s = t := by
  induction a generalizing b with
  | nil =>
    cases b with
    | nil =>
      obtain ⟨rfl, rfl⟩ := List.cons.inj h
      exact ⟨rfl, rfl, rfl⟩
    | cons y b =>
      obtain ⟨rfl, -⟩ := List.cons.inj h
      have hy := hb c List.mem_cons_self
      rw [hc] at hy
      cases hy
  | cons x a ih =>
    cases b with
    | nil =>
      obtain ⟨rfl, -⟩ := List.cons.inj h
      have hx := ha x List.mem_cons_self
      rw [hd] at hx
      cases hx
    | cons y b =>
      obtain ⟨rfl, htail⟩ := List.cons.inj h
      obtain ⟨rfl, hrest⟩ := ih (fun z hz => ha z (List.mem_cons_of_mem _ hz))
        (fun z hz => hb z (List.mem_cons_of_mem _ hz)) htail
      exact ⟨rfl, hrest⟩

end Text
end FlashNext
