import FlashNext.Niah.Exact

/-!
# The order of the answer

An answer has to name the codes in the order in which they were given, and it is asked to name them
in the order in which they appear.  The two orders are one when the depths increase.
-/

namespace FlashNext
namespace Niah

open Py (Str str)
open Text (Bytes)

/-- The codes in the order in which the needles appear in the prompt. -/
def BuiltCase.documentOrder (case : BuiltCase) : List Str :=
  (case.needles.mergeSort fun a b => decide (a.startOffset ≤ b.startOffset)).map Needle.code

/-! ## What a passing answer is -/

/-- The text after the thinking. -/
def finalText (text : Str) : Str := Py.strip (Py.afterLast thinkClose text)

theorem answerVerdict_pass {case : NiahCase} {text : Obj} {detail : Str}
    (h : answerVerdict case text = some (.pass, detail)) :
    ∃ s, text = .value (.str s) ∧ Py.spaced (Py.words (finalText s)) = Py.spaced case.codes := by
  unfold answerVerdict at h
  simp only [Option.bind_eq_bind] at h
  split at h
  all_goals
    obtain ⟨unclosed, -, h⟩ := Option.bind_eq_some_iff.mp h
    split at h
    · cases h
    obtain ⟨s, hs, h⟩ := Option.bind_eq_some_iff.mp h
    split at h
    · cases h
    split at h
    · cases h
    next hfinal =>
    split at h
    · cases h
    next hwords =>
    refine ⟨s, ?_, not_not.mp hwords⟩
    by_cases htruthy : text.truthy = true
    · rw [if_pos htruthy] at hs
      cases text with
      | value v => exact congrArg Obj.value (Py.Value.asStr?_eq_some.mp hs)
      | other b => cases hs
    · -- a text that counts as empty has no final answer
      rw [if_neg htruthy] at hs
      obtain rfl : [] = s := Option.some.inj hs
      exact absurd rfl hfinal

/-- A result that passes has a text that names the codes as the case has them. -/
theorem checkResponse_pass {interp : Interp} {case : NiahCase} {res : Result} {detail : Str}
    (h : checkResponse interp case res = some (.pass, detail)) :
    ∃ s, res.text = some (.value (.str s)) ∧
      Py.spaced (Py.words (finalText s)) = Py.spaced case.codes := by
  unfold checkResponse at h
  simp only [Option.bind_eq_bind] at h
  obtain ⟨error, -, h⟩ := Option.bind_eq_some_iff.mp h
  split at h
  · unfold errorVerdict at h
    simp only [Option.bind_eq_bind] at h
    obtain ⟨_, -, h⟩ := Option.bind_eq_some_iff.mp h
    obtain ⟨_, -, h⟩ := Option.bind_eq_some_iff.mp h
    obtain ⟨_, -, h⟩ := Option.bind_eq_some_iff.mp h
    split at h
    · cases h
    · cases h
  obtain ⟨usage, -, h⟩ := Option.bind_eq_some_iff.mp h
  split at h
  · cases h
  split at h
  · cases h
  split at h
  · cases h
  obtain ⟨finish, -, h⟩ := Option.bind_eq_some_iff.mp h
  split at h
  · cases h
  obtain ⟨text, htext, h⟩ := Option.bind_eq_some_iff.mp h
  obtain ⟨s, rfl, hwords⟩ := answerVerdict_pass h
  exact ⟨s, htext, hwords⟩

/-! ## Sorted needles -/

/-- Lists on whose members a map is injective are the same when their images are. -/
theorem eq_of_map_eq {α β : Type} {f : α → β} {l m : List α}
    (hinj : ∀ a ∈ l, ∀ b ∈ m, f a = f b → a = b) (h : l.map f = m.map f) : l = m := by
  induction l generalizing m with
  | nil => exact (List.map_eq_nil_iff.mp h.symm).symm
  | cons a l ih =>
    cases m with
    | nil => cases h
    | cons b m =>
      obtain ⟨hab, hlm⟩ := List.cons.inj h
      rw [hinj a List.mem_cons_self b List.mem_cons_self hab, ih _ hlm]
      intro x hx y hy
      exact hinj x (List.mem_cons_of_mem _ hx) y (List.mem_cons_of_mem _ hy)

/-- Needles with distinct codes and places are in the order of the document when each starts after
the one before it. -/
theorem documentOrder_eq_iff {case : BuiltCase} (hcodes : (case.needles.map Needle.code).Nodup)
    (hplaces : case.needles.Pairwise fun a b => a.startOffset ≠ b.startOffset) :
    case.needles.map Needle.code = case.documentOrder ↔
      case.needles.Pairwise fun a b => a.startOffset < b.startOffset := by
  rw [BuiltCase.documentOrder]
  constructor
  · intro h
    have hperm := List.mergeSort_perm case.needles fun a b =>
      decide (a.startOffset ≤ b.startOffset)
    have hsorted : case.needles = case.needles.mergeSort fun a b =>
        decide (a.startOffset ≤ b.startOffset) := by
      refine eq_of_map_eq (fun a ha b hb hab => ?_) h
      exact List.inj_on_of_nodup_map hcodes ha (hperm.mem_iff.mp hb) hab
    have hle : case.needles.Pairwise fun a b => decide (a.startOffset ≤ b.startOffset) = true := by
      rw [hsorted]
      refine List.pairwise_mergeSort ?_ ?_ _
      · intro a b c hab hbc
        rw [decide_eq_true_eq] at *
        omega
      · intro a b
        rw [Bool.or_eq_true, decide_eq_true_eq, decide_eq_true_eq]
        omega
    refine (hle.and hplaces).imp ?_
    rintro a b ⟨hab, hne⟩
    rw [decide_eq_true_eq] at hab
    omega
  · intro h
    rw [List.mergeSort_of_pairwise (h.imp fun hab => decide_eq_true (Int.le_of_lt hab))]

/-! ## Depths -/

theorem truncate_mono {a b : ℚ} (h : a ≤ b) : truncate a ≤ truncate b := by
  unfold truncate
  by_cases ha : 0 ≤ a
  · rw [if_pos ha, if_pos (ha.trans h)]
    exact Int.floor_mono h
  · rw [if_neg ha]
    by_cases hb : 0 ≤ b
    · rw [if_pos hb]
      have ha' : ⌈a⌉ ≤ 0 := Int.ceil_le.mpr (by exact_mod_cast (not_le.mp ha).le)
      exact ha'.trans (Int.floor_nonneg.mpr hb)
    · rw [if_neg hb]
      exact Int.ceil_mono h

section

variable {tokenizer : Tokenizer} {n : Int} {depths : List ℚ} {codes : List Str} {query system : Str}
  {case : BuiltCase} {front body back : List Int}

theorem ExactCase.places_ne
    (h : ExactCase tokenizer n depths codes query system case front body back) :
    case.needles.Pairwise fun a b => a.startOffset ≠ b.startOffset := by
  have hlengths : ∀ needle ∈ case.needles, 0 < needle.length := by
    intro needle hneedle
    exact List.length_pos_iff.mpr (h.tokens needle hneedle).2
  refine h.apart.imp_of_mem ?_
  intro a b ha hb hapart
  have := hlengths a ha
  have := hlengths b hb
  omega

/-- The needles stand in the order of their depths. -/
theorem ExactCase.places_lt_iff
    (h : ExactCase tokenizer n depths codes query system case front body back) :
    (case.needles.Pairwise fun a b => a.startOffset < b.startOffset) ↔
      depths.Pairwise fun a b => a < b := by
  have hn : (0 : ℚ) ≤ n := by
    rw [← h.size]
    exact_mod_cast Int.natCast_nonneg _
  have hmono : ∀ a b : ℚ, a ≤ b → truncate (a * n) ≤ truncate (b * n) := by
    intro a b hab
    exact truncate_mono (mul_le_mul_of_nonneg_right hab hn)
  have hplaces : case.needles.map Needle.startOffset = depths.map fun depth =>
      truncate (depth * n) := by
    have heq : List.Forall₂ (· = ·) (depths.map fun depth => truncate (depth * n))
        (case.needles.map Needle.startOffset) := by
      rw [List.forall₂_map_left_iff, List.forall₂_map_right_iff]
      exact h.offsets.imp fun _ _ hstart => hstart.symm
    exact (List.forall₂_eq_eq_eq ▸ heq : _ = _).symm
  have hne : (depths.map fun depth => truncate (depth * n)).Pairwise (· ≠ ·) := by
    rw [← hplaces]
    exact List.pairwise_map.mpr h.places_ne
  have hlt : (case.needles.Pairwise fun a b => a.startOffset < b.startOffset) ↔
      depths.Pairwise fun a b => truncate (a * n) < truncate (b * n) := by
    rw [← List.pairwise_map (f := Needle.startOffset), hplaces, List.pairwise_map]
  rw [hlt]
  constructor
  · intro hdepths
    refine hdepths.imp ?_
    intro a b hab
    by_contra hba
    have := hmono b a (le_of_not_gt hba)
    omega
  · intro hdepths
    refine (hdepths.and (List.pairwise_map.mp hne)).imp ?_
    rintro a b ⟨hab, hne'⟩
    have := hmono a b hab.le
    omega

end

/-! ## The answer of a built case -/

/-- The order of the codes is that of the document when the depths increase. -/
theorem codes_eq_documentOrder_iff {sha256 : Bytes → Str} {tokenizer : Tokenizer}
    {caseId query system : Str} {n : Int} {depths : List ℚ} {codes : List Str} {case : BuiltCase}
    (h : buildCase sha256 tokenizer caseId n depths codes query system = .ok case) :
    case.toCase.codes = case.documentOrder ↔ depths.Pairwise fun a b => a < b := by
  obtain ⟨front, body, back, hexact⟩ := buildCase_parts h
  obtain ⟨offsets, hbuilt⟩ := buildCase_built h
  have hcodes : (case.needles.map Needle.code).Nodup := by
    rw [hexact.codes]
    exact hbuilt.distinct
  rw [← hexact.places_lt_iff]
  exact documentOrder_eq_iff hcodes hexact.places_ne

/-- A passing answer to a built case names the codes in the order of the case, and that is the order
in which the needles appear exactly when the depths increase. -/
theorem answer_order_iff {sha256 : Bytes → Str} {tokenizer : Tokenizer}
    {caseId query system : Str} {n : Int} {depths : List ℚ} {codes : List Str} {case : BuiltCase}
    (h : buildCase sha256 tokenizer caseId n depths codes query system = .ok case) :
    (∀ interp res detail, checkResponse interp case.toCase res = some (.pass, detail) →
      ∃ s, res.text = some (.value (.str s)) ∧
        Py.spaced (Py.words (finalText s)) = Py.spaced case.toCase.codes) ∧
      (case.toCase.codes = case.documentOrder ↔ depths.Pairwise fun a b => a < b) := by
  refine ⟨?_, codes_eq_documentOrder_iff h⟩
  intro interp res detail hpass
  exact checkResponse_pass hpass

theorem answer_order_swapped :
    swappedCase.toCase.codes = swappedCase.documentOrder ↔
      ([1 / 2, 1 / 10] : List ℚ).Pairwise fun a b => a < b :=
  (answer_order_iff buildCase_swapped).2

/-- A case that asks for `B A` and lets only `A B` pass. -/
theorem answer_out_of_order :
    ¬ ∀ sha256 tokenizer caseId n depths codes query system case,
      buildCase sha256 tokenizer caseId n depths codes query system = .ok case →
        case.toCase.codes = case.documentOrder := by
  intro h
  have hswapped := h _ _ _ _ _ _ _ _ _ buildCase_swapped
  rw [codes_eq_documentOrder_iff buildCase_swapped] at hswapped
  revert hswapped
  decide +kernel

end Niah
end FlashNext
