import FlashNext.Py.Dump

/-!
# Objects in the order of their keys

`sortKeys` and `canon` both put the fields of an object in the order of their keys and differ only
in what they make of the values.  So they tell the same objects apart wherever they tell the same
values apart (`canonFields_eq_iff`).
-/

namespace FlashNext
namespace Py
namespace Value

/-- The fields in the order of their keys. -/
def sortFields (fs : List (Str × Value)) : List (Str × Value) := fs.foldr insertField []

/-- The fields with every value replaced. -/
def mapFields (g : Value → Value) (fs : List (Str × Value)) : List (Str × Value) :=
  fs.map fun f => (f.1, g f.2)

theorem insertField_map (g : Value → Value) (f : Str × Value) (fs : List (Str × Value)) :
    insertField (f.1, g f.2) (mapFields g fs) = mapFields g (insertField f fs) := by
  induction fs with
  | nil => rfl
  | cons h hs ih =>
    show insertField (f.1, g f.2) ((h.1, g h.2) :: mapFields g hs) = _
    rw [insertField, insertField]
    by_cases hle : f.1 ≤ h.1
    · rw [if_pos hle, if_pos hle]
      rfl
    · rw [if_neg hle, if_neg hle, ih]
      rfl

theorem sortFields_map (g : Value → Value) (fs : List (Str × Value)) :
    sortFields (mapFields g fs) = mapFields g (sortFields fs) := by
  induction fs with
  | nil => rfl
  | cons f fs ih =>
    show insertField (f.1, g f.2) (sortFields (mapFields g fs)) = _
    rw [ih, insertField_map]
    rfl

theorem sortKeysFields_eq (fs : List (Str × Value)) :
    sortKeysFields fs = mapFields sortKeys (sortFields fs) := by
  rw [← sortFields_map]
  induction fs with
  | nil => rfl
  | cons f fs ih =>
    rw [sortKeysFields, ih]
    rfl

theorem canonFields_eq (fs : List (Str × Value)) :
    canonFields fs = mapFields canon (sortFields fs) := by
  rw [← sortFields_map]
  induction fs with
  | nil => rfl
  | cons f fs ih =>
    rw [canonFields, ih]
    rfl

theorem insertField_perm (f : Str × Value) (fs : List (Str × Value)) :
    (insertField f fs).Perm (f :: fs) := by
  induction fs with
  | nil => exact .refl _
  | cons g gs ih =>
    rw [insertField]
    by_cases hle : f.1 ≤ g.1
    · rw [if_pos hle]
    · rw [if_neg hle]
      exact (ih.cons g).trans (.swap f g gs)

theorem sortFields_perm (fs : List (Str × Value)) : (sortFields fs).Perm fs := by
  induction fs with
  | nil => exact .refl _
  | cons f fs ih => exact (insertField_perm f (sortFields fs)).trans (ih.cons f)

theorem mem_sortKeysFields {fs : List (Str × Value)} {f : Str × Value} :
    f ∈ sortKeysFields fs ↔ ∃ g ∈ fs, (g.1, sortKeys g.2) = f := by
  rw [sortKeysFields_eq, mapFields, List.mem_map]
  simp only [(sortFields_perm fs).mem_iff]

theorem keys_sortKeysFields (fs : List (Str × Value)) :
    ((sortKeysFields fs).map (·.1)).Perm (fs.map (·.1)) := by
  rw [sortKeysFields_eq, mapFields, List.map_map]
  exact (sortFields_perm fs).map (·.1)

theorem lookup_sortKeysFields (fs : List (Str × Value)) (key : String) :
    lookup (sortKeysFields fs) key = (lookup fs key).map sortKeys := by
  unfold lookup
  induction fs with
  | nil => rfl
  | cons f fs ih =>
    rw [sortKeysFields, find?_insertField, List.find?_cons, List.find?_cons]
    cases f.1 == Py.str key with
    | true => rfl
    | false => exact ih

theorem field_sortKeysFields (fs : List (Str × Value)) (key : String) :
    field (sortKeysFields fs) key = sortKeys (field fs key) := by
  rw [field, lookup_sortKeysFields, field]
  cases lookup fs key <;> rfl

/-! ## Keys that are there once -/

theorem distinctFields_iff {fs : List (Str × Value)} :
    distinctFields fs = true ↔ ∀ f ∈ fs, distinct f.2 = true := by
  induction fs with
  | nil => simp [distinctFields]
  | cons f fs ih => simp [distinctFields, ih]

mutual
theorem distinct_sortKeys : ∀ v : Value, distinct (sortKeys v) = distinct v
  | .list xs => by
    rw [sortKeys, distinct, distinct]
    exact distinctItems_sortKeys xs
  | .dict fs => by
    have hkeys : ((sortKeysFields fs).map (·.1)).Nodup ↔ (fs.map (·.1)).Nodup :=
      (keys_sortKeysFields fs).nodup_iff
    rw [sortKeys, distinct, distinct, distinctFields_sortKeys fs]
    simp only [hkeys]
  | .none => rfl
  | .bool _ => rfl
  | .int _ => rfl
  | .float _ => rfl
  | .nonfinite _ => rfl
  | .str _ => rfl

theorem distinctItems_sortKeys : ∀ xs : List Value,
    distinctItems (sortKeysItems xs) = distinctItems xs
  | [] => rfl
  | x :: xs => by
    rw [sortKeysItems, distinctItems, distinctItems, distinct_sortKeys x,
      distinctItems_sortKeys xs]

theorem distinctFields_sortKeys : ∀ fs : List (Str × Value),
    distinctFields (sortKeysFields fs) = distinctFields fs
  | [] => rfl
  | (key, x) :: fs => by
    have hinsert : distinctFields (insertField (key, sortKeys x) (sortKeysFields fs)) =
        distinctFields ((key, sortKeys x) :: sortKeysFields fs) := by
      rw [Bool.eq_iff_iff, distinctFields_iff, distinctFields_iff]
      simp only [(insertField_perm (key, sortKeys x) (sortKeysFields fs)).mem_iff]
    rw [sortKeysFields, hinsert, distinctFields, distinctFields, distinct_sortKeys x,
      distinctFields_sortKeys fs]
end

/-! ## Objects that are told apart -/

theorem mapFields_eq_iff {g h : Value → Value} {fs gs : List (Str × Value)}
    (hvalues : ∀ f ∈ fs, ∀ f' ∈ gs, f.1 = f'.1 → (g f.2 = g f'.2 ↔ h f.2 = h f'.2)) :
    mapFields g fs = mapFields g gs ↔ mapFields h fs = mapFields h gs := by
  induction fs generalizing gs with
  | nil =>
    cases gs with
    | nil => exact iff_of_true rfl rfl
    | cons f' gs => exact iff_of_false (by simp [mapFields]) (by simp [mapFields])
  | cons f fs ih =>
    cases gs with
    | nil => exact iff_of_false (by simp [mapFields]) (by simp [mapFields])
    | cons f' gs =>
      have hrest : mapFields g fs = mapFields g gs ↔ mapFields h fs = mapFields h gs :=
        ih fun x hx y hy =>
          hvalues x (List.mem_cons_of_mem _ hx) y (List.mem_cons_of_mem _ hy)
      have hfirst := hvalues f (by simp) f' (by simp)
      simp only [mapFields, List.map_cons, List.cons.injEq, Prod.mk.injEq] at hrest ⊢
      constructor
      · intro heq
        exact ⟨⟨heq.1.1, (hfirst heq.1.1).mp heq.1.2⟩, hrest.mp heq.2⟩
      · intro heq
        exact ⟨⟨heq.1.1, (hfirst heq.1.1).mpr heq.1.2⟩, hrest.mpr heq.2⟩

/-- Where both tell the same values of a key apart they tell the same objects apart. -/
theorem canonFields_eq_iff {fs gs : List (Str × Value)}
    (hvalues : ∀ f ∈ fs, ∀ f' ∈ gs, f.1 = f'.1 →
      (canon f.2 = canon f'.2 ↔ sortKeys f.2 = sortKeys f'.2)) :
    canonFields fs = canonFields gs ↔ sortKeysFields fs = sortKeysFields gs := by
  rw [canonFields_eq, canonFields_eq, sortKeysFields_eq, sortKeysFields_eq]
  refine mapFields_eq_iff ?_
  intro f hf f' hf'
  exact hvalues f ((sortFields_perm fs).mem_iff.mp hf) f' ((sortFields_perm gs).mem_iff.mp hf')

/-! ## Sorting twice -/

/-- The fields are in the order of their keys. -/
def Ordered (fs : List (Str × Value)) : Prop := fs.Pairwise fun f g => f.1 ≤ g.1

theorem ordered_insertField {f : Str × Value} {fs : List (Str × Value)} (h : Ordered fs) :
    Ordered (insertField f fs) := by
  induction fs with
  | nil => exact List.pairwise_singleton _ _
  | cons g gs ih =>
    unfold Ordered at h ih ⊢
    rw [List.pairwise_cons] at h
    rw [insertField]
    by_cases hle : f.1 ≤ g.1
    · rw [if_pos hle, List.pairwise_cons, List.pairwise_cons]
      refine ⟨?_, h⟩
      intro x hx
      cases List.mem_cons.mp hx with
      | inl heq => exact heq ▸ hle
      | inr hmem => exact le_trans hle (h.1 x hmem)
    · rw [if_neg hle, List.pairwise_cons]
      refine ⟨?_, ih h.2⟩
      intro x hx
      cases List.mem_cons.mp ((insertField_perm f gs).mem_iff.mp hx) with
      | inl heq => exact heq ▸ le_of_lt (lt_of_not_ge hle)
      | inr hmem => exact h.1 x hmem

theorem ordered_sortFields (fs : List (Str × Value)) : Ordered (sortFields fs) := by
  induction fs with
  | nil => exact List.Pairwise.nil
  | cons f fs ih => exact ordered_insertField ih

theorem sortFields_of_ordered {fs : List (Str × Value)} (h : Ordered fs) : sortFields fs = fs := by
  induction fs with
  | nil => rfl
  | cons f fs ih =>
    unfold Ordered at h ih
    rw [List.pairwise_cons] at h
    show insertField f (sortFields fs) = f :: fs
    rw [ih h.2]
    cases fs with
    | nil => rfl
    | cons g gs => rw [insertField, if_pos (h.1 g (by simp))]

mutual
theorem sortKeys_sortKeys : ∀ v : Value, sortKeys (sortKeys v) = sortKeys v
  | .list xs => by rw [sortKeys, sortKeys, sortKeysItems_sortKeysItems xs]
  | .dict fs => by
    have hvalues := sortKeys_values fs
    rw [sortKeys, sortKeys, sortKeysFields_eq, sortKeysFields_eq, sortFields_map,
      sortFields_of_ordered (ordered_sortFields fs), mapFields, mapFields, List.map_map]
    refine congrArg Value.dict (List.map_congr_left ?_)
    intro f hf
    show (f.1, sortKeys (sortKeys f.2)) = (f.1, sortKeys f.2)
    rw [hvalues f ((sortFields_perm fs).mem_iff.mp hf)]
  | .none => rfl
  | .bool _ => rfl
  | .int _ => rfl
  | .float _ => rfl
  | .nonfinite _ => rfl
  | .str _ => rfl

theorem sortKeysItems_sortKeysItems : ∀ xs : List Value,
    sortKeysItems (sortKeysItems xs) = sortKeysItems xs
  | [] => rfl
  | x :: xs => by
    rw [sortKeysItems, sortKeysItems, sortKeys_sortKeys x, sortKeysItems_sortKeysItems xs]

theorem sortKeys_values : ∀ (fs : List (Str × Value)), ∀ f ∈ fs,
    sortKeys (sortKeys f.2) = sortKeys f.2
  | [] => by simp
  | (key, x) :: fs => by
    rw [List.forall_mem_cons]
    exact ⟨sortKeys_sortKeys x, sortKeys_values fs⟩
end

end Value
end Py
end FlashNext
