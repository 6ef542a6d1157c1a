import Mathlib.Data.List.Forall2

/-!
# Sequences of checks

Pure code that may raise is a sequence in `Except`.  `bind_ok` takes a successful sequence
apart, one step at a time.
-/

namespace FlashNext
namespace Effect

variable {ε α β : Type}

/-- Raise when the test finds something wrong. -/
def reject (bad : Bool) (e : ε) : Except ε Unit :=
  if bad then .error e else .ok ()

theorem bind_ok {x : Except ε α} {f : α → Except ε β} {b : β} :
    x >>= f = .ok b ↔ ∃ a, x = .ok a ∧ f a = .ok b := by
  cases x with
  | error e =>
    constructor
    · intro h
      cases h
    · rintro ⟨a, h, -⟩
      cases h
  | ok a =>
    constructor
    · intro h
      exact ⟨a, rfl, h⟩
    · rintro ⟨a', h, hf⟩
      rw [Except.ok.injEq] at h
      rw [h]
      exact hf

theorem bind_error {x : Except ε α} {f : α → Except ε β} {e : ε} :
    x >>= f = .error e ↔ x = .error e ∨ ∃ a, x = .ok a ∧ f a = .error e := by
  cases x with
  | error e' =>
    constructor
    · intro h
      rw [Except.error.inj h]
      exact .inl rfl
    · rintro (h | ⟨a, h, -⟩)
      · rw [Except.error.inj h]
        rfl
      · cases h
  | ok a =>
    constructor
    · intro h
      exact .inr ⟨a, rfl, h⟩
    · rintro (h | ⟨a', h, hf⟩)
      · cases h
      · rw [Except.ok.injEq] at h
        rw [h]
        exact hf

theorem reject_ok {bad : Bool} {e : ε} {u : Unit} : reject bad e = .ok u ↔ bad = false := by
  cases bad
  · exact ⟨fun _ => rfl, fun _ => rfl⟩
  · constructor <;> intro h <;> cases h

theorem pure_ok {a b : α} : (pure a : Except ε α) = .ok b ↔ a = b := by
  rw [show (pure a : Except ε α) = .ok a from rfl, Except.ok.injEq]

/-- The value of an option, or the exception that reports its absence. -/
def orRaise (x : Option α) (e : ε) : Except ε α :=
  match x with
  | some a => .ok a
  | none => .error e

theorem orRaise_ok {x : Option α} {e : ε} {a : α} : orRaise x e = .ok a ↔ x = some a := by
  cases x with
  | none => constructor <;> intro h <;> cases h
  | some b => rw [orRaise, Except.ok.injEq, Option.some.injEq]

theorem map_ok {x : Except ε α} {f : α → β} {b : β} :
    x.map f = .ok b ↔ ∃ a, x = .ok a ∧ f a = b := by
  cases x with
  | ok a => simp [Except.map]
  | error e => simp [Except.map]

/-- The sequence raises only these exceptions. -/
def Raises (P : ε → Prop) (x : Except ε α) : Prop := ∀ e, x = .error e → P e

theorem Raises.bind {P : ε → Prop} {x : Except ε α} {f : α → Except ε β} (hx : Raises P x)
    (hf : ∀ a, Raises P (f a)) : Raises P (x >>= f) := by
  intro e h
  rcases bind_error.mp h with h | ⟨a, -, h⟩
  · exact hx e h
  · exact hf a e h

theorem Raises.ok {P : ε → Prop} {a : α} : Raises P (.ok a : Except ε α) := by
  intro e he
  cases he

theorem Raises.error {P : ε → Prop} {e : ε} (h : P e) : Raises P (.error e : Except ε α) := by
  intro e' he
  rw [Except.error.injEq] at he
  exact he ▸ h

theorem Raises.reject {P : ε → Prop} {bad : Bool} {e : ε} (h : P e) :
    Raises P (reject bad e) := by
  cases bad with
  | false => exact Raises.ok
  | true => exact Raises.error h

theorem Raises.orRaise {P : ε → Prop} {x : Option α} {e : ε} (h : P e) :
    Raises P (orRaise x e) := by
  cases x with
  | some a => exact Raises.ok
  | none => exact Raises.error h

/-- A sequence raises what its first check raises or what the second one does after it. -/
theorem raises_bind {P : ε → Prop} {x : Except ε α} {f : α → Except ε β} :
    Raises P (x >>= f) ↔ Raises P x ∧ ∀ a, x = .ok a → Raises P (f a) := by
  constructor
  · intro h
    refine ⟨fun e he => h e (bind_error.mpr (.inl he)), fun a ha e he => ?_⟩
    exact h e (bind_error.mpr (.inr ⟨a, ha, he⟩))
  · rintro ⟨hx, hf⟩ e he
    rcases bind_error.mp he with he | ⟨a, ha, he⟩
    · exact hx e he
    · exact hf a ha e he

/-- A loop raises what a round raises after rounds that passed. -/
theorem raises_mapM {P : ε → Prop} {f : α → Except ε β} {xs : List α} :
    Raises P (xs.mapM f) ↔ ∀ front x rest, xs = front ++ x :: rest →
      (∀ y ∈ front, ∃ b, f y = .ok b) → Raises P (f x) := by
  induction xs with
  | nil =>
    constructor
    · intro _ front x rest hxs
      exact absurd hxs (List.append_ne_nil_of_right_ne_nil _ (List.cons_ne_nil _ _)).symm
    · intro _
      exact Raises.ok
  | cons y ys ih =>
    rw [List.mapM_cons, raises_bind]
    constructor
    · rintro ⟨hy, hys⟩ front x rest hxs hfront
      cases front with
      | nil =>
        obtain ⟨rfl, -⟩ := List.cons.inj hxs
        exact hy
      | cons z front =>
        obtain ⟨rfl, hrest⟩ := List.cons.inj hxs
        obtain ⟨⟨b, hb⟩, hpassed⟩ := List.forall_mem_cons.mp hfront
        exact ih.mp (raises_bind.mp (hys b hb)).1 front x rest hrest hpassed
    · intro h
      refine ⟨h [] y ys rfl fun z hz => absurd hz List.not_mem_nil, fun b hb => ?_⟩
      refine raises_bind.mpr ⟨ih.mpr ?_, fun _ _ => Raises.ok⟩
      intro front x rest hxs hfront
      exact h (y :: front) x rest (congrArg (y :: ·) hxs)
        (List.forall_mem_cons.mpr ⟨⟨b, hb⟩, hfront⟩)

theorem Raises.mapM {P : ε → Prop} {f : α → Except ε β} {xs : List α}
    (h : ∀ x ∈ xs, Raises P (f x)) : Raises P (xs.mapM f) := by
  rw [raises_mapM]
  intro front x rest hxs _
  exact h x (hxs ▸ List.mem_append_right _ List.mem_cons_self)

theorem Raises.forM {P : ε → Prop} {f : α → Except ε Unit} {xs : List α}
    (h : ∀ x ∈ xs, Raises P (f x)) : Raises P (xs.forM f) := by
  induction xs with
  | nil => exact Raises.ok
  | cons x xs ih =>
    obtain ⟨hx, hxs⟩ := List.forall_mem_cons.mp h
    exact hx.bind fun _ => ih hxs

/-- A loop that collects results succeeds when every round does. -/
theorem mapM_ok {f : α → Except ε β} {xs : List α} :
    ∀ {ys : List β}, xs.mapM f = .ok ys ↔ List.Forall₂ (fun x y => f x = .ok y) xs ys := by
  induction xs with
  | nil =>
    intro ys
    rw [List.mapM_nil, pure_ok, List.forall₂_nil_left_iff, eq_comm]
  | cons x xs ih =>
    intro ys
    rw [List.mapM_cons, bind_ok, List.forall₂_cons_left_iff]
    constructor
    · rintro ⟨b, hb, h⟩
      obtain ⟨bs, hbs, h⟩ := bind_ok.mp h
      exact ⟨b, bs, hb, ih.mp hbs, (pure_ok.mp h).symm⟩
    · rintro ⟨b, bs, hb, hbs, rfl⟩
      exact ⟨b, hb, bind_ok.mpr ⟨bs, ih.mpr hbs, rfl⟩⟩

theorem forall₂_exists_left {R : α → β → Prop} :
    ∀ {xs : List α} {ys : List β}, List.Forall₂ R xs ys → ∀ y ∈ ys, ∃ x ∈ xs, R x y
  | _, _, .nil, y, hy => by cases hy
  | _, _, .cons h hs, y, hy => by
    rcases List.mem_cons.mp hy with rfl | hy
    · exact ⟨_, List.mem_cons_self, h⟩
    · obtain ⟨x, hx, hxy⟩ := forall₂_exists_left hs y hy
      exact ⟨x, List.mem_cons_of_mem _ hx, hxy⟩

theorem forall₂_exists_right {R : α → β → Prop} :
    ∀ {xs : List α} {ys : List β}, List.Forall₂ R xs ys → ∀ x ∈ xs, ∃ y ∈ ys, R x y
  | _, _, .nil, x, hx => by cases hx
  | _, _, .cons h hs, x, hx => by
    rcases List.mem_cons.mp hx with rfl | hx
    · exact ⟨_, List.mem_cons_self, h⟩
    · obtain ⟨y, hy, hxy⟩ := forall₂_exists_right hs x hx
      exact ⟨y, List.mem_cons_of_mem _ hy, hxy⟩

/-- Such a loop maps the list when every round's result is known. -/
theorem mapM_eq_map {f : α → Except ε β} {g : α → β} {xs : List α} {ys : List β}
    (hf : ∀ x y, f x = .ok y → y = g x) (h : xs.mapM f = .ok ys) : ys = xs.map g := by
  have hall := mapM_ok.mp h
  clear h
  induction hall with
  | nil => rfl
  | cons hxy _ ih => rw [hf _ _ hxy, ih, List.map_cons]

/-- What each round leaves as it is, the loop leaves as it is. -/
theorem mapM_map_eq {γ : Type} {f : α → Except ε β} {p : α → γ} {q : β → γ} {xs : List α}
    {ys : List β} (hf : ∀ x y, f x = .ok y → q y = p x) (h : xs.mapM f = .ok ys) :
    ys.map q = xs.map p := by
  have hall := mapM_ok.mp h
  clear h
  induction hall with
  | nil => rfl
  | cons hxy _ ih => rw [List.map_cons, List.map_cons, hf _ _ hxy, ih]

/-- A loop of checks passes when every check does. -/
theorem forM_ok {f : α → Except ε Unit} {xs : List α} {u : Unit} :
    xs.forM f = .ok u ↔ ∀ x ∈ xs, f x = .ok () := by
  induction xs with
  | nil => exact ⟨fun _ x hx => absurd hx List.not_mem_nil, fun _ => rfl⟩
  | cons x xs ih =>
    rw [List.forM, bind_ok, List.forall_mem_cons]
    constructor
    · rintro ⟨v, hv, h⟩
      exact ⟨hv, ih.mp h⟩
    · rintro ⟨hx, h⟩
      exact ⟨(), hx, ih.mpr h⟩

/-- A loop that keeps what some of its rounds give. -/
def collect (f : α → Except ε (Option β)) : List α → Except ε (List β)
  | [] => .ok []
  | x :: xs => do
    let y ← f x
    let ys ← collect f xs
    return y.toList ++ ys

theorem Raises.collect {P : ε → Prop} {f : α → Except ε (Option β)} {xs : List α}
    (h : ∀ x, Raises P (f x)) : Raises P (collect f xs) := by
  induction xs with
  | nil => exact Raises.ok
  | cons x xs ih => exact (h x).bind fun _ => ih.bind fun _ => Raises.ok

/-- What each round of such a loop gave. -/
theorem collect_ok {f : α → Except ε (Option β)} {xs : List α} {ys : List β}
    (h : collect f xs = .ok ys) :
    (∀ x ∈ xs, ∃ y, f x = .ok y ∧ ∀ b ∈ y, b ∈ ys) ∧ ∀ b ∈ ys, ∃ x ∈ xs, f x = .ok (some b) := by
  induction xs generalizing ys with
  | nil =>
    obtain rfl := Except.ok.inj h
    exact ⟨fun x hx => absurd hx List.not_mem_nil, fun b hb => absurd hb List.not_mem_nil⟩
  | cons x xs ih =>
    simp only [collect, bind_ok, pure_ok] at h
    obtain ⟨y, hy, zs, hzs, rfl⟩ := h
    obtain ⟨hall, hback⟩ := ih hzs
    refine ⟨fun x' hx' => ?_, fun b hb => ?_⟩
    · rcases List.mem_cons.mp hx' with rfl | hx'
      · refine ⟨y, hy, fun b hb => ?_⟩
        exact List.mem_append_left _ (Option.mem_toList.mpr hb)
      · obtain ⟨y', hy', hmem⟩ := hall x' hx'
        exact ⟨y', hy', fun b hb => List.mem_append_right _ (hmem b hb)⟩
    · rcases List.mem_append.mp hb with hb | hb
      · rw [Option.mem_toList] at hb
        rw [Option.mem_def.mp hb] at hy
        exact ⟨x, List.mem_cons_self, hy⟩
      · obtain ⟨x', hx', hf⟩ := hback b hb
        exact ⟨x', List.mem_cons_of_mem _ hx', hf⟩

theorem Raises.foldlM {P : ε → Prop} {σ : Type} {f : σ → α → Except ε σ} {xs : List α}
    (h : ∀ s x, Raises P (f s x)) (s : σ) : Raises P (xs.foldlM f s) := by
  induction xs generalizing s with
  | nil => exact Raises.ok
  | cons x xs ih => exact (h s x).bind ih

/-- A loop whose rounds each append one result to what `g` shows of the state. -/
theorem foldlM_append {σ : Type} {f : σ → α → Except ε σ} (g : σ → List β)
    {R : α → β → Prop}
    (hf : ∀ s x s', f s x = .ok s' → ∃ y, g s' = g s ++ [y] ∧ R x y) {xs : List α} :
    ∀ {s s' : σ}, xs.foldlM f s = .ok s' →
      ∃ ys, g s' = g s ++ ys ∧ List.Forall₂ R xs ys := by
  induction xs with
  | nil =>
    intro s s' h
    rw [List.foldlM_nil, pure_ok] at h
    exact ⟨[], by rw [h, List.append_nil], .nil⟩
  | cons x xs ih =>
    intro s s' h
    rw [List.foldlM_cons, bind_ok] at h
    obtain ⟨t, ht, h⟩ := h
    obtain ⟨y, hy, hR⟩ := hf s x t ht
    obtain ⟨ys, hys, hall⟩ := ih h
    exact ⟨y :: ys, by rw [hys, hy, List.append_assoc]; rfl, .cons hR hall⟩

end Effect
end FlashNext
