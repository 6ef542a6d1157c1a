import FlashNext.Compare.Sound

/-!
# Checks that end in a refusal

Evidence of any shape should end in a report or in a `Reject`.  A check that is given a value it
cannot use ends in another exception; `Closed` says that it does not, and the rules below take a
check apart into the values that it reaches.
-/

namespace FlashNext
namespace Compare

open Py (Str Value str)

/-! ## Checks that only refuse -/

/-- The check ends with a value or with a refusal. -/
def Closed {α : Type} (x : Check α) : Prop :=
  (∃ a, x = .ok a) ∨ ∃ message, x = .error (.reject message)

/-- The check lets the run go on. -/
def Passes {α : Type} (x : Check α) : Prop := ∃ a, x = .ok a

section Rules

variable {α β : Type}

@[simp] theorem closed_ok (a : α) : Closed (.ok a : Check α) := .inl ⟨a, rfl⟩

@[simp] theorem closed_pure (a : α) : Closed (pure a : Check α) := .inl ⟨a, rfl⟩

@[simp] theorem closed_refused (message : List Piece) :
    Closed (.error (.reject message) : Check α) :=
  .inr ⟨message, rfl⟩

@[simp] theorem not_closed_raised (e : String) : ¬ Closed (.error (.raised e) : Check α) := by
  rintro (⟨a, h⟩ | ⟨message, h⟩)
  · cases h
  · cases h

@[simp] theorem passes_ok (a : α) : Passes (.ok a : Check α) := ⟨a, rfl⟩

@[simp] theorem passes_pure (a : α) : Passes (pure a : Check α) := ⟨a, rfl⟩

@[simp] theorem not_passes_error (e : Fault) : ¬ Passes (.error e : Check α) := by
  rintro ⟨a, h⟩
  cases h

/-- What is asked after a value that passes, once a value does. -/
theorem forall_iff_of_exists {P C : α → Prop} {D : Prop} (h : ∀ a, P a → (C a ↔ D)) :
    (∀ a, P a → C a) ↔ ((∃ a, P a) → D) :=
  (forall₂_congr h).trans exists_imp.symm

theorem closed_bind {x : Check α} {f : α → Check β} :
    Closed (x >>= f) ↔ Closed x ∧ ∀ a, x = .ok a → Closed (f a) := by
  cases x with
  | ok a =>
    show Closed (f a) ↔ _
    constructor
    · intro h
      exact ⟨closed_ok a, fun b hb => Except.ok.inj hb ▸ h⟩
    · intro h
      exact h.2 a rfl
  | error e =>
    cases e with
    | reject message =>
      show Closed (.error (.reject message) : Check β) ↔ _
      simp
    | raised e =>
      show Closed (.error (.raised e) : Check β) ↔ _
      simp

/-- A check whose value nobody reads. -/
theorem closed_seq {x : Check α} {y : Check β} :
    Closed (x >>= fun _ => y) ↔ Closed x ∧ (Passes x → Closed y) := by
  rw [closed_bind]
  constructor
  · rintro ⟨hx, hy⟩
    refine ⟨hx, fun h => h.elim fun a ha => hy a ha⟩
  · rintro ⟨hx, hy⟩
    exact ⟨hx, fun a ha => hy ⟨a, ha⟩⟩

theorem closed_refusal {message : List Piece} :
    Closed (.error (refusal message) : Check α) ↔ message.all Piece.prints = true := by
  unfold refusal
  split
  · simp_all
  · simp_all

@[simp] theorem closed_rejectIf {bad : Bool} {message : List Piece} :
    Closed (rejectIf bad message) ↔ (bad = true → message.all Piece.prints = true) := by
  cases bad with
  | false => simp [rejectIf, Effect.reject]
  | true => simp [rejectIf, Effect.reject, closed_refusal]

@[simp] theorem passes_rejectIf {bad : Bool} {message : List Piece} :
    Passes (rejectIf bad message) ↔ bad = false := by
  cases bad with
  | false => simp [rejectIf, Effect.reject]
  | true => simp [rejectIf, Effect.reject]

@[simp] theorem closed_orReject {x : Option α} {message : List Piece} :
    Closed (orReject x message) ↔ (x = none → message.all Piece.prints = true) := by
  cases x with
  | none => simp [orReject, Effect.orRaise, closed_refusal]
  | some a => simp [orReject, Effect.orRaise]

@[simp] theorem closed_reject {bad : Bool} {e : String} :
    Closed (Effect.reject bad (Fault.raised e)) ↔ bad = false := by
  cases bad with
  | false => simp [Effect.reject]
  | true => simp [Effect.reject]

@[simp] theorem passes_reject {bad : Bool} {e : Fault} :
    Passes (Effect.reject bad e) ↔ bad = false := by
  cases bad with
  | false => simp [Effect.reject]
  | true => simp [Effect.reject]

@[simp] theorem closed_orRaise {x : Option α} {e : String} :
    Closed (Effect.orRaise x (Fault.raised e)) ↔ x.isSome = true := by
  cases x with
  | none => simp [Effect.orRaise]
  | some a => simp [Effect.orRaise]

@[simp] theorem closed_caught {x : Check α} : Closed (caught x) ↔ Closed x := by
  cases x with
  | ok a => simp [caught]
  | error e => cases e <;> simp [caught]

/-- A loop of checks reaches an item when it passed those before. -/
def UpTo (passes good : α → Prop) : List α → Prop
  | [] => True
  | x :: xs => good x ∧ (passes x → UpTo passes good xs)

theorem closed_mapM {f : α → Check β} {xs : List α} :
    Closed (xs.mapM f) ↔ UpTo (fun x => Passes (f x)) (fun x => Closed (f x)) xs := by
  induction xs with
  | nil => simp [UpTo]
  | cons x xs ih =>
    rw [List.mapM_cons, closed_bind, UpTo, ← ih]
    refine and_congr_right fun _ => ?_
    constructor
    · rintro h ⟨a, ha⟩
      exact (closed_bind.mp (h a ha)).1
    · intro h a ha
      exact closed_bind.mpr ⟨h ⟨a, ha⟩, fun _ _ => closed_pure _⟩

theorem closed_forM {f : α → Check Unit} {xs : List α} :
    Closed (xs.forM f) ↔ UpTo (fun x => Passes (f x)) (fun x => Closed (f x)) xs := by
  induction xs with
  | nil => exact iff_of_true (closed_ok ()) trivial
  | cons x xs ih =>
    rw [List.forM, closed_seq, UpTo, ← ih]

theorem UpTo.congr {passes passes' good good' : α → Prop} {xs : List α}
    (hgood : ∀ x ∈ xs, good x ↔ good' x)
    (hpasses : ∀ x ∈ xs, good' x → (passes x ↔ passes' x)) :
    UpTo passes good xs ↔ UpTo passes' good' xs := by
  induction xs with
  | nil => rfl
  | cons x xs ih =>
    rw [UpTo, UpTo, hgood x List.mem_cons_self, ih
      (fun y hy => hgood y (List.mem_cons_of_mem _ hy))
      fun y hy => hpasses y (List.mem_cons_of_mem _ hy)]
    exact and_congr_right fun hx => imp_congr_left (hpasses x List.mem_cons_self hx)

theorem upTo_map {passes good : β → Prop} {g : α → β} {xs : List α} :
    UpTo passes good (xs.map g) ↔ UpTo (fun x => passes (g x)) (fun x => good (g x)) xs := by
  induction xs with
  | nil => rfl
  | cons x xs ih => rw [List.map_cons, UpTo, UpTo, ih]

/-- A loop whose checks raise whenever they do not pass reaches every item. -/
theorem upTo_self {good : α → Prop} {xs : List α} : UpTo good good xs ↔ ∀ x ∈ xs, good x := by
  induction xs with
  | nil => simp [UpTo]
  | cons x xs ih =>
    rw [UpTo, List.forall_mem_cons, ih]
    exact ⟨fun h => ⟨h.1, h.2 h.1⟩, fun h => ⟨h.1, fun _ => h.2⟩⟩

/-- A loop over checks that never refuse: it passes, or it raises. -/
theorem closed_mapM_bind {γ : Type} {f : α → Check β} {p : α → Bool} {g : α → β}
    {k : List β → Check γ} (hok : ∀ x, p x = true → f x = .ok (g x))
    (hraised : ∀ x, p x = false → ¬ Closed (f x)) {xs : List α} :
    Closed (xs.mapM f >>= k) ↔
      (∀ x ∈ xs, p x = true) ∧ ((∀ x ∈ xs, p x = true) → Closed (k (xs.map g))) := by
  have hiff : ∀ x, Closed (f x) ↔ p x = true := by
    intro x
    cases hx : p x with
    | true => simp [hok x hx]
    | false => simp [hraised x hx]
  have hall : UpTo (fun x => Passes (f x)) (fun x => Closed (f x)) xs ↔ ∀ x ∈ xs, p x = true := by
    rw [← upTo_self]
    refine UpTo.congr (fun x _ => hiff x) fun x _ hx => ?_
    rw [hok x hx]
    simp [hx]
  rw [closed_bind, closed_mapM, hall]
  refine and_congr_right fun hp => ?_
  have hxs : xs.mapM f = .ok (xs.map g) := by
    rw [Effect.mapM_ok, List.forall₂_map_right_iff, List.forall₂_same]
    exact fun x hx => hok x (hp x hx)
  rw [hxs]
  simp only [Except.ok.injEq, forall_eq']
  exact ⟨fun h _ => h, fun h => h hp⟩

end Rules

theorem dictOf_eq {v : Value} (h : v.asDict?.isSome = true) : dictOf v = .ok (fieldsOf v) := by
  obtain ⟨fields, hfields⟩ := Option.isSome_iff_exists.mp h
  rw [dictOf, fieldsOf, hfields]
  rfl

theorem not_closed_dictOf {v : Value} (h : v.asDict?.isSome = false) : ¬ Closed (dictOf v) := by
  rw [dictOf, closed_orRaise, h]
  exact Bool.false_ne_true

/-! ## Values -/

/-- `require_finite_positive` can use the value: as a number it is not too large for a float, and
otherwise its text can go into the refusal. -/
def usable (v : Value) : Bool := floatable v && v.prints

/-- A finite number above zero. -/
def positive (v : Value) : Prop := ∃ q, number? v = some q ∧ 0 < q

theorem closed_requireFinitePositive {v : Value} {what : List Piece}
    (hwhat : what.all Piece.prints = true) :
    Closed (requireFinitePositive v what) ↔ usable v = true := by
  have hmessage : ∀ piece : Piece, piece.prints = true →
      (what ++ [.text " must be finite and > 0, got ", piece]).all Piece.prints = true := by
    intro piece hpiece
    rw [List.all_append, hwhat]
    simp [hpiece]
  cases v with
  | int n =>
    cases hfloats : Py.floats n with
    | false => simp [requireFinitePositive, usable, floatable, hfloats]
    | true =>
      have hfits : Value.prints (.int n) = true := Py.fits_of_floats hfloats
      have hfloat : Piece.prints (.repr (.float n)) = true := rfl
      simp only [requireFinitePositive, usable, floatable, hfloats, hfits, Bool.not_true,
        Bool.false_eq_true, if_false, Bool.and_self, iff_true]
      split
      · exact closed_refusal.mpr (hmessage _ hfloat)
      · exact closed_ok _
  | float q =>
    have hfloat : Piece.prints (.repr (.float q)) = true := rfl
    refine iff_of_true ?_ rfl
    rw [requireFinitePositive]
    split
    · exact closed_refusal.mpr (hmessage _ hfloat)
    · exact closed_ok _
  | nonfinite x => exact iff_of_true (closed_refusal.mpr (hmessage _ rfl)) rfl
  | _ => simp [requireFinitePositive, closed_refusal, hwhat, usable, floatable]

theorem passes_requireFinitePositive (v : Value) (what : List Piece) :
    Passes (requireFinitePositive v what) ↔ positive v ∧ floatable v = true := by
  constructor
  · rintro ⟨q, hq⟩
    obtain ⟨hnumber, hfloat⟩ := requireFinitePositive_ok.mp hq
    exact ⟨⟨q, hnumber⟩, hfloat⟩
  · rintro ⟨⟨q, hnumber⟩, hfloat⟩
    exact ⟨q, requireFinitePositive_ok.mpr ⟨hnumber, hfloat⟩⟩

/-- `float` takes the value. -/
def convertible (env : Env) : Value → Bool
  | .bool _ => true
  | .int n => Py.floats n
  | .float _ => true
  | .nonfinite _ => true
  | .str s => (env.parseFloat s).isSome
  | _ => false

theorem closed_floatOf {env : Env} {v : Value} :
    Closed (floatOf env v) ↔ convertible env v = true := by
  cases v with
  | int n =>
    cases hfloats : Py.floats n with
    | false => simp [floatOf, convertible, hfloats]
    | true => simp [floatOf, convertible, hfloats]
  | str s => simp [floatOf, convertible]
  | _ => simp [floatOf, convertible]

end Compare
end FlashNext
