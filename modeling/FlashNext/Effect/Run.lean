import FlashNext.Effect.Program
import Mathlib.Order.Defs.Unbundled

/-!
# Runs of a program in a world

A semantics says, for each call, which inputs the world may choose and what the call then
answers and does to the world.  `Run S p w o w'` holds when `p` started in `w` can end
with `o` in `w'`.  The rules below take a run of a composed program apart into runs of its
parts, and `Run.rel_of_calls` is the induction behind every frame and invariant: what each
single call respects, every run of calls respects.
-/

namespace FlashNext
namespace Effect

/-- The meaning of the calls over worlds `W`.  `In op` is what the world chooses freely
when `op` is made: the bytes another party wrote, the fault it injects, the answer of a
service. -/
structure Sem (Op : Type) (Ans : Op → Type) (W : Type) where
  In : Op → Type
  allowed : (op : Op) → In op → W → Prop
  step : (op : Op) → In op → W → Ans op × W

variable {Op : Type} {Ans : Op → Type} {W ε ε' α β : Type}

/-- `p` started in `w` can end with `o` in `w'`. -/
def Run (S : Sem Op Ans W) : Prog Op Ans ε α → W → Outcome ε α → W → Prop
  | .ret a, w, o, w' => o = .value a ∧ w' = w
  | .throw e, w, o, w' => o = .raised e ∧ w' = w
  | .cut, w, o, w' => o = .cut ∧ w' = w
  | .call op k, w, o, w' =>
    ∃ i, S.allowed op i w ∧ Run S (k (S.step op i w).1) (S.step op i w).2 o w'

section Rules

variable {S : Sem Op Ans W}

@[simp] theorem run_ret {a : α} {w w' : W} {o : Outcome ε α} :
    Run S (.ret a) w o w' ↔ o = .value a ∧ w' = w := Iff.rfl

@[simp] theorem run_pure {a : α} {w w' : W} {o : Outcome ε α} :
    Run S (pure a : Prog Op Ans ε α) w o w' ↔ o = .value a ∧ w' = w := Iff.rfl

@[simp] theorem run_throw {e : ε} {w w' : W} {o : Outcome ε α} :
    Run S (.throw e) w o w' ↔ o = .raised e ∧ w' = w := Iff.rfl

@[simp] theorem run_cut {w w' : W} {o : Outcome ε α} :
    Run S (.cut) w o w' ↔ o = .cut ∧ w' = w := Iff.rfl

theorem run_call {op : Op} {k : Ans op → Prog Op Ans ε α} {w w' : W} {o : Outcome ε α} :
    Run S (.call op k) w o w' ↔
      ∃ i, S.allowed op i w ∧ Run S (k (S.step op i w).1) (S.step op i w).2 o w' := Iff.rfl

/-- The three ways a sequence ends. -/
theorem run_bind {p : Prog Op Ans ε α} {f : α → Prog Op Ans ε β} {w w' : W}
    {o : Outcome ε β} :
    Run S (p >>= f) w o w' ↔
      (∃ a v, Run S p w (.value a) v ∧ Run S (f a) v o w') ∨
      (∃ e, o = .raised e ∧ Run S p w (.raised e) w') ∨
      (o = .cut ∧ Run S p w .cut w') := by
  rw [Prog.bind_eq]
  induction p generalizing w with
  | ret a => simp [Prog.bind, and_assoc]
  | throw e => simp [Prog.bind, and_left_comm]
  | cut => simp [Prog.bind]
  | call op k ih =>
    simp only [Prog.bind, run_call, ih]
    constructor
    · rintro ⟨i, hi, ⟨a, v, hp, hf⟩ | ⟨e, ho, hp⟩ | ⟨ho, hp⟩⟩
      · exact .inl ⟨a, v, ⟨i, hi, hp⟩, hf⟩
      · exact .inr (.inl ⟨e, ho, i, hi, hp⟩)
      · exact .inr (.inr ⟨ho, i, hi, hp⟩)
    · rintro (⟨a, v, ⟨i, hi, hp⟩, hf⟩ | ⟨e, ho, i, hi, hp⟩ | ⟨ho, i, hi, hp⟩)
      · exact ⟨i, hi, .inl ⟨a, v, hp, hf⟩⟩
      · exact ⟨i, hi, .inr (.inl ⟨e, ho, hp⟩)⟩
      · exact ⟨i, hi, .inr (.inr ⟨ho, hp⟩)⟩

theorem run_bind_value {p : Prog Op Ans ε α} {f : α → Prog Op Ans ε β} {w w' : W} {b : β} :
    Run S (p >>= f) w (.value b) w' ↔
      ∃ a v, Run S p w (.value a) v ∧ Run S (f a) v (.value b) w' := by
  simp [run_bind]

theorem run_bind_raised {p : Prog Op Ans ε α} {f : α → Prog Op Ans ε β} {w w' : W} {e : ε} :
    Run S (p >>= f) w (.raised e) w' ↔
      (∃ a v, Run S p w (.value a) v ∧ Run S (f a) v (.raised e) w') ∨
      Run S p w (.raised e) w' := by
  simp [run_bind]

/-- Either the first program ends with a value and the second takes over, or the first one
ends the sequence. -/
theorem run_bind_or {p : Prog Op Ans ε α} {f : α → Prog Op Ans ε β} {w w' : W}
    {o : Outcome ε β} (h : Run S (p >>= f) w o w') :
    (∃ a v, Run S p w (.value a) v ∧ Run S (f a) v o w') ∨
      ((∀ b, o ≠ .value b) ∧ ∃ o', (∀ a, o' ≠ .value a) ∧ Run S p w o' w') := by
  rcases run_bind.mp h with hv | ⟨e, rfl, hp⟩ | ⟨rfl, hp⟩
  · exact .inl hv
  · exact .inr ⟨by simp, _, by simp, hp⟩
  · exact .inr ⟨by simp, _, by simp, hp⟩

/-- A handled program either never raises, or its handler runs where it raised. -/
theorem run_handle {p : Prog Op Ans ε α} {h : ε → Prog Op Ans ε' α} {w w' : W}
    {o : Outcome ε' α} :
    Run S (p.handle h) w o w' ↔
      (∃ a, o = .value a ∧ Run S p w (.value a) w') ∨
      (∃ e v, Run S p w (.raised e) v ∧ Run S (h e) v o w') ∨
      (o = .cut ∧ Run S p w .cut w') := by
  induction p generalizing w with
  | ret a => simp [Prog.handle, and_left_comm]
  | throw e => simp [Prog.handle, and_assoc]
  | cut => simp [Prog.handle]
  | call op k ih =>
    simp only [Prog.handle, run_call, ih]
    constructor
    · rintro ⟨i, hi, ⟨a, ho, hp⟩ | ⟨e, v, hp, hh⟩ | ⟨ho, hp⟩⟩
      · exact .inl ⟨a, ho, i, hi, hp⟩
      · exact .inr (.inl ⟨e, v, ⟨i, hi, hp⟩, hh⟩)
      · exact .inr (.inr ⟨ho, i, hi, hp⟩)
    · rintro (⟨a, ho, i, hi, hp⟩ | ⟨e, v, ⟨i, hi, hp⟩, hh⟩ | ⟨ho, i, hi, hp⟩)
      · exact ⟨i, hi, .inl ⟨a, ho, hp⟩⟩
      · exact ⟨i, hi, .inr (.inl ⟨e, v, hp, hh⟩)⟩
      · exact ⟨i, hi, .inr (.inr ⟨ho, hp⟩)⟩

/-- A program with a `finally` block: the block runs after a value and after an
exception, and its own exception wins. -/
theorem run_finally {p : Prog Op Ans ε α} {fin : Prog Op Ans ε Unit} {w w' : W}
    {o : Outcome ε α} :
    Run S (p.finally_ fin) w o w' ↔
      (∃ a v, Run S p w (.value a) v ∧ Run S (fin >>= fun _ => .ret a) v o w') ∨
      (∃ e v, Run S p w (.raised e) v ∧ Run S (fin >>= fun _ => .throw e) v o w') ∨
      (o = .cut ∧ Run S p w .cut w') := by
  induction p generalizing w with
  | ret a => simp [Prog.finally_, Prog.bind_eq, and_assoc]
  | throw e => simp [Prog.finally_, Prog.bind_eq, and_assoc]
  | cut => simp [Prog.finally_]
  | call op k ih =>
    simp only [Prog.finally_, run_call, ih]
    constructor
    · rintro ⟨i, hi, ⟨a, v, hp, hf⟩ | ⟨e, v, hp, hf⟩ | ⟨ho, hp⟩⟩
      · exact .inl ⟨a, v, ⟨i, hi, hp⟩, hf⟩
      · exact .inr (.inl ⟨e, v, ⟨i, hi, hp⟩, hf⟩)
      · exact .inr (.inr ⟨ho, i, hi, hp⟩)
    · rintro (⟨a, v, ⟨i, hi, hp⟩, hf⟩ | ⟨e, v, ⟨i, hi, hp⟩, hf⟩ | ⟨ho, i, hi, hp⟩)
      · exact ⟨i, hi, .inl ⟨a, v, hp, hf⟩⟩
      · exact ⟨i, hi, .inr (.inl ⟨e, v, hp, hf⟩)⟩
      · exact ⟨i, hi, .inr (.inr ⟨ho, hp⟩)⟩

@[simp] theorem run_ofExcept_ok {a : α} {w w' : W} {o : Outcome ε α} :
    Run S (Prog.ofExcept (.ok a)) w o w' ↔ o = .value a ∧ w' = w := Iff.rfl

@[simp] theorem run_ofExcept_error {e : ε} {w w' : W} {o : Outcome ε α} :
    Run S (Prog.ofExcept (.error e : Except ε α)) w o w' ↔ o = .raised e ∧ w' = w := Iff.rfl

theorem run_ofExcept_value {r : Except ε α} {a : α} {w w' : W} :
    Run S (Prog.ofExcept r) w (.value a) w' ↔ r = .ok a ∧ w' = w := by
  cases r <;> simp [eq_comm]

/-- A check in front of a program passes or raises. -/
theorem run_ofExcept_bind {r : Except ε α} {f : α → Prog Op Ans ε β} {w w' : W}
    {o : Outcome ε β} :
    Run S (Prog.ofExcept r >>= f) w o w' ↔
      (∃ a, r = .ok a ∧ Run S (f a) w o w') ∨ ∃ e, r = .error e ∧ o = .raised e ∧ w' = w := by
  cases r with
  | ok a =>
    constructor
    · intro h
      exact .inl ⟨a, rfl, h⟩
    · rintro (⟨a', ha, h⟩ | ⟨e, he, -⟩)
      · rw [Except.ok.injEq] at ha
        exact ha ▸ h
      · cases he
  | error e =>
    constructor
    · intro h
      exact .inr ⟨e, rfl, h⟩
    · rintro (⟨a, ha, -⟩ | ⟨e', he, h⟩)
      · cases ha
      · rw [Except.error.injEq] at he
        exact he ▸ h

theorem run_require_value {c : Bool} {e : ε} {w w' : W} :
    Run S (Prog.require c e) w (.value ()) w' ↔ c = true ∧ w' = w := by
  cases c <;> simp [Prog.require]

end Rules

/-! ## What a program raises -/

section Raising

variable {S : Sem Op Ans W} {P : ε → Prop}

/-- Every exception that leaves a run of the program satisfies `P`. -/
def Raising (S : Sem Op Ans W) (P : ε → Prop) (p : Prog Op Ans ε α) : Prop :=
  ∀ w e w', Run S p w (.raised e) w' → P e

theorem Raising.ret {a : α} : Raising S P (.ret a : Prog Op Ans ε α) := by
  intro w e w' h
  cases h.1

theorem Raising.bind {p : Prog Op Ans ε α} {f : α → Prog Op Ans ε β} (hp : Raising S P p)
    (hf : ∀ a v v', Run S p v (.value a) v' → Raising S P (f a)) : Raising S P (p >>= f) := by
  intro w e w' h
  rcases run_bind_raised.mp h with ⟨a, v, h₁, h₂⟩ | h
  · exact hf a w v h₁ v e w' h₂
  · exact hp w e w' h

theorem Raising.ofExcept {r : Except ε α} (h : ∀ e, r = .error e → P e) :
    Raising S P (Prog.ofExcept r : Prog Op Ans ε α) := by
  intro w e w' hrun
  cases r with
  | ok a => cases hrun.1
  | error e' =>
    obtain ⟨he, -⟩ := hrun
    rw [Outcome.raised.injEq] at he
    exact he ▸ h e' rfl

theorem Raising.require {c : Bool} {e : ε} (h : P e) :
    Raising S P (Prog.require c e : Prog Op Ans ε Unit) := by
  intro w e' w' hrun
  cases c with
  | true => cases hrun.1
  | false =>
    obtain ⟨he, -⟩ := hrun
    rw [Outcome.raised.injEq] at he
    exact he ▸ h

end Raising

/-! ## Induction over runs -/

section Induction

variable {S : Sem Op Ans W} {P : Op → Prop} {R : W → W → Prop}

/-- A transitive relation that the parts of a sequence respect is respected by the sequence. -/
theorem Run.rel_bind (htrans : ∀ {u v w}, R u v → R v w → R u w) {p : Prog Op Ans ε α}
    {f : α → Prog Op Ans ε β} {w w' : W} {o : Outcome ε β} (h : Run S (p >>= f) w o w')
    (hp : ∀ o v, Run S p w o v → R w v)
    (hf : ∀ a v, Run S p w (.value a) v → Run S (f a) v o w' → R v w') : R w w' := by
  rcases run_bind_or h with ⟨a, v, hv, hw⟩ | ⟨-, o', -, hv⟩
  · exact htrans (hp _ v hv) (hf a v hv hw)
  · exact hp o' w' hv

/-- What every allowed step of the calls in `P` relates, every run of a program that
makes only such calls relates. -/
theorem Run.rel_of_calls (hrefl : ∀ w, R w w) (htrans : ∀ {u v w}, R u v → R v w → R u w)
    (hstep : ∀ op i w, P op → S.allowed op i w → R w (S.step op i w).2)
    {p : Prog Op Ans ε α} (hp : p.Calls P) {w w' : W} {o : Outcome ε α}
    (h : Run S p w o w') : R w w' := by
  induction p generalizing w with
  | ret a => obtain ⟨-, rfl⟩ := h; exact hrefl w'
  | throw e => obtain ⟨-, rfl⟩ := h; exact hrefl w'
  | cut => obtain ⟨-, rfl⟩ := h; exact hrefl w'
  | call op k ih =>
    obtain ⟨i, hi, hk⟩ := h
    exact htrans (hstep op i w hp.1 hi) (ih _ (hp.2 _) hk)

/-- An invariant of the single calls is an invariant of the whole run. -/
theorem Run.invariant {I : W → Prop}
    (hstep : ∀ op i w, P op → S.allowed op i w → I w → I (S.step op i w).2)
    {p : Prog Op Ans ε α} (hp : p.Calls P) {w w' : W} {o : Outcome ε α}
    (h : Run S p w o w') (hw : I w) : I w' :=
  Run.rel_of_calls (R := fun v v' => I v → I v') (fun _ hI => hI)
    (fun huv hvw hI => hvw (huv hI)) (fun op i w hop hi => hstep op i w hop hi) hp h hw

/-- What every allowed step keeps, every run keeps. -/
theorem Run.keeps_all {I : W → Prop}
    (hstep : ∀ op i w, S.allowed op i w → I w → I (S.step op i w).2)
    {p : Prog Op Ans ε α} {w w' : W} {o : Outcome ε α} (h : Run S p w o w') (hw : I w) : I w' := by
  induction p generalizing w with
  | ret a => exact h.2 ▸ hw
  | throw e => exact h.2 ▸ hw
  | cut => exact h.2 ▸ hw
  | call op k ih =>
    obtain ⟨i, hi, hk⟩ := h
    exact ih _ hk (hstep op i w hi hw)

/-- When the world always has some allowed input, every program has a run. -/
theorem exists_run (hin : ∀ op w, ∃ i, S.allowed op i w) (p : Prog Op Ans ε α) (w : W) :
    ∃ o w', Run S p w o w' := by
  induction p generalizing w with
  | ret a => exact ⟨_, _, rfl, rfl⟩
  | throw e => exact ⟨_, _, rfl, rfl⟩
  | cut => exact ⟨_, _, rfl, rfl⟩
  | call op k ih =>
    obtain ⟨i, hi⟩ := hin op w
    obtain ⟨o, w', h⟩ := ih (S.step op i w).1 (S.step op i w).2
    exact ⟨o, w', i, hi, h⟩

end Induction

/-! ## Computing a run -/

/-- Run a program on the inputs `sched` picks, the `n`-th for the `n`-th call; `none`
when an input is not allowed where it is used. -/
def exec (S : Sem Op Ans W) [∀ op i w, Decidable (S.allowed op i w)]
    (sched : Nat → (op : Op) → S.In op) : Prog Op Ans ε α → Nat → W → Option (Outcome ε α × W)
  | .ret a, _, w => some (.value a, w)
  | .throw e, _, w => some (.raised e, w)
  | .cut, _, w => some (.cut, w)
  | .call op k, n, w =>
    if S.allowed op (sched n op) w then
      exec S sched (k (S.step op (sched n op) w).1) (n + 1) (S.step op (sched n op) w).2
    else none

theorem run_of_exec {S : Sem Op Ans W} [∀ op i w, Decidable (S.allowed op i w)]
    {sched : Nat → (op : Op) → S.In op} {p : Prog Op Ans ε α} {n : Nat} {w w' : W}
    {o : Outcome ε α} (h : exec S sched p n w = some (o, w')) : Run S p w o w' := by
  induction p generalizing n w with
  | ret a => simp only [exec, Option.some.injEq, Prod.mk.injEq] at h; exact ⟨h.1.symm, h.2.symm⟩
  | throw e => simp only [exec, Option.some.injEq, Prod.mk.injEq] at h; exact ⟨h.1.symm, h.2.symm⟩
  | cut => simp only [exec, Option.some.injEq, Prod.mk.injEq] at h; exact ⟨h.1.symm, h.2.symm⟩
  | call op k ih =>
    simp only [exec] at h
    split at h
    · next hi => exact ⟨sched n op, hi, ih _ h⟩
    · exact absurd h (by simp)

end Effect
end FlashNext
