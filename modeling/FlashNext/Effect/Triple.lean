import FlashNext.Effect.Trace

/-!
# What every run of a program ends with

`Meets S Pre V R p w` says of all runs of `p` from `w` that each call meets its precondition
`Pre`, that a value leaves only where `V` holds and an exception only where `R` holds, and that
no run is cut.  With the precondition that the world has an answer the statement is about total
correctness: a program is a well-founded tree, so a run that never gets stuck ends.
-/

namespace FlashNext
namespace Effect

section Triple

variable {Op : Type} {Ans : Op → Type} {W ε ε' α β : Type} {S : Sem Op Ans W}
  {Pre : Op → W → Prop}

def Meets (S : Sem Op Ans W) (Pre : Op → W → Prop) (V : α → W → Prop) (R : ε → W → Prop) :
    Prog Op Ans ε α → W → Prop
  | .ret a, w => V a w
  | .throw e, w => R e w
  | .cut, _ => False
  | .call op k, w =>
    Pre op w ∧ ∀ i, S.allowed op i w → Meets S Pre V R (k (S.step op i w).1) (S.step op i w).2

/-- The world has an answer to the call. -/
def Answered (S : Sem Op Ans W) (op : Op) (w : W) : Prop := ∃ i, S.allowed op i w

/-- The postcondition of an outcome. -/
def Ends (V : α → W → Prop) (R : ε → W → Prop) : Outcome ε α → W → Prop
  | .value a, w => V a w
  | .raised e, w => R e w
  | .cut, _ => False

variable {V : α → W → Prop} {R : ε → W → Prop}

theorem Meets.ends {p : Prog Op Ans ε α} {w w' : W} {o : Outcome ε α} (h : Meets S Pre V R p w)
    (hrun : Run S p w o w') : Ends V R o w' := by
  induction p generalizing w with
  | ret a =>
    obtain ⟨rfl, rfl⟩ := hrun
    exact h
  | throw e =>
    obtain ⟨rfl, rfl⟩ := hrun
    exact h
  | cut => exact h.elim
  | call op k ih =>
    obtain ⟨i, hi, hk⟩ := hrun
    exact ih _ (h.2 i hi) hk

theorem Meets.guarded {p : Prog Op Ans ε α} {w : W} (h : Meets S Pre V R p w) :
    Guarded S Pre p w := by
  induction p generalizing w with
  | ret a => trivial
  | throw e => trivial
  | cut => trivial
  | call op k ih => exact ⟨h.1, fun i hi => ih _ (h.2 i hi)⟩

/-- A program that never gets stuck has a run. -/
theorem Guarded.exists_run {p : Prog Op Ans ε α} {w : W} (h : Guarded S (Answered S) p w) :
    ∃ o w', Run S p w o w' := by
  induction p generalizing w with
  | ret a => exact ⟨_, _, rfl, rfl⟩
  | throw e => exact ⟨_, _, rfl, rfl⟩
  | cut => exact ⟨_, _, rfl, rfl⟩
  | call op k ih =>
    obtain ⟨i, hi⟩ := h.1
    obtain ⟨o, w', hrun⟩ := ih _ (h.2 i hi)
    exact ⟨o, w', i, hi, hrun⟩

theorem Meets.mono {V' : α → W → Prop} {R' : ε → W → Prop} {p : Prog Op Ans ε α} {w : W}
    (h : Meets S Pre V R p w) (hV : ∀ a v, V a v → V' a v) (hR : ∀ e v, R e v → R' e v) :
    Meets S Pre V' R' p w := by
  induction p generalizing w with
  | ret a => exact hV a w h
  | throw e => exact hR e w h
  | cut => exact h
  | call op k ih => exact ⟨h.1, fun i hi => ih _ (h.2 i hi)⟩

theorem Meets.bind {V' : β → W → Prop} {p : Prog Op Ans ε α} {f : α → Prog Op Ans ε β} {w : W}
    (h : Meets S Pre (fun a v => Meets S Pre V' R (f a) v) R p w) :
    Meets S Pre V' R (p >>= f) w := by
  rw [Prog.bind_eq]
  induction p generalizing w with
  | ret a => exact h
  | throw e => exact h
  | cut => exact h
  | call op k ih => exact ⟨h.1, fun i hi => ih _ (h.2 i hi)⟩

/-- A sequence whose first part is specified on its own. -/
theorem Meets.seq {V' : β → W → Prop} {p : Prog Op Ans ε α} {f : α → Prog Op Ans ε β} {w : W}
    (h : Meets S Pre V R p w) (hf : ∀ a v, V a v → Meets S Pre V' R (f a) v) :
    Meets S Pre V' R (p >>= f) w :=
  Meets.bind (h.mono hf fun _ _ he => he)

theorem Meets.handle {R' : ε' → W → Prop} {p : Prog Op Ans ε α} {h : ε → Prog Op Ans ε' α}
    {w : W} (hp : Meets S Pre V (fun e v => Meets S Pre V R' (h e) v) p w) :
    Meets S Pre V R' (p.handle h) w := by
  induction p generalizing w with
  | ret a => exact hp
  | throw e => exact hp
  | cut => exact hp
  | call op k ih => exact ⟨hp.1, fun i hi => ih _ (hp.2 i hi)⟩

theorem Meets.finally_ {p : Prog Op Ans ε α} {fin : Prog Op Ans ε Unit} {w : W}
    (hp : Meets S Pre (fun a v => Meets S Pre (fun _ => V a) R fin v)
      (fun e v => Meets S Pre (fun _ => R e) R fin v) p w) :
    Meets S Pre V R (p.finally_ fin) w := by
  induction p generalizing w with
  | ret a => exact Meets.bind (p := fin) (f := fun _ => .ret a) hp
  | throw e => exact Meets.bind (p := fin) (f := fun _ => .throw e) hp
  | cut => exact hp
  | call op k ih => exact ⟨hp.1, fun i hi => ih _ (hp.2 i hi)⟩

theorem Meets.perform {op : Op} {V : Ans op → W → Prop} {w : W} (hPre : Pre op w)
    (h : ∀ i, S.allowed op i w → V (S.step op i w).1 (S.step op i w).2) :
    Meets S Pre V R (Prog.perform op) w :=
  ⟨hPre, h⟩

theorem Meets.ofExcept {r : Except ε α} {w : W} (hok : ∀ a, r = .ok a → V a w)
    (herror : ∀ e, r = .error e → R e w) : Meets S Pre V R (Prog.ofExcept r) w := by
  cases r with
  | ok a => exact hok a rfl
  | error e => exact herror e rfl

end Triple

end Effect
end FlashNext
