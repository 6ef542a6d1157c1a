import FlashNext.Effect.Triple
import Mathlib.Order.Defs.Unbundled

/-!
# Programs that preserve a relation

A program preserves a preorder on worlds when every run of it, however it ends, relates the world
it ends in to the one it started in.  What the parts of a program preserve, the program preserves.
What is known of a program in one world is known of it in every world that its calls cannot tell
from that one (`Meets.simulate`).
-/

namespace FlashNext
namespace Effect

section

variable {Op : Type} {Ans : Op → Type} {W ε ε' α β : Type} {S : Sem Op Ans W}
  {Pre : Op → W → Prop} {R : W → W → Prop}

def Preserves (S : Sem Op Ans W) (Pre : Op → W → Prop) (R : W → W → Prop) (p : Prog Op Ans ε α) :
    Prop :=
  ∀ w, Meets S Pre (fun _ w' => R w w') (fun _ w' => R w w') p w

theorem Preserves.ite {c : Prop} [Decidable c] {p q : Prog Op Ans ε α}
    (hp : c → Preserves S Pre R p) (hq : ¬ c → Preserves S Pre R q) :
    Preserves S Pre R (if c then p else q) := by
  by_cases hc : c
  · rw [if_pos hc]
    exact hp hc
  · rw [if_neg hc]
    exact hq hc

/-- What is preserved may be used where a run goes on. -/
theorem Preserves.meets {V : α → W → Prop} {E : ε → W → Prop} {p : Prog Op Ans ε α} {w : W}
    (hp : Preserves S Pre R p) (hV : ∀ a w', R w w' → V a w') (hE : ∀ e w', R w w' → E e w') :
    Meets S Pre V E p w :=
  (hp w).mono (fun a w' h => hV a w' h) fun e w' h => hE e w' h

variable [IsPreorder W R]

theorem Preserves.ret (a : α) : Preserves S Pre R (.ret a : Prog Op Ans ε α) :=
  fun w => refl_of R w

theorem Preserves.throw (e : ε) : Preserves S Pre R (.throw e : Prog Op Ans ε α) :=
  fun w => refl_of R w

theorem Preserves.bind {p : Prog Op Ans ε α} {f : α → Prog Op Ans ε β}
    (hp : Preserves S Pre R p) (hf : ∀ a, Preserves S Pre R (f a)) :
    Preserves S Pre R (p >>= f) := by
  intro w
  refine Meets.bind ((hp w).mono (fun a v hv => ?_) fun _ _ hv => hv)
  exact (hf a v).mono (fun _ _ h => trans_of R hv h) fun _ _ h => trans_of R hv h

theorem Preserves.handle {p : Prog Op Ans ε α} {h : ε → Prog Op Ans ε' α}
    (hp : Preserves S Pre R p) (hh : ∀ e, Preserves S Pre R (h e)) :
    Preserves S Pre R (p.handle h) := by
  intro w
  refine Meets.handle ((hp w).mono (fun _ _ hv => hv) fun e v hv => ?_)
  exact (hh e v).mono (fun _ _ h => trans_of R hv h) fun _ _ h => trans_of R hv h

theorem Preserves.finally_ {p : Prog Op Ans ε α} {fin : Prog Op Ans ε Unit}
    (hp : Preserves S Pre R p) (hfin : Preserves S Pre R fin) :
    Preserves S Pre R (p.finally_ fin) := by
  intro w
  have hout : ∀ v, R w v → Meets S Pre (fun _ w' => R w w') (fun _ w' => R w w') fin v := by
    intro v hv
    exact (hfin v).mono (fun _ _ h => trans_of R hv h) fun _ _ h => trans_of R hv h
  exact Meets.finally_ ((hp w).mono (fun _ v hv => hout v hv) fun _ v hv => hout v hv)

theorem Preserves.ofExcept (r : Except ε α) :
    Preserves S Pre R (Prog.ofExcept r : Prog Op Ans ε α) := by
  cases r with
  | ok a => exact Preserves.ret a
  | error e => exact Preserves.throw e

end

/-! ## Two worlds -/

/-- Every answer that the second world gives to a call in `P` the first one gives too. -/
theorem Meets.simulate {Op : Type} {Ans : Op → Type} {W U ε α : Type} {S : Sem Op Ans W}
    {T : Sem Op Ans U} {P : Op → Prop} {R : W → U → Prop} {V : α → W → Prop} {E : ε → W → Prop}
    {p : Prog Op Ans ε α} {w : W} {u : U} (hp : p.Calls P)
    (hanswer : ∀ op w u, P op → R w u → Answered S op w → Answered T op u)
    (hstep : ∀ op w u x, P op → R w u → T.allowed op x u → ∃ y, S.allowed op y w ∧
      (S.step op y w).1 = (T.step op x u).1 ∧ R (S.step op y w).2 (T.step op x u).2)
    (h : Meets S (Answered S) V E p w) (hrel : R w u) :
    Meets T (Answered T) (fun a u' => ∃ w', V a w' ∧ R w' u') (fun e u' => ∃ w', E e w' ∧ R w' u')
      p u := by
  induction p generalizing w u with
  | ret a => exact ⟨w, h, hrel⟩
  | throw e => exact ⟨w, h, hrel⟩
  | cut => exact h
  | call op k ih =>
    refine ⟨hanswer op w u hp.1 hrel h.1, fun x hx => ?_⟩
    obtain ⟨y, hy, hans, hnext⟩ := hstep op w u x hp.1 hrel hx
    rw [← hans]
    exact ih _ (hp.2 _) (h.2 y hy) hnext

end Effect
end FlashNext
