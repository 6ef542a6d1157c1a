import Mathlib.Logic.Basic

/-!
# Effectful programs as trees of calls

A program that talks to an outside world is a tree: it returns, raises, or makes one
call and continues with the answer.  The tree fixes nothing about the world.  What an
answer may be, and how the world moves between two calls, is chosen later by a
semantics (`FlashNext.Effect.Run`), so one program text serves a quiet world, a world
with failing calls and a world that other parties change.

`cut` is a run that is watched no further.  A loop that may go on for ever is a
recursion on a bound and ends in `cut` when the bound is used up: no handler runs after
`cut`, so a statement about every bound is a statement about every finite part of the
endless run.
-/

namespace FlashNext
namespace Effect

/-- How a run ends. -/
inductive Outcome (ε α : Type) where
  | value (a : α)
  | raised (e : ε)
  | cut
  deriving DecidableEq

def Outcome.map {ε α β : Type} (f : α → β) : Outcome ε α → Outcome ε β
  | .value a => .value (f a)
  | .raised e => .raised e
  | .cut => .cut

/-- A program over the calls `Op`, with exceptions `ε` and results `α`. -/
inductive Prog (Op : Type) (Ans : Op → Type) (ε α : Type) where
  | ret (a : α)
  | throw (e : ε)
  | cut
  | call (op : Op) (k : Ans op → Prog Op Ans ε α)

namespace Prog

variable {Op : Type} {Ans : Op → Type} {ε ε' α β : Type}

/-- Run the first program and hand its value to the second. -/
def bind : Prog Op Ans ε α → (α → Prog Op Ans ε β) → Prog Op Ans ε β
  | .ret a, f => f a
  | .throw e, _ => .throw e
  | .cut, _ => .cut
  | .call op k, f => .call op fun a => bind (k a) f

/-- `except`: replace a raised exception by the handler's program. -/
def handle : Prog Op Ans ε α → (ε → Prog Op Ans ε' α) → Prog Op Ans ε' α
  | .ret a, _ => .ret a
  | .throw e, h => h e
  | .cut, _ => .cut
  | .call op k, h => .call op fun a => handle (k a) h

/-- `finally`: run `fin` on the way out, whether a value or an exception leaves.  An
exception of `fin` itself replaces what was leaving. -/
def finally_ : Prog Op Ans ε α → Prog Op Ans ε Unit → Prog Op Ans ε α
  | .ret a, fin => bind fin fun _ => .ret a
  | .throw e, fin => bind fin fun _ => .throw e
  | .cut, _ => .cut
  | .call op k, fin => .call op fun a => finally_ (k a) fin

instance : Monad (Prog Op Ans ε) where
  pure := .ret
  bind := .bind

/-- One call, returning its answer. -/
def perform (op : Op) : Prog Op Ans ε (Ans op) := .call op .ret

/-- A pure check that may fail, as a program without calls. -/
def ofExcept : Except ε α → Prog Op Ans ε α
  | .ok a => .ret a
  | .error e => .throw e

/-- Raise unless the condition holds. -/
def require (c : Bool) (e : ε) : Prog Op Ans ε Unit :=
  if c then .ret () else .throw e

theorem bind_eq (p : Prog Op Ans ε α) (f : α → Prog Op Ans ε β) : p >>= f = p.bind f := rfl

theorem bind_assoc {γ : Type} (p : Prog Op Ans ε α) (f : α → Prog Op Ans ε β)
    (g : β → Prog Op Ans ε γ) : (p.bind f).bind g = p.bind fun a => (f a).bind g := by
  induction p with
  | ret a => rfl
  | throw e => rfl
  | cut => rfl
  | call op k ih => exact congrArg (Prog.call op) (funext ih)

theorem bind_ret (p : Prog Op Ans ε α) : p.bind .ret = p := by
  induction p with
  | ret a => rfl
  | throw e => rfl
  | cut => rfl
  | call op k ih => exact congrArg (Prog.call op) (funext ih)

instance : LawfulMonad (Prog Op Ans ε) :=
  LawfulMonad.mk' (Prog Op Ans ε) bind_ret (fun _ _ => rfl) bind_assoc

/-- Every call of the tree, whatever the answers, satisfies `P`. -/
def Calls (P : Op → Prop) : Prog Op Ans ε α → Prop
  | .ret _ => True
  | .throw _ => True
  | .cut => True
  | .call op k => P op ∧ ∀ a, Calls P (k a)

section Calls

variable {P : Op → Prop}

theorem Calls.mono {Q : Op → Prop} (hPQ : ∀ op, P op → Q op) {p : Prog Op Ans ε α}
    (hp : p.Calls P) : p.Calls Q := by
  induction p with
  | ret a => trivial
  | throw e => trivial
  | cut => trivial
  | call op k ih => exact ⟨hPQ op hp.1, fun a => ih a (hp.2 a)⟩

theorem Calls.bind {p : Prog Op Ans ε α} {f : α → Prog Op Ans ε β} (hp : p.Calls P)
    (hf : ∀ a, (f a).Calls P) : (p >>= f).Calls P := by
  rw [bind_eq]
  induction p with
  | ret a => exact hf a
  | throw e => trivial
  | cut => trivial
  | call op k ih => exact ⟨hp.1, fun a => ih a (hp.2 a)⟩

theorem Calls.handle {p : Prog Op Ans ε α} {h : ε → Prog Op Ans ε' α} (hp : p.Calls P)
    (hh : ∀ e, (h e).Calls P) : (p.handle h).Calls P := by
  induction p with
  | ret a => trivial
  | throw e => exact hh e
  | cut => trivial
  | call op k ih => exact ⟨hp.1, fun a => ih a (hp.2 a)⟩

theorem Calls.finally_ {p : Prog Op Ans ε α} {fin : Prog Op Ans ε Unit} (hp : p.Calls P)
    (hfin : fin.Calls P) : (p.finally_ fin).Calls P := by
  induction p with
  | ret a => exact hfin.bind (f := fun _ => .ret a) fun _ => trivial
  | throw e => exact hfin.bind (f := fun _ => .throw e) fun _ => trivial
  | cut => trivial
  | call op k ih => exact ⟨hp.1, fun a => ih a (hp.2 a)⟩

theorem Calls.perform {op : Op} (h : P op) : (perform op : Prog Op Ans ε (Ans op)).Calls P :=
  ⟨h, fun _ => trivial⟩

theorem Calls.ofExcept (r : Except ε α) : (ofExcept r : Prog Op Ans ε α).Calls P := by
  cases r <;> trivial

theorem Calls.require (c : Bool) (e : ε) : (require c e : Prog Op Ans ε Unit).Calls P := by
  cases c <;> trivial

theorem Calls.ite {c : Prop} [Decidable c] {p q : Prog Op Ans ε α} (hp : p.Calls P)
    (hq : q.Calls P) : (if c then p else q).Calls P := by
  split <;> assumption

end Calls

end Prog

end Effect
end FlashNext
