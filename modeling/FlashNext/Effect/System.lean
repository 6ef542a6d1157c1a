/-!
# Systems that take steps

A run is followed only as far as its steps are allowed, by a condition on the state before a
step and the step's label.  What holds at the start and is kept by every allowed step holds in
all that is reached.
-/

namespace FlashNext
namespace Effect

universe u v

/-- A system whose steps carry a label. -/
structure System (σ : Type u) (α : Type v) where
  start : σ → Prop
  step : σ → α → σ → Prop

namespace System

variable {σ : Type u} {α : Type v} {sys : System σ α} {allowed allowed' : σ → α → Prop}

/-- The states of the runs whose steps are all allowed. -/
inductive Reaches (sys : System σ α) (allowed : σ → α → Prop) : σ → Prop where
  | start {s : σ} (h : sys.start s) : Reaches sys allowed s
  | step {s s' : σ} {a : α} (h : Reaches sys allowed s) (ha : allowed s a)
      (hs : sys.step s a s') : Reaches sys allowed s'

/-- The states of all runs. -/
def Reachable (sys : System σ α) : σ → Prop := sys.Reaches fun _ _ => True

theorem Reaches.mono (h : ∀ s a, allowed s a → allowed' s a) {s : σ}
    (hs : sys.Reaches allowed s) : sys.Reaches allowed' s := by
  induction hs with
  | start h => exact .start h
  | step _ ha hstep ih => exact .step ih (h _ _ ha) hstep

theorem Reaches.reachable {s : σ} (hs : sys.Reaches allowed s) : sys.Reachable s :=
  hs.mono fun _ _ _ => trivial

/-- An invariant of the allowed steps. -/
theorem Reaches.invariant {inv : σ → Prop} (hstart : ∀ s, sys.start s → inv s)
    (hstep : ∀ s a s', inv s → allowed s a → sys.step s a s' → inv s') {s : σ}
    (hs : sys.Reaches allowed s) : inv s := by
  induction hs with
  | start h => exact hstart _ h
  | step _ ha h ih => exact hstep _ _ _ ih ha h

/-- An invariant of the allowed steps from a state that is reachable anyway. -/
theorem Reaches.invariant_of_reachable {base : σ → Prop} (inv : σ → Prop)
    (hbase : ∀ s, sys.Reachable s → base s) (hstart : ∀ s, sys.start s → inv s)
    (hstep : ∀ s a s', base s → inv s → allowed s a → sys.step s a s' → inv s') {s : σ}
    (hs : sys.Reaches allowed s) : inv s := by
  induction hs with
  | start h => exact hstart _ h
  | step hprev ha h ih => exact hstep _ _ _ (hbase _ hprev.reachable) ih ha h

end System

end Effect
end FlashNext
