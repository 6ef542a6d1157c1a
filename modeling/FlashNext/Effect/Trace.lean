import FlashNext.Effect.Run
import Mathlib.Data.List.Induction

/-!
# Traces and the calls a program makes

`traced` adds to a semantics the list of the calls made so far with their answers, less the
calls that are only the program's own bookkeeping.  `Guarded` says that every call a program
can make from a world satisfies a condition on that world; `Run.clean` turns it into a
statement about every event of the trace and what stands before it.
-/

namespace FlashNext
namespace Effect

/-- One call and its answer. -/
abbrev Event (Op : Type) (Ans : Op → Type) := (op : Op) × Ans op

structure Traced (Op : Type) (Ans : Op → Type) (St : Type) where
  log : List (Event Op Ans)
  st : St

/-- Run over a state and keep a trace of the calls that are not quiet. -/
def traced {Op : Type} {Ans : Op → Type} {St : Type} (D : Sem Op Ans St) (quiet : Op → Bool) :
    Sem Op Ans (Traced Op Ans St) where
  In := D.In
  allowed op i w := D.allowed op i w.st
  step op i w :=
    ((D.step op i w.st).1,
      { log := if quiet op then w.log else w.log ++ [⟨op, (D.step op i w.st).1⟩]
        st := (D.step op i w.st).2 })

section Guarded

variable {Op : Type} {Ans : Op → Type} {W ε ε' α β : Type} {S : Sem Op Ans W}
  {Pre : Op → W → Prop}

/-- Every call the program can make when started in the world meets the condition. -/
def Guarded (S : Sem Op Ans W) (Pre : Op → W → Prop) : Prog Op Ans ε α → W → Prop
  | .ret _, _ => True
  | .throw _, _ => True
  | .cut, _ => True
  | .call op k, w =>
    Pre op w ∧ ∀ i, S.allowed op i w → Guarded S Pre (k (S.step op i w).1) (S.step op i w).2

theorem Guarded.bind {p : Prog Op Ans ε α} {f : α → Prog Op Ans ε β} {w : W}
    (hp : Guarded S Pre p w)
    (hf : ∀ a v, Run S p w (.value a) v → Guarded S Pre (f a) v) :
    Guarded S Pre (p >>= f) w := by
  rw [Prog.bind_eq]
  induction p generalizing w with
  | ret a => exact hf a w ⟨rfl, rfl⟩
  | throw e => trivial
  | cut => trivial
  | call op k ih =>
    refine ⟨hp.1, fun i hi => ih _ (hp.2 i hi) fun a v hv => hf a v ?_⟩
    exact ⟨i, hi, hv⟩

theorem Guarded.handle {p : Prog Op Ans ε α} {h : ε → Prog Op Ans ε' α} {w : W}
    (hp : Guarded S Pre p w)
    (hh : ∀ e v, Run S p w (.raised e) v → Guarded S Pre (h e) v) :
    Guarded S Pre (p.handle h) w := by
  induction p generalizing w with
  | ret a => trivial
  | throw e => exact hh e w ⟨rfl, rfl⟩
  | cut => trivial
  | call op k ih =>
    refine ⟨hp.1, fun i hi => ih _ (hp.2 i hi) fun e v hv => hh e v ?_⟩
    exact ⟨i, hi, hv⟩

theorem Guarded.finally_ {p : Prog Op Ans ε α} {fin : Prog Op Ans ε Unit} {w : W}
    (hp : Guarded S Pre p w)
    (hfin : ∀ o v, Run S p w o v → Guarded S Pre fin v) :
    Guarded S Pre (p.finally_ fin) w := by
  induction p generalizing w with
  | ret a =>
    have h : Guarded S Pre (fin >>= fun _ => (.ret a : Prog Op Ans ε α)) w :=
      (hfin _ w ⟨rfl, rfl⟩).bind fun _ _ _ => trivial
    exact h
  | throw e =>
    have h : Guarded S Pre (fin >>= fun _ => (.throw e : Prog Op Ans ε α)) w :=
      (hfin _ w ⟨rfl, rfl⟩).bind fun _ _ _ => trivial
    exact h
  | cut => trivial
  | call op k ih =>
    refine ⟨hp.1, fun i hi => ih _ (hp.2 i hi) fun o v hv => hfin o v ?_⟩
    exact ⟨i, hi, hv⟩

/-- A program whose calls are harmless everywhere. -/
theorem Guarded.of_calls {P : Op → Prop} {p : Prog Op Ans ε α} (hp : p.Calls P)
    (h : ∀ op w, P op → Pre op w) (w : W) : Guarded S Pre p w := by
  induction p generalizing w with
  | ret a => trivial
  | throw e => trivial
  | cut => trivial
  | call op k ih => exact ⟨h op w hp.1, fun i _ => ih _ (hp.2 _) _⟩

theorem Guarded.perform {op : Op} {w : W} (h : Pre op w) :
    Guarded S Pre (Prog.perform op : Prog Op Ans ε (Ans op)) w :=
  ⟨h, fun _ _ => trivial⟩

theorem Guarded.ofExcept (r : Except ε α) (w : W) :
    Guarded S Pre (Prog.ofExcept r : Prog Op Ans ε α) w := by
  cases r <;> trivial

end Guarded

/-- An element of a kind that occurs only once in a list has one place in it. -/
theorem split_unique {α : Type} {P : α → Prop} {xs ys xs' ys' : List α} {a b : α}
    (hxs : ∀ x ∈ xs, ¬ P x) (hys : ∀ y ∈ ys, ¬ P y) (h : xs ++ a :: ys = xs' ++ b :: ys')
    (hb : P b) : xs = xs' ∧ a = b ∧ ys = ys' := by
  rcases List.append_eq_append_iff.mp h with ⟨c, rfl, hc⟩ | ⟨c, rfl, hc⟩
  · cases c with
    | nil =>
      rw [List.nil_append, List.cons.injEq] at hc
      exact ⟨(List.append_nil xs).symm, hc⟩
    | cons x c =>
      rw [List.cons_append, List.cons.injEq] at hc
      exact absurd hb (hys b (hc.2 ▸ List.mem_append_right c List.mem_cons_self))
  · cases c with
    | nil =>
      rw [List.nil_append, List.cons.injEq] at hc
      exact ⟨List.append_nil xs', hc.1.symm, hc.2.symm⟩
    | cons x c =>
      rw [List.cons_append, List.cons.injEq] at hc
      exact absurd hb (hxs b (hc.1 ▸ List.mem_append_right xs' List.mem_cons_self))

section Clean

variable {Op : Type} {Ans : Op → Type} {St ε α : Type} {D : Sem Op Ans St} {quiet : Op → Bool}

/-- Every event of the trace obeys the rule, given what stands before it. -/
def Clean (rule : List (Event Op Ans) → Event Op Ans → Prop) (log : List (Event Op Ans)) : Prop :=
  ∀ pre e post, log = pre ++ e :: post → rule pre e

variable {rule : List (Event Op Ans) → Event Op Ans → Prop}

theorem clean_nil : Clean rule ([] : List (Event Op Ans)) := by
  intro pre e post h
  exact absurd h (by simp)

theorem Clean.snoc {log : List (Event Op Ans)} {e : Event Op Ans} (h : Clean rule log)
    (he : rule log e) : Clean rule (log ++ [e]) := by
  intro pre e' post heq
  rcases List.eq_nil_or_concat post with rfl | ⟨post', last, rfl⟩
  · obtain ⟨rfl, hlast⟩ := List.append_inj' heq rfl
    rw [List.cons.injEq] at hlast
    exact hlast.1 ▸ he
  · rw [List.concat_eq_append, ← List.cons_append, ← List.append_assoc] at heq
    exact h pre e' post' (List.append_inj' heq rfl).1

theorem Clean.of_append {xs ys : List (Event Op Ans)} (h : Clean rule (xs ++ ys)) :
    Clean rule xs := by
  intro pre e post heq
  refine h pre e (post ++ ys) ?_
  rw [heq, List.append_assoc]
  rfl

/-- What each event finds nowhere before it happens at most once. -/
theorem Clean.countP_le_one {p : Event Op Ans → Bool} {log : List (Event Op Ans)}
    (h : Clean rule log)
    (hp : ∀ pre e, rule pre e → p e = true → ∀ e' ∈ pre, p e' = false) :
    log.countP p ≤ 1 := by
  induction log using List.reverseRecOn with
  | nil => exact Nat.zero_le 1
  | append_singleton log e ih =>
    rw [List.countP_append, List.countP_singleton]
    cases he : p e with
    | false => exact ih h.of_append
    | true =>
      have hnone : log.countP p = 0 := by
        rw [List.countP_eq_zero]
        intro e' he'
        rw [hp log e (h log e [] rfl) he e' he']
        exact Bool.false_ne_true
      rw [hnone]
      exact Nat.le_refl 1

/-- A guarded program leaves a clean trace. -/
theorem Run.clean {Pre : Op → Traced Op Ans St → Prop}
    (hrule : ∀ op a w, quiet op = false → Pre op w → rule w.log ⟨op, a⟩)
    {p : Prog Op Ans ε α} {w w' : Traced Op Ans St} {o : Outcome ε α}
    (hp : Guarded (traced D quiet) Pre p w) (h : Run (traced D quiet) p w o w')
    (hw : Clean rule w.log) : Clean rule w'.log := by
  induction p generalizing w with
  | ret a => exact h.2 ▸ hw
  | throw e => exact h.2 ▸ hw
  | cut => exact h.2 ▸ hw
  | call op k ih =>
    obtain ⟨i, hi, hk⟩ := h
    refine ih _ (hp.2 i hi) hk ?_
    show Clean rule (if quiet op then w.log else w.log ++ [⟨op, (D.step op i w.st).1⟩])
    cases hq : quiet op with
    | true => exact hw
    | false => exact hw.snoc (hrule op _ w hq hp.1)

/-- The trace of a run starts with the trace it started from, and what is added comes from
calls of the program. -/
theorem Run.log_extends {P : Op → Prop} {p : Prog Op Ans ε α} {w w' : Traced Op Ans St}
    {o : Outcome ε α} (hp : p.Calls P) (h : Run (traced D quiet) p w o w') :
    ∃ evs, w'.log = w.log ++ evs ∧ ∀ e ∈ evs, P e.1 := by
  induction p generalizing w with
  | ret a => exact ⟨[], by rw [h.2, List.append_nil], by simp⟩
  | throw e => exact ⟨[], by rw [h.2, List.append_nil], by simp⟩
  | cut => exact ⟨[], by rw [h.2, List.append_nil], by simp⟩
  | call op k ih =>
    obtain ⟨i, hi, hk⟩ := h
    obtain ⟨evs, hevs, hP⟩ := ih _ (hp.2 _) hk
    have hlog : w'.log =
        (if quiet op then w.log else w.log ++ [⟨op, (D.step op i w.st).1⟩]) ++ evs := hevs
    cases hq : quiet op with
    | true =>
      rw [hq] at hlog
      exact ⟨evs, hlog, hP⟩
    | false =>
      rw [hq] at hlog
      refine ⟨⟨op, (D.step op i w.st).1⟩ :: evs, ?_, ?_⟩
      · have hlog' : w'.log = (w.log ++ [⟨op, (D.step op i w.st).1⟩]) ++ evs := hlog
        rw [hlog', List.append_assoc]
        rfl
      · intro e he
        rcases List.mem_cons.mp he with rfl | he
        · exact hp.1
        · exact hP e he

/-- What is in the trace stays in it. -/
theorem Run.mem_log {p : Prog Op Ans ε α} {w w' : Traced Op Ans St} {o : Outcome ε α}
    (h : Run (traced D quiet) p w o w') {e : Event Op Ans} (he : e ∈ w.log) : e ∈ w'.log := by
  induction p generalizing w with
  | ret a => exact h.2 ▸ he
  | throw e => exact h.2 ▸ he
  | cut => exact h.2 ▸ he
  | call op k ih =>
    obtain ⟨i, hi, hk⟩ := h
    refine ih _ hk ?_
    show e ∈ (if quiet op then w.log else w.log ++ [⟨op, (D.step op i w.st).1⟩])
    split
    · exact he
    · exact List.mem_append_left _ he

/-- The same device with these answers only. -/
def Sem.answering (D : Sem Op Ans St) (ok : (op : Op) → Ans op → Prop) : Sem Op Ans St where
  In := D.In
  allowed op i s := ok op (D.step op i s).1
  step := D.step

/-- A run whose trace shows only certain answers is a run of the device that gives only
those. -/
theorem Run.answering {ok : (op : Op) → Ans op → Prop}
    (hquiet : ∀ op a, quiet op = true → ok op a) {p : Prog Op Ans ε α}
    {w w' : Traced Op Ans St} {o : Outcome ε α} (h : Run (traced D quiet) p w o w')
    (hlog : ∀ e ∈ w'.log, ok e.1 e.2) : Run (traced (D.answering ok) quiet) p w o w' := by
  induction p generalizing w with
  | ret a => exact h
  | throw e => exact h
  | cut => exact h
  | call op k ih =>
    obtain ⟨i, hi, hk⟩ := h
    refine ⟨i, ?_, ih _ hk⟩
    show ok op (D.step op i w.st).1
    cases hq : quiet op with
    | true => exact hquiet op _ hq
    | false =>
      refine hlog ⟨op, (D.step op i w.st).1⟩ (Run.mem_log hk ?_)
      show _ ∈ (if quiet op then w.log else w.log ++ [⟨op, (D.step op i w.st).1⟩])
      rw [hq]
      exact List.mem_append_right _ List.mem_cons_self

end Clean

end Effect
end FlashNext
