import FlashNext.Effect.System
import FlashNext.Effect.Triple
import Mathlib.Logic.Function.Basic
import Mathlib.Order.Defs.Unbundled

/-!
# Programs that run beside each other

Several programs share a world and take turns at every call; one of them may stop for good between
two calls, and others who follow no program move the shared world too.  `Among` is the contract of
one program: whatever the others do before a call as far as `R` allows it, the call is a step of
`G`.  Where the `G` of each program is within the `R` of every other, all the contracts hold
together, in every interleaving (`Contract.kept`).
-/

namespace FlashNext
namespace Effect

/-! ## Runs that go on -/

namespace System

variable {σ α : Type} {sys : System σ α} {allowed : σ → α → Prop} {s s' : σ}

/-- A run goes on from one state to the other. -/
inductive Leads (sys : System σ α) (allowed : σ → α → Prop) (s : σ) : σ → Prop where
  | refl : Leads sys allowed s s
  | step {s' s'' : σ} {a : α} (h : Leads sys allowed s s') (ha : allowed s' a)
      (hs : sys.step s' a s'') : Leads sys allowed s s''

theorem Leads.trans {s'' : σ} (h : sys.Leads allowed s s') (h' : sys.Leads allowed s' s'') :
    sys.Leads allowed s s'' := by
  induction h' with
  | refl => exact h
  | step _ ha hs ih => exact .step ih ha hs

theorem Reaches.leads (h : sys.Reaches allowed s) (hl : sys.Leads allowed s s') :
    sys.Reaches allowed s' := by
  induction hl with
  | refl => exact h
  | step _ ha hs ih => exact .step ih ha hs

/-- A preorder that every step from a reachable state keeps to relates the ends of a run. -/
theorem Leads.relates {R : σ → σ → Prop} [IsPreorder σ R] (h : sys.Reaches allowed s)
    (hstep : ∀ s a s', sys.Reaches allowed s → allowed s a → sys.step s a s' → R s s')
    (hl : sys.Leads allowed s s') : R s s' := by
  induction hl with
  | refl => exact refl_of R s
  | step hl ha hs ih => exact trans_of R ih (hstep _ _ _ (h.leads hl) ha hs)

/-- The states that a run with these labels can end in. -/
inductive Runs (sys : System σ α) (allowed : σ → α → Prop) : List α → σ → Prop where
  | start {s : σ} (h : sys.start s) : Runs sys allowed [] s
  | step {s s' : σ} {as : List α} {a : α} (h : Runs sys allowed as s) (ha : allowed s a)
      (hs : sys.step s a s') : Runs sys allowed (as ++ [a]) s'

/-- Where every step has a counterpart in the other system, so has every run. -/
theorem Runs.simulated {τ : Type} {abs : System τ α} {allowed' : τ → α → Prop}
    {R : σ → τ → Prop} (hstart : ∀ s, sys.start s → ∃ t, abs.start t ∧ R s t)
    (hstep : ∀ s t a s', R s t → allowed s a → sys.step s a s' →
      allowed' t a ∧ ∃ t', abs.step t a t' ∧ R s' t') {as : List α}
    (h : sys.Runs allowed as s) : ∃ t, abs.Runs allowed' as t ∧ R s t := by
  induction h with
  | start h =>
    obtain ⟨t, ht, hR⟩ := hstart _ h
    exact ⟨t, .start ht, hR⟩
  | step _ ha hs ih =>
    obtain ⟨t, ht, hR⟩ := ih
    obtain ⟨ha', t', hs', hR'⟩ := hstep _ t _ _ hR ha hs
    exact ⟨t', .step ht ha' hs', hR'⟩

end System

/-! ## One program among others -/

section Among

variable {Op : Type} {Ans : Op → Type} {W ε α β : Type} {S : Sem Op Ans W} {R G : W → W → Prop}

/-- Before every call the others have moved the world. -/
def interfered (S : Sem Op Ans W) (R : W → W → Prop) : Sem Op Ans W where
  In op := S.In op × W
  allowed op i w := R w i.2 ∧ S.allowed op i.1 i.2
  step op i _ := S.step op i.1 i.2

/-- Whatever the others did before, the call is a step of `G`. -/
def Within (S : Sem Op Ans W) (R G : W → W → Prop) (op : Op) (w : W) : Prop :=
  ∀ u i, R w u → S.allowed op i u → G u (S.step op i u).2

/-- Every call of the program is a step of `G`, and what it ends with holds. -/
abbrev Among (S : Sem Op Ans W) (R G : W → W → Prop) (V : α → W → Prop) (E : ε → W → Prop)
    (p : Prog Op Ans ε α) (w : W) : Prop :=
  Meets (interfered S R) (Within S R G) V E p w

theorem Among.perform {op : Op} {V : Ans op → W → Prop} {E : ε → W → Prop} {w : W}
    (h : ∀ u i, R w u → S.allowed op i u →
      G u (S.step op i u).2 ∧ V (S.step op i u).1 (S.step op i u).2) :
    Among S R G V E (Prog.perform op) w :=
  Meets.perform (fun u i hu hi => (h u i hu hi).1) fun i hi => (h i.2 i.1 hi.1 hi.2).2

/-- The contract still stands after the others have moved. -/
theorem Among.shift {V : α → W → Prop} {E : ε → W → Prop} {p : Prog Op Ans ε α} {w w' : W}
    (htrans : ∀ {u v w}, R u v → R v w → R u w) (hV : ∀ a, V a w → V a w')
    (hE : ∀ e, E e w → E e w') (h : Among S R G V E p w) (hw : R w w') :
    Among S R G V E p w' := by
  cases p with
  | ret a => exact hV a h
  | throw e => exact hE e h
  | cut => exact h
  | call op k =>
    constructor
    · intro u i hu hi
      exact h.1 u i (htrans hw hu) hi
    · intro i hi
      exact h.2 i ⟨htrans hw hi.1, hi.2⟩

end Among

/-! ## The pool -/

/-- What all share, and what is one's own. -/
structure View (V L : Type) where
  shared : V
  own : L

/-- A program under way: what it was asked for, what is its own and what is left of it. -/
structure Member (Q L : Type) (Op : Type) (Ans : Op → Type) (ε α : Type) where
  request : Q
  own : L
  rest : Prog Op Ans ε α

/-- The programs, and what happens to the shared world beside their calls. -/
structure Pool (ι Q V L : Type) (Op : Type) (Ans : Op → Type) (ε α : Type) where
  sem : ι → Sem Op Ans (View V L)
  program : Q → Prog Op Ans ε α
  /-- What is one's own at first. -/
  own : L
  start : V → Prop
  /-- A program ends, or it is killed. -/
  stop : ι → V → V → Prop
  outside : V → V → Prop

inductive Turn (ι Q : Type) where
  | start (i : ι) (q : Q)
  | call (i : ι)
  | stop (i : ι)
  | outside

namespace Pool

variable {ι Q V L Op ε α : Type} {Ans : Op → Type} [DecidableEq ι]

structure State (ι Q V L : Type) (Op : Type) (Ans : Op → Type) (ε α : Type) where
  shared : V
  member : ι → Option (Member Q L Op Ans ε α)

/-- A turn of the pool. -/
def step (P : Pool ι Q V L Op Ans ε α) (s : State ι Q V L Op Ans ε α) :
    Turn ι Q → State ι Q V L Op Ans ε α → Prop
  | .start i q, s' => s.member i = none ∧ s'.shared = s.shared ∧
    s'.member = Function.update s.member i (some ⟨q, P.own, P.program q⟩)
  | .call i, s' => ∃ q l op k x, s.member i = some ⟨q, l, .call op k⟩ ∧
    (P.sem i).allowed op x ⟨s.shared, l⟩ ∧
    s'.shared = ((P.sem i).step op x ⟨s.shared, l⟩).2.shared ∧
    s'.member = Function.update s.member i
      (some ⟨q, ((P.sem i).step op x ⟨s.shared, l⟩).2.own, k ((P.sem i).step op x ⟨s.shared, l⟩).1⟩)
  | .stop i, s' => (∃ m, s.member i = some m) ∧ P.stop i s.shared s'.shared ∧
    s'.member = Function.update s.member i none
  | .outside, s' => P.outside s.shared s'.shared ∧ s'.member = s.member

def system (P : Pool ι Q V L Op Ans ε α) : System (State ι Q V L Op Ans ε α) (Turn ι Q) where
  start s := P.start s.shared ∧ ∀ i, s.member i = none
  step := P.step

/-- A program under way can run to its end while the others wait. -/
theorem leads_of_run {P : Pool ι Q V L Op Ans ε α}
    {allowed : State ι Q V L Op Ans ε α → Turn ι Q → Prop} {i : ι} (hcall : ∀ s, allowed s (.call i))
    {q : Q} {l : L} {p : Prog Op Ans ε α} {s : State ι Q V L Op Ans ε α} {a : α} {w : View V L}
    (hm : s.member i = some ⟨q, l, p⟩) (hrun : Run (P.sem i) p ⟨s.shared, l⟩ (.value a) w) :
    ∃ s', P.system.Leads allowed s s' ∧ s'.shared = w.shared ∧
      s'.member = Function.update s.member i (some ⟨q, w.own, .ret a⟩) := by
  induction p generalizing s l with
  | ret b =>
    obtain ⟨hb, rfl⟩ := hrun
    obtain rfl := Outcome.value.inj hb
    refine ⟨s, .refl, rfl, ?_⟩
    rw [← hm, Function.update_eq_self]
  | throw e => cases hrun.1
  | cut => cases hrun.1
  | call op k ih =>
    obtain ⟨x, hx, hk⟩ := hrun
    let s₁ : State ι Q V L Op Ans ε α := ⟨((P.sem i).step op x ⟨s.shared, l⟩).2.shared,
      Function.update s.member i (some ⟨q, ((P.sem i).step op x ⟨s.shared, l⟩).2.own,
        k ((P.sem i).step op x ⟨s.shared, l⟩).1⟩)⟩
    have hs₁ : P.system.step s (.call i) s₁ := ⟨q, l, op, k, x, hm, hx, rfl, rfl⟩
    obtain ⟨s', hl, hshared, hmember⟩ := ih _ (s := s₁) (Function.update_self i _ _) hk
    refine ⟨s', (System.Leads.step .refl (hcall s) hs₁).trans hl, hshared, ?_⟩
    rw [hmember, Function.update_idem]

end Pool

/-! ## The contracts -/

section Contract

variable {ι Q V L Op ε α : Type} {Ans : Op → Type}

/-- What each program may rely on and what it keeps to, such that the one covers the other. -/
structure Contract (P : Pool ι Q V L Op Ans ε α) where
  rely : ι → V → V → Prop
  guar : ι → Q → V → V → Prop
  /-- What a program finds where it starts. -/
  idle : ι → V → Prop
  asked : Q → Prop
  value : ι → Q → α → View V L → Prop
  refl : ∀ i v, rely i v v
  trans : ∀ {i u v w}, rely i u v → rely i v w → rely i u w
  guar_rely : ∀ {i j q v v'}, j ≠ i → guar i q v v' → rely j v v'
  stop_rely : ∀ {i j v v'}, j ≠ i → P.stop i v v' → rely j v v'
  outside_rely : ∀ {i v v'}, P.outside v v' → rely i v v'
  idle_start : ∀ {i v}, P.start v → idle i v
  idle_stop : ∀ {i v v'}, P.stop i v v' → idle i v'
  idle_rely : ∀ {i v v'}, idle i v → rely i v v' → idle i v'
  value_rely : ∀ {i q a v v' l}, value i q a ⟨v, l⟩ → rely i v v' → value i q a ⟨v', l⟩
  meets : ∀ {i q v}, asked q → idle i v →
    Among (P.sem i) (fun w w' => w'.own = w.own ∧ rely i w.shared w'.shared)
      (fun w w' => guar i q w.shared w'.shared) (value i q) (fun _ _ => True) (P.program q) ⟨v, P.own⟩

namespace Contract

variable {P : Pool ι Q V L Op Ans ε α} (C : Contract P)

/-- What a program under way still has to keep to. -/
def Holds (i : ι) (v : V) (m : Member Q L Op Ans ε α) : Prop :=
  C.asked m.request ∧ Among (P.sem i) (fun w w' => w'.own = w.own ∧ C.rely i w.shared w'.shared)
    (fun w w' => C.guar i m.request w.shared w'.shared) (C.value i m.request) (fun _ _ => True)
    m.rest ⟨v, m.own⟩

/-- Each program under way keeps to its contract, and the others have nothing. -/
def Kept (s : Pool.State ι Q V L Op Ans ε α) : Prop :=
  ∀ i, (s.member i = none → C.idle i s.shared) ∧ ∀ m, s.member i = some m → C.Holds i s.shared m

variable {C}

theorem Holds.shift {i : ι} {v v' : V} {m : Member Q L Op Ans ε α} (h : C.Holds i v m)
    (hv : C.rely i v v') : C.Holds i v' m := by
  refine ⟨h.1, Among.shift ?_ (fun a ha => C.value_rely ha hv) (fun _ _ => trivial) h.2 ⟨rfl, hv⟩⟩
  intro u v w huv hvw
  exact ⟨hvw.1.trans huv.1, C.trans huv.2 hvw.2⟩

/-- Those who do not move stay as they are. -/
theorem Kept.others {s s' : Pool.State ι Q V L Op Ans ε α} (h : C.Kept s) {j : ι}
    (hmember : s'.member j = s.member j) (hrely : C.rely j s.shared s'.shared) :
    (s'.member j = none → C.idle j s'.shared) ∧
      ∀ m, s'.member j = some m → C.Holds j s'.shared m := by
  rw [hmember]
  constructor
  · intro hnone
    exact C.idle_rely ((h j).1 hnone) hrely
  · intro m hm
    exact ((h j).2 m hm).shift hrely

/-- A call of a program that keeps to its contract. -/
theorem Holds.call {i : ι} {v : V} {q : Q} {l : L} {op : Op} {k : Ans op → Prog Op Ans ε α}
    (h : C.Holds i v ⟨q, l, .call op k⟩) {x : (P.sem i).In op}
    (hx : (P.sem i).allowed op x ⟨v, l⟩) :
    C.guar i q v ((P.sem i).step op x ⟨v, l⟩).2.shared ∧
      C.Holds i ((P.sem i).step op x ⟨v, l⟩).2.shared
        ⟨q, ((P.sem i).step op x ⟨v, l⟩).2.own, k ((P.sem i).step op x ⟨v, l⟩).1⟩ := by
  have hself : (⟨v, l⟩ : View V L).own = l ∧ C.rely i v v := ⟨rfl, C.refl i v⟩
  constructor
  · exact h.2.1 ⟨v, l⟩ x hself hx
  · exact ⟨h.1, h.2.2 (x, ⟨v, l⟩) ⟨hself, hx⟩⟩

/-- What a program has returned. -/
theorem Kept.value {s : Pool.State ι Q V L Op Ans ε α} (h : C.Kept s) {i : ι} {q : Q} {l : L}
    {a : α} (hm : s.member i = some ⟨q, l, .ret a⟩) : C.value i q a ⟨s.shared, l⟩ :=
  ((h i).2 _ hm).2

variable [DecidableEq ι]

theorem Kept.step {s s' : Pool.State ι Q V L Op Ans ε α} {t : Turn ι Q} (h : C.Kept s)
    (hasked : ∀ i q, t = .start i q → C.asked q) (hs : P.step s t s') : C.Kept s' := by
  intro j
  cases t with
  | start i q =>
    obtain ⟨hnone, hshared, hmember⟩ := hs
    by_cases hj : j = i
    · subst hj
      rw [hmember, Function.update_self, hshared]
      constructor
      · intro h'
        cases h'
      · intro m hm
        obtain rfl := Option.some.inj hm
        exact ⟨hasked j q rfl, C.meets (hasked j q rfl) ((h j).1 hnone)⟩
    · refine h.others ?_ ?_
      · rw [hmember, Function.update_of_ne hj]
      · rw [hshared]
        exact C.refl j s.shared
  | call i =>
    obtain ⟨q, l, op, k, x, hm, hx, hshared, hmember⟩ := hs
    obtain ⟨hguar, hrest⟩ := ((h i).2 _ hm).call hx
    by_cases hj : j = i
    · subst hj
      rw [hmember, Function.update_self, hshared]
      constructor
      · intro h'
        cases h'
      · intro m hm'
        obtain rfl := Option.some.inj hm'
        exact hrest
    · refine h.others ?_ ?_
      · rw [hmember, Function.update_of_ne hj]
      · rw [hshared]
        exact C.guar_rely hj hguar
  | stop i =>
    obtain ⟨-, hstop, hmember⟩ := hs
    by_cases hj : j = i
    · subst hj
      rw [hmember, Function.update_self]
      constructor
      · intro _
        exact C.idle_stop hstop
      · intro m hm
        cases hm
    · refine h.others ?_ (C.stop_rely hj hstop)
      rw [hmember, Function.update_of_ne hj]
  | outside =>
    obtain ⟨hout, hmember⟩ := hs
    exact h.others (by rw [hmember]) (C.outside_rely hout)

variable {allowed : Pool.State ι Q V L Op Ans ε α → Turn ι Q → Prop}

/-- In every interleaving all the contracts hold together. -/
theorem kept (hallowed : ∀ s i q, allowed s (.start i q) → C.asked q)
    {s : Pool.State ι Q V L Op Ans ε α} (h : P.system.Reaches allowed s) : C.Kept s := by
  refine System.Reaches.invariant (fun s hstart i => ?_) (fun s t s' hkept ha hs => ?_) h
  · refine ⟨fun _ => C.idle_start hstart.1, fun m hm => ?_⟩
    rw [hstart.2 i] at hm
    cases hm
  · refine hkept.step (fun i q ht => hallowed s i q ?_) hs
    rw [← ht]
    exact ha

/-- What a call does to the shared world. -/
theorem Kept.guar {s s' : Pool.State ι Q V L Op Ans ε α} {i : ι} (h : C.Kept s)
    (hs : P.step s (.call i) s') :
    ∃ m, s.member i = some m ∧ C.asked m.request ∧ C.guar i m.request s.shared s'.shared := by
  obtain ⟨q, l, op, k, x, hm, hx, hshared, -⟩ := hs
  have hholds := (h i).2 _ hm
  refine ⟨_, hm, hholds.1, ?_⟩
  rw [hshared]
  exact (hholds.call hx).1

/-- What every step of every program and of the others keeps. -/
theorem invariant (hallowed : ∀ s i q, allowed s (.start i q) → C.asked q) {inv : V → Prop}
    (hstart : ∀ v, P.start v → inv v)
    (hguar : ∀ i q v v', C.asked q → C.guar i q v v' → inv v → inv v')
    (hstop : ∀ i v v', P.stop i v v' → inv v → inv v')
    (houtside : ∀ v v', P.outside v v' → inv v → inv v')
    {s : Pool.State ι Q V L Op Ans ε α} (h : P.system.Reaches allowed s) : inv s.shared := by
  induction h with
  | start h => exact hstart _ h.1
  | @step s s' t hreach ha hs ih =>
    cases t with
    | start i q => exact hs.2.1 ▸ ih
    | call i =>
      obtain ⟨m, -, hasked, hstep⟩ := (kept hallowed hreach).guar hs
      exact hguar i m.request _ _ hasked hstep ih
    | stop i => exact hstop i _ _ hs.2.1 ih
    | outside => exact houtside _ _ hs.1 ih

end Contract

end Contract

end Effect
end FlashNext
