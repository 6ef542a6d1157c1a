import FlashNext.Effect.Preserves
import FlashNext.Ple.Materialized
import FlashNext.Ple.Moves

/-!
# The contract of single calls

`Party.Spec` is the contract of a process that runs among others on the directory: each call of it
is within `Acts`.  Most of the code only looks (`Party.Keeps`), and what it opens meanwhile it
closes again.
-/

namespace FlashNext
namespace Ple

open Effect
open Py (Str Value str)
open Text (Bytes)

/-- A process, where the cache lies, and what the process may publish. -/
structure Party (ι : Type) where
  root : List Str
  pid : ι → Nat
  euid : Nat
  me : ι
  calm : Prop
  publish : Str → Bytes → Volume ι → Prop

section

variable {ι : Type} [DecidableEq ι] {Y : Party ι} {α β : Type} {P Q : Str → Prop}
  {u v w w' w'' : Cache ι} {fd : Fd}

namespace Party

/-- What is open stays open, and what `Keep` says of the directory. -/
structure Still (Y : Party ι) (P : Str → Prop) (w w' : Cache ι) : Prop where
  own : ∀ fd h, w.own fd = some h → w'.own fd = some h
  keep : Keep Y.pid Y.calm Y.me P w.shared w'.shared

/-- Nothing that is protected has moved. -/
abbrev Rests (Y : Party ι) (w w' : Cache ι) : Prop := Y.Still (fun _ => True) w w'

/-- The contract of a program. -/
abbrev Spec (Y : Party ι) (V : α → Cache ι → Prop) (E : Exc → Cache ι → Prop) (p : CacheM α)
    (w : Cache ι) : Prop :=
  Among (calls Y.root Y.pid Y.euid Y.me)
    (fun w w' => w'.own = w.own ∧ Rely Y.pid Y.calm Y.me w.shared w'.shared)
    (fun w w' => Acts Y.pid Y.me Y.publish w.shared w'.shared) V E p w

/-- The contract of a program of which nothing is asked where it raises. -/
abbrev Gives (Y : Party ι) (V : α → Cache ι → Prop) (p : CacheM α) (w : Cache ι) : Prop :=
  Y.Spec V (fun _ _ => True) p w

/-- The program only looks. -/
abbrev Keeps (Y : Party ι) (p : CacheM α) : Prop :=
  Preserves (interfered (calls Y.root Y.pid Y.euid Y.me)
      fun w w' => w'.own = w.own ∧ Rely Y.pid Y.calm Y.me w.shared w'.shared)
    (Within (calls Y.root Y.pid Y.euid Y.me)
      (fun w w' => w'.own = w.own ∧ Rely Y.pid Y.calm Y.me w.shared w'.shared)
      fun w w' => Acts Y.pid Y.me Y.publish w.shared w'.shared) (Y.Rests) p

omit [DecidableEq ι] in
theorem Still.refl (w : Cache ι) : Y.Still P w w := ⟨fun _ _ h => h, Keep.refl w.shared⟩

omit [DecidableEq ι] in
theorem Still.trans (h : Y.Still P u v) (h' : Y.Still P v w) : Y.Still P u w :=
  ⟨fun fd hd ho => h'.own fd hd (h.own fd hd ho), h.keep.trans h'.keep⟩

omit [DecidableEq ι] in
theorem Still.mono (h : Y.Still P v w) (hPQ : ∀ n, Q n → P n) : Y.Still Q v w :=
  ⟨h.own, h.keep.mono hPQ⟩

omit [DecidableEq ι] in
/-- What the others have done is at rest for oneself. -/
theorem Still.of_rely (ho : v.own = u.own) (h : Rely Y.pid Y.calm Y.me u.shared v.shared) :
    Y.Rests u v :=
  ⟨fun fd hd hu => by rw [ho, hu], h.toKeep⟩

omit [DecidableEq ι] in
/-- What is free now was free before. -/
theorem Still.none (h : Y.Still P v w) (hw : w.own fd = none) : v.own fd = none := by
  cases hv : v.own fd with
  | none => rfl
  | some hd => exact absurd (h.own fd hd hv) (by rw [hw]; intro heq; cases heq)

instance : IsPreorder (Cache ι) (Y.Still P) where
  refl := Still.refl
  trans _ _ _ := Still.trans

/-! ## Calls -/

theorem ask_spec {op : Op} {V : Ans op → Cache ι → Prop} {E : Exc → Cache ι → Prop}
    (h : ∀ u a w', Y.Rests w u → u.own = w.own →
      Moves Y.root Y.pid Y.euid Y.me op u a w' →
      Acts Y.pid Y.me Y.publish u.shared w'.shared ∧ V a w') : Y.Spec V E (ask op) w :=
  Among.perform fun u x hu hx => h u x.1 x.2 (Still.of_rely hu.1 hu.2) hu.1 hx

theorem ask_quiet {op : Op} {V : Ans op → Cache ι → Prop} {E : Exc → Cache ι → Prop}
    (hop : op.quiet = true)
    (h : ∀ u a, Y.Rests w u → u.own = w.own → Moves Y.root Y.pid Y.euid Y.me op u a u → V a u) :
    Y.Spec V E (ask op) w := by
  refine ask_spec fun u a w' hu ho hm => ?_
  obtain rfl := Moves.quiet hop hm
  exact ⟨Acts.refl _ _, h _ a hu ho hm⟩

theorem Keeps.ask {op : Op} (hop : op.quiet = true) : Y.Keeps (ask op) :=
  fun _ => ask_quiet hop fun _ _ hu _ _ => hu

theorem Keeps.orOs {x : CacheM (Except OsError α)} (h : Y.Keeps x) : Y.Keeps (orOs x) :=
  Preserves.bind h fun _ => Preserves.ofExcept _

theorem Keeps.orCache {what : Str} {x : CacheM (Except OsError α)} (h : Y.Keeps x) :
    Y.Keeps (orCache what x) :=
  Preserves.bind h fun _ => Preserves.ofExcept _

theorem Keeps.suppress {x : CacheM (Except OsError α)} (h : Y.Keeps x) : Y.Keeps (suppress x) :=
  Preserves.bind h fun _ => Preserves.ret ()

theorem Keeps.orFail (r : Except Str α) : Y.Keeps (orFail r) := Preserves.ofExcept _

theorem Keeps.require (c : Bool) (e : Exc) : Y.Keeps (Prog.require c e) := by
  cases c with
  | true => exact Preserves.ret ()
  | false => exact Preserves.throw e

/-- What only looks may be used where nothing is asked of what it raises. -/
theorem Keeps.gives {V : α → Cache ι → Prop} {p : CacheM α} (h : Y.Keeps p)
    (hV : ∀ a w', Y.Rests w w' → V a w') : Y.Gives V p w :=
  h.meets hV fun _ _ _ => trivial

/-- A look before something else. -/
theorem Keeps.seq {V : β → Cache ι → Prop} {p : CacheM α} {f : α → CacheM β} (h : Y.Keeps p)
    (hf : ∀ a w', Y.Rests w w' → Y.Gives V (f a) w') : Y.Gives V (p >>= f) w :=
  Meets.bind (h.gives hf)

/-- A pure check before something else. -/
theorem orFail_seq {V : β → Cache ι → Prop} {r : Except Str α} {f : α → CacheM β}
    (hf : ∀ a, r = .ok a → Y.Gives V (f a) w) : Y.Gives V (orFail r >>= f) w := by
  refine Meets.bind (Meets.ofExcept (fun a ha => hf a ?_) fun _ _ => trivial)
  cases r with
  | ok b =>
    have hb : (.ok b : Except Exc α) = .ok a := ha
    rw [Except.ok.inj hb]
  | error e => cases ha

/-! ## Opening and closing -/

omit [DecidableEq ι] in
/-- A descriptor was opened, and the rest is still. -/
structure Opened (Y : Party ι) (w : Cache ι) (fd : Fd) (h : Handle) (w' : Cache ι) : Prop where
  fresh : w.own fd = none
  own : w'.own fd = some h
  still : Y.Rests w w'

omit [DecidableEq ι] in
theorem still_of_opens {h : Handle} (ho : Opens v fd h w) (hk : Keep Y.pid Y.calm Y.me P v.shared w.shared) :
    Y.Still P v w := by
  refine ⟨fun fd' h' hv => ?_, hk⟩
  rw [ho.2]
  by_cases hfd : fd' = fd
  · subst hfd
    rw [ho.1] at hv
    cases hv
  · rw [Function.update_of_ne hfd]
    exact hv

omit [DecidableEq ι] in
theorem opened_of_opens {h : Handle} (hu : Y.Rests w u) (ho : Opens u fd h w')
    (hk : Keep Y.pid Y.calm Y.me (fun _ => True) u.shared w'.shared) : Opened Y w fd h w' where
  fresh := hu.none ho.1
  own := by rw [ho.2, Function.update_self]
  still := hu.trans (still_of_opens ho hk)

omit [DecidableEq ι] in
/-- A descriptor that held no lock was closed. -/
structure Closed (Y : Party ι) (fd : Fd) (w w' : Cache ι) : Prop where
  own : ∀ fd', fd' ≠ fd → w'.own fd' = w.own fd'
  gone : w'.own fd = none
  keep : Keep Y.pid Y.calm Y.me (fun _ => True) w.shared w'.shared

omit [DecidableEq ι] in
theorem Closed.still (h : Y.Still P v w) (hfd : v.own fd = none) (hc : Closed Y fd w w') :
    Y.Still P v w' := by
  refine ⟨fun fd' hd hv => ?_, h.keep.trans (hc.keep.mono fun _ _ => trivial)⟩
  rw [hc.own fd' ?_]
  · exact h.own fd' hd hv
  · rintro rfl
    rw [hfd] at hv
    cases hv

theorem close_acts {a : Ans (.close fd)}
    (h : Moves Y.root Y.pid Y.euid Y.me (.close fd) w a w') :
    Acts Y.pid Y.me Y.publish w.shared w'.shared := by
  obtain ⟨-, hshared⟩ := h
  split at hshared
  · next id _ =>
    by_cases hl : w.shared.locked id = some Y.me
    · rw [hshared, if_pos hl]
      exact Volume.relock_acts (.inr hl) (.inl rfl)
    · rw [hshared, if_neg hl]
      exact Acts.refl _ _
  · rw [hshared]
    exact Acts.refl _ _

/-- Whatever a descriptor stands for, it may be closed. -/
theorem close_gives {V : Unit → Cache ι → Prop} (hV : ∀ w', V () w') :
    Y.Gives V (suppress (ask (.close fd))) w :=
  Meets.suppress (ask_spec fun _ _ w' _ _ hm => ⟨close_acts hm, hV w'⟩)

theorem close_spec {V : Unit → Cache ι → Prop} {E : Exc → Cache ι → Prop}
    (hlock : ∀ id, w.own fd ≠ some (.lock id)) (hV : ∀ w', Closed Y fd w w' → V () w')
    (hE : ∀ e w', Closed Y fd w w' → E (.os e) w') :
    Y.Spec V E (orOs (ask (.close fd))) w := by
  refine Meets.orOs (ask_spec fun u a w' hu ho hm => ⟨close_acts hm, ?_⟩)
  have hclosed : Closed Y fd w w' := by
    obtain ⟨hown, hshared⟩ := hm
    refine ⟨fun fd' hfd => ?_, ?_, ?_⟩
    · rw [hown, Function.update_of_ne hfd, ho]
    · rw [hown, Function.update_self]
    · refine hu.keep.trans ?_
      split at hshared
      · next id hid => exact absurd (ho ▸ hid) (hlock id)
      · rw [hshared]
        exact Keep.refl u.shared
  cases a with
  | ok _ => exact hV w' hclosed
  | error e => exact hE e w' hclosed

/-- A block that closes a descriptor on its way out. -/
theorem finally_close {V : α → Cache ι → Prop} {p : CacheM α}
    (hp : Y.Gives (fun a v => (∀ id, v.own fd ≠ some (.lock id)) ∧
      ∀ v', Closed Y fd v v' → V a v') p w) :
    Y.Gives V (p.finally_ (orOs (ask (.close fd)))) w := by
  refine Meets.finally_ (hp.mono (fun a v hv => ?_) fun e v _ => ?_)
  · exact close_spec hv.1 (fun v' hc => hv.2 v' hc) fun _ _ _ => trivial
  · refine Meets.orOs (ask_spec fun u a w' hu ho hm => ⟨close_acts hm, ?_⟩)
    cases a <;> trivial

/-- A block over a descriptor that was opened for it. -/
theorem Opened.closing {V : α → Cache ι → Prop} {p : CacheM α} {h : Handle}
    (ho : Opened Y w fd h v) (hlock : ∀ id, h ≠ .lock id)
    (hp : Y.Gives (fun a v' => Y.Still P v v' ∧
      ∀ v'', Closed Y fd v' v'' → Y.Still P w v'' → V a v'') p v) :
    Y.Gives V (p.finally_ (orOs (ask (.close fd)))) v := by
  refine finally_close (hp.mono (fun a v' hv => ⟨fun id => ?_, fun v'' hc => ?_⟩) fun _ _ _ => trivial)
  · rw [hv.1.own fd h ho.own]
    intro heq
    exact hlock id (Option.some.inj heq)
  · refine hv.2 v'' hc (hc.still ?_ ho.fresh)
    exact (ho.still.mono fun _ _ => trivial).trans hv.1

end Party

end

end Ple
end FlashNext
