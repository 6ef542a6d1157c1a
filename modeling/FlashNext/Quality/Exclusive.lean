import FlashNext.Quality.Admission

/-!
# Failed releases are remembered

Whoever has the lock is the only one that can be admitted or released, so the flag that a release
sets stays the business of one context at a time.  What is missing is a test of the flag by the
context that takes the lock next: its own test came before the lock.
-/

namespace FlashNext
namespace Quality

open Py (Str Value str)

section

variable {Ctx : Type} [DecidableEq Ctx] {setup : Setup Ctx}

/-! ## The invariant -/

theorem point_move_self (s : World Ctx) (i : Ctx) (p : Point) : (s.move i p).point i = p :=
  Function.update_self ..

theorem point_move_other (s : World Ctx) {i j : Ctx} (p : Point) (h : j ≠ i) :
    (s.move i p).point j = s.point j :=
  Function.update_of_ne h ..

/-- What a step without others keeps for every context it need only show for its own. -/
theorem forall_move {s : World Ctx} {i : Ctx} {p : Point} {P : Ctx → Point → Prop}
    (h : ∀ j, j ≠ i → P j (s.point j)) (hp : P i p) : ∀ j, P j ((s.move i p).point j) := by
  intro j
  by_cases hj : j = i
  · rw [hj, point_move_self]
    exact hp
  · rw [point_move_other s p hj]
    exact h j hj

variable (setup) in
/-- What holds between the steps of the contexts. -/
structure Inv (s : World Ctx) : Prop where
  lock : ∀ j, (s.point j).hasLock = true ↔ s.holder = some j
  quiet : ∀ j, (s.point j).early = true → s.failed = none
  flagged : ∀ note ∈ s.log, note.isFailed = true → s.failed ≠ none
  sticky : Sticky s.log
  settled : ∀ j row lease, s.point j = .released row lease → Settled lease
  documented : ∀ j row, (s.point j).documents = some row →
    ∃ lease, s.docs (setup.docName row) = some lease ∧ Settled lease

theorem inv_start {s : World Ctx} (h : (admissions setup).start s) : Inv setup s := by
  obtain ⟨hfailed, hholder, hpoint, hlog⟩ := h
  refine ⟨?_, ?_, ?_, ?_, ?_, ?_⟩
  · intro j
    rw [hpoint j, hholder]
    simp [Point.hasLock]
  · intro j _
    exact hfailed
  · rw [hlog]
    simp
  · rw [hlog]
    exact List.Pairwise.nil
  · intro j row lease hj
    rw [hpoint j] at hj
    cases hj
  · intro j row hj
    rw [hpoint j] at hj
    cases hj

theorem hasLock_of_early {p : Point} (h : p.early = true) : p.hasLock = true := by
  cases p <;> first | rfl | cases h

omit [DecidableEq Ctx] in
/-- While one context has the lock no other is before its release. -/
theorem Inv.alone {s : World Ctx} (h : Inv setup s) {i j : Ctx} (hi : (s.point i).hasLock = true)
    (hj : (s.point j).hasLock = true) : i = j := by
  have hholder := (h.lock i).mp hi
  rw [(h.lock j).mp hj] at hholder
  exact (Option.some.inj hholder).symm

/-- The lock stays where it is. -/
theorem Inv.lock_move {s : World Ctx} (h : Inv setup s) {i : Ctx} {p : Point}
    (hp : p.hasLock = (s.point i).hasLock) :
    ∀ j, ((s.move i p).point j).hasLock = true ↔ s.holder = some j := by
  refine forall_move (P := fun j p => p.hasLock = true ↔ s.holder = some j) (fun j _ => h.lock j) ?_
  rw [hp]
  exact h.lock i

theorem Inv.quiet_move {s : World Ctx} (h : Inv setup s) {i : Ctx} {p : Point}
    (hp : p.early = false) : ∀ j, ((s.move i p).point j).early = true → s.failed = none := by
  refine forall_move (P := fun _ p => p.early = true → s.failed = none) (fun j _ => h.quiet j) ?_
  rw [hp]
  intro hearly
  cases hearly

theorem Inv.settled_move {s : World Ctx} (h : Inv setup s) {i : Ctx} {p : Point}
    (hp : ∀ row lease, p = .released row lease → Settled lease) :
    ∀ j row lease, (s.move i p).point j = .released row lease → Settled lease :=
  forall_move (P := fun _ p => ∀ row lease, p = .released row lease → Settled lease)
    (fun j _ => h.settled j) hp

theorem Inv.documented_move {s : World Ctx} (h : Inv setup s) {i : Ctx} {p : Point}
    (hp : p.documents = none ∨ p.documents = (s.point i).documents) :
    ∀ j row, ((s.move i p).point j).documents = some row →
      ∃ lease, s.docs (setup.docName row) = some lease ∧ Settled lease := by
  refine forall_move (P := fun _ p => ∀ row, p.documents = some row →
    ∃ lease, s.docs (setup.docName row) = some lease ∧ Settled lease) (fun j _ => h.documented j) ?_
  intro row hrow
  cases hp with
  | inl hnone =>
    rw [hnone] at hrow
    cases hrow
  | inr hsame => exact h.documented i row (hsame ▸ hrow)

omit [DecidableEq Ctx] in
theorem Sticky.snoc {log : List (Note Ctx)} (h : Sticky log) {note : Note Ctx}
    (hnote : (∃ earlier ∈ log, earlier.isFailed = true) → note.isFailed = true) :
    Sticky (log ++ [note]) := by
  refine List.pairwise_append.mpr ⟨h, List.pairwise_singleton _ _, ?_⟩
  intro earlier hearlier later hlater hfailed
  rw [List.mem_singleton] at hlater
  rw [hlater]
  exact hnote ⟨earlier, hearlier, hfailed⟩

theorem inv_step {s s' : World Ctx} {i : Ctx} {act : Act} (h : Inv setup s)
    (ha : Undisturbed s (i, act)) (hc : Change setup s i act s') : Inv setup s' := by
  cases hc with
  | aside _ p hfrom hto hnone =>
    refine ⟨h.lock_move (by rw [hfrom, hto]), h.quiet_move ?_, h.flagged, h.sticky,
      h.settled_move ?_, h.documented_move (Or.inl hnone)⟩
    · rw [← Bool.not_eq_true]
      intro hearly
      rw [hasLock_of_early hearly] at hto
      cases hto
    · intro row lease hp
      rw [hp] at hto
      cases hto
  | locked row hfrom hfree =>
    -- the flag is down when the lock is taken
    have hfailed : s.failed = none := ha rfl
    have hothers : ∀ j, (s.point j).hasLock = false := by
      intro j
      rw [← Bool.not_eq_true, h.lock j, hfree]
      simp
    refine ⟨?_, fun _ _ => hfailed, h.flagged, h.sticky, h.settled_move (by simp),
      h.documented_move (Or.inl rfl)⟩
    refine forall_move (P := fun j p => p.hasLock = true ↔ some i = some j) ?_
      (by simp [Point.hasLock])
    intro j hj
    rw [hothers j]
    simp [hj.symm]
  | granted _ row lease hfrom =>
    have hfailed : s.failed = none := h.quiet i (by rw [hfrom]; rfl)
    refine ⟨h.lock_move (by rw [hfrom]; rfl), fun _ _ => hfailed, ?_, h.sticky.snoc ?_,
      h.settled_move (by simp), h.documented_move (Or.inl rfl)⟩
    · intro note hnote hisFailed
      cases List.mem_append.mp hnote with
      | inl hmem => exact h.flagged note hmem hisFailed
      | inr hmem =>
        rw [List.mem_singleton.mp hmem] at hisFailed
        cases hisFailed
    · intro hearlier
      obtain ⟨note, hnote, hisFailed⟩ := hearlier
      exact absurd hfailed (h.flagged note hnote hisFailed)
  | denied _ row hfrom =>
    exact ⟨h.lock_move (by rw [hfrom]; rfl), h.quiet_move rfl, h.flagged, h.sticky,
      h.settled_move (by simp), h.documented_move (Or.inl rfl)⟩
  | verified _ row lease lease' hfrom hsettled =>
    refine ⟨h.lock_move (by rw [hfrom]; rfl), h.quiet_move rfl, h.flagged, h.sticky,
      h.settled_move ?_, h.documented_move (Or.inl rfl)⟩
    intro row' lease'' hp
    obtain ⟨_, hlease⟩ := Point.released.inj hp
    exact hlease ▸ hsettled
  | failed _ row lease lease' text hfrom hsettled =>
    refine ⟨h.lock_move (by rw [hfrom]; rfl), ?_, by simp, h.sticky.snoc (fun _ => rfl),
      h.settled_move ?_, h.documented_move (Or.inl rfl)⟩
    · -- another context before its release would have the lock as well
      refine forall_move (P := fun _ p => p.early = true → some text = none) ?_ ?_
      · intro j hj hearly
        exact absurd (h.alone (hasLock_of_early hearly) (by rw [hfrom]; rfl)) hj
      · intro hearly
        cases hearly
    · intro row' lease'' hp
      obtain ⟨_, hlease⟩ := Point.released.inj hp
      exact hlease ▸ hsettled
  | written _ row lease lease' hfrom hsettled =>
    have hlease := hsettled (h.settled i row lease hfrom)
    have hdocs : ∀ row', (row' = row ∨ ∃ lease, s.docs (setup.docName row') = some lease ∧
        Settled lease) → ∃ lease, Function.update s.docs (setup.docName row) (some lease')
          (setup.docName row') = some lease ∧ Settled lease := by
      intro row' hrow
      by_cases hname : setup.docName row' = setup.docName row
      · rw [hname, Function.update_self]
        exact ⟨lease', rfl, hlease⟩
      · rw [Function.update_of_ne hname]
        cases hrow with
        | inl heq => exact absurd (by rw [heq]) hname
        | inr hdoc => exact hdoc
    refine ⟨h.lock_move (by rw [hfrom]; rfl), h.quiet_move rfl, h.flagged, h.sticky,
      h.settled_move (by simp), ?_⟩
    refine forall_move (P := fun _ p => ∀ row', p.documents = some row' →
      ∃ lease, Function.update s.docs (setup.docName row) (some lease') (setup.docName row') =
        some lease ∧ Settled lease) ?_ ?_
    · intro j _ row' hp
      exact hdocs row' (Or.inr (h.documented j row' hp))
    · intro row' hp
      exact hdocs row' (Or.inl (Option.some.inj hp).symm)
  | unwritten written now row lease hfrom hbad =>
    obtain ⟨hwritten, hrow⟩ := ha
    rw [hwritten, hrow row lease hfrom] at hbad
    cases hbad
  | unlocked _ granted hfrom =>
    refine ⟨?_, h.quiet_move rfl, h.flagged, h.sticky, h.settled_move (by simp),
      h.documented_move (Or.inr (by rw [hfrom]; rfl))⟩
    refine forall_move (P := fun j p => p.hasLock = true ↔ none = some j) ?_
      (by simp [Point.hasLock])
    intro j hj
    have hother : (s.point j).hasLock = false := by
      rw [← Bool.not_eq_true]
      intro hlock
      exact hj (h.alone hlock (by rw [hfrom]; rfl))
    rw [hother]
    simp

theorem hasLock_of_holdsAdmission {p : Point} (h : p.holdsAdmission = true) :
    p.hasLock = true := by
  cases p <;> first | rfl | cases h

/-- In a run in which no context takes the lock while the flag is set and every document is written,
the admissions are as they should be. -/
theorem admissions_sound {s : World Ctx} (h : (admissions setup).Reaches Undisturbed s) :
    Sound setup s := by
  have hinv : Inv setup s := h.invariant (fun _ hs => inv_start hs)
    fun _ a _ hs ha hstep => inv_step hs ha (change_of_next setup hstep)
  refine ⟨hinv.sticky, ?_, ?_⟩
  · intro i j hi hj
    exact hinv.alone (hasLock_of_holdsAdmission hi) (hasLock_of_holdsAdmission hj)
  · intro i row hi
    exact hinv.documented i row (by rw [hi]; rfl)

/-! ## Runs -/

variable (setup)

/-- The steps of a run, one after another. -/
def play : List (Ctx × Act) → World Ctx → Option (World Ctx)
  | [], s => some s
  | (i, act) :: steps, s => (next setup s i act).bind (play steps)

variable {setup}

theorem reachable_of_play {steps : List (Ctx × Act)} {s s' : World Ctx}
    (hs : (admissions setup).Reachable s) (h : play setup steps s = some s') :
    (admissions setup).Reachable s' := by
  induction steps generalizing s with
  | nil =>
    obtain rfl := Option.some.inj h
    exact hs
  | cons a steps ih =>
    obtain ⟨s₁, hstep, hrest⟩ := Option.bind_eq_some_iff.mp h
    exact ih (.step hs trivial hstep) hrest

end

/-- The state of a new object. -/
def fresh (Ctx : Type) : World Ctx := ⟨none, none, fun _ => .entered, fun _ => none, []⟩

/-- Two contexts with rows of one letter. -/
def twoRows : Setup Bool where
  row i := .str [if i then 98 else 97]
  pid := 1
  sha256 s := s

theorem fresh_start : (admissions twoRows).start (fresh Bool) := ⟨rfl, rfl, fun _ => rfl, rfl⟩

/-- One context is admitted, released and documented. -/
theorem granted_run : ∃ s, (admissions twoRows).Reaches Undisturbed s ∧
    s.point false = .left (some [97]) ∧ s.log = [.granted false] := by
  have h₀ : (admissions twoRows).Reaches Undisturbed (fresh Bool) := .start fresh_start
  have h₁ := Effect.System.Reaches.step (a := (false, Act.test)) h₀ trivial rfl
  have h₂ := Effect.System.Reaches.step (a := (false, Act.openLock true)) h₁ trivial rfl
  have h₃ := Effect.System.Reaches.step (a := (false, Act.tryLock true)) h₂ (fun _ => rfl) rfl
  have h₄ := Effect.System.Reaches.step (a := (false, Act.grant (.ok .none) [])) h₃ trivial rfl
  have h₅ := Effect.System.Reaches.step (a := (false, Act.release (.ok .none))) h₄ trivial rfl
  have h₆ := Effect.System.Reaches.step (a := (false, Act.write true [])) h₅
    ⟨rfl, fun row lease h => (Point.released.inj h).1 ▸ rfl⟩ rfl
  have h₇ := Effect.System.Reaches.step (a := (false, Act.unlock)) h₆ trivial rfl
  exact ⟨_, h₇, rfl, rfl⟩

theorem admissions_sound_granted :
    ∃ s, s.point false = .left (some [97]) ∧ s.log = [.granted false] ∧ Sound twoRows s := by
  obtain ⟨s, hs, hpoint, hlog⟩ := granted_run
  exact ⟨s, hpoint, hlog, admissions_sound hs⟩

/-- The second context reads the flag before the release of the first one fails, and is admitted
after it. -/
def lateSteps : List (Bool × Act) :=
  [(true, .test), (false, .test), (false, .openLock true), (false, .tryLock true),
    (false, .grant (.ok .none) []), (false, .release (.error ([69], []))),
    (false, .write true []), (false, .unlock), (true, .openLock true), (true, .tryLock true),
    (true, .grant (.ok .none) [])]

theorem admission_after_failure :
    ¬ ∀ s, (admissions twoRows).Reachable s → Sound twoRows s := by
  intro hall
  have hlog : (play twoRows lateSteps (fresh Bool)).map World.log =
      some [.granted false, .failed false, .granted true] := rfl
  obtain ⟨s, hs, hnotes⟩ := Option.map_eq_some_iff.mp hlog
  have hsound := hall s (reachable_of_play (.start fresh_start) hs)
  have hsticky := hsound.sticky
  rw [hnotes] at hsticky
  simp [Sticky, Note.isFailed] at hsticky

end Quality
end FlashNext
