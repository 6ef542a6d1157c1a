import FlashNext.Effect.Pool
import FlashNext.Ple.Prepare
import FlashNext.Posix.Overwrite

/-!
# The directory of the cache

A volume is what one directory holds, with the locks of its files.  Several processes share it and
each has its own open files (`Cache`).  `Moves` is what a call does to it: any call may fail, a
write that fails may have landed in part, and a stat that was seen with some bytes is never seen
with others.  `Acts` is what the calls of `prepareCache` and `openPreparedTable` come to, and it is
within what every other process relies on (`Acts.rely`).
-/

namespace FlashNext
namespace Ple

open Effect
open Py (Str Value str)
open Text (Bytes)
open Posix

/-! ## Names -/

/-- `os.urandom(6).hex()`. -/
def isTempHex (hex : Str) : Bool := hex.length == 12 && hex.all isHexDigit

/-- A name that the process gives to a temporary file. -/
def TempOf (pid : Nat) (n : Str) : Prop :=
  ∃ base hex, isTempHex hex = true ∧
    n = str "." ++ base ++ str ".tmp-" ++ (number pid ++ str "-" ++ hex)

def IsTable (n : Str) : Prop := ∃ rows width size, n = tableFilename rows width size

def IsLock (n : Str) : Prop := ∃ t, n = lockName t

theorem head_lockName (t : Str) : (lockName t).head? = some 46 := rfl

theorem TempOf.head {pid : Nat} {n : Str} (h : TempOf pid n) : n.head? = some 46 := by
  obtain ⟨base, hex, -, rfl⟩ := h
  rfl

theorem IsTable.head {n : Str} (h : IsTable n) : n.take 2 = str "pl" := by
  obtain ⟨rows, width, size, rfl⟩ := h
  rfl

theorem IsTable.head_ne {n : Str} (h : IsTable n) : n.head? ≠ some 46 := by
  have hhead := h.head
  intro hdot
  cases n with
  | nil => cases hdot
  | cons c cs =>
    have hc : c = 46 := Option.some.inj hdot
    subst hc
    cases cs with
    | nil => cases hhead
    | cons d cs => cases hhead

theorem receiptName_head : receiptName.head? ≠ some 46 := by decide

theorem IsTable.ne_receipt {n : Str} (h : IsTable n) : n ≠ receiptName := by
  intro hn
  have hhead := h.head
  rw [hn] at hhead
  revert hhead
  decide

/-- A temporary name ends in a hexadecimal digit, the name of a lock does not. -/
theorem TempOf.not_lock {pid : Nat} {n : Str} (h : TempOf pid n) : ¬ IsLock n := by
  rintro ⟨t, ht⟩
  obtain ⟨base, hex, hhex, hn⟩ := h
  rw [isTempHex, Bool.and_eq_true, beq_iff_eq] at hhex
  have hne : hex ≠ [] := by
    intro hnil
    rw [hnil] at hhex
    cases hhex.1
  have hlast : n.getLast? = some (hex.getLast hne) := by
    rw [hn, List.getLast?_append, List.getLast?_append, List.getLast?_eq_some_getLast hne]
    rfl
  have hlock : n.getLast? = some 107 := by
    rw [ht, lockName, List.getLast?_append]
    rfl
  rw [hlock] at hlast
  have hdigit : isHexDigit 107 = true := by
    rw [Option.some.inj hlast]
    exact List.all_eq_true.mp hhex.2 _ (List.getLast_mem hne)
  cases hdigit

theorem TempOf.ne_lock {pid : Nat} {n t : Str} (h : TempOf pid n) : lockName t ≠ n := by
  intro heq
  exact h.not_lock ⟨t, heq.symm⟩

/-- The process of a temporary name stands in the name. -/
theorem TempOf.pid_eq {pid pid' : Nat} {n : Str} (h : TempOf pid n) (h' : TempOf pid' n) :
    pid = pid' := by
  have hdigits : ∀ {q : Nat}, TempOf q n →
      ((n.reverse.drop 13).takeWhile Py.isDigit).reverse = Py.digitsOf q := by
    intro q hq
    obtain ⟨base, hex, hhex, rfl⟩ := hq
    rw [isTempHex, Bool.and_eq_true, beq_iff_eq] at hhex
    have hshape : (str "." ++ base ++ str ".tmp-" ++ (number q ++ str "-" ++ hex)).reverse =
        (hex.reverse ++ [45]) ++ ((Py.digitsOf q).reverse ++ 45 :: (str "." ++ base ++
          str ".tmp").reverse) := by
      rw [number_eq]
      simp [str]
    rw [hshape, List.drop_left' (by simp [hhex.1]), List.takeWhile_append_of_pos, List.takeWhile_cons]
    · simp [Py.isDigit]
    · intro c hc
      exact Py.isDigit_digitsOf (List.mem_reverse.mp hc)
  have heq : Py.digitsOf pid = Py.digitsOf pid' := (hdigits h).symm.trans (hdigits h')
  rw [← Py.ofDigits_digitsOf pid, heq, Py.ofDigits_digitsOf]

/-! ## The volume -/

abbrev FileId := Nat

structure File where
  content : Bytes
  dev : Nat
  ino : Nat
  mtimeNs : Nat
  ctimeNs : Nat
  kind : FileKind
  nlink : Nat
  uid : Nat
  mode : Nat

def File.stat (f : File) : Stat :=
  ⟨f.dev, f.ino, f.content.length, f.mtimeNs, f.ctimeNs, f.kind, f.nlink, f.uid, f.mode⟩

def File.snapshot (f : File) : Snapshot := f.stat.snapshot

/-- The files of the directory, those that are open under no name too. -/
structure Volume (ι : Type) where
  names : Str → Option FileId
  files : FileId → Option File
  /-- Who holds the lock of a file. -/
  locked : FileId → Option ι
  /-- The bytes that a stat has stood for so far. -/
  seen : Snapshot → Option Bytes
  bound : ∀ {n id}, names n = some id → ∃ f, files id = some f
  known : ∀ {id f}, files id = some f → seen f.snapshot = some f.content
  small : ∀ {id f}, files id = some f → f.snapshot.Small
  /-- A temporary file has no second name. -/
  alone : ∀ {pid n m id}, TempOf pid n → names n = some id → names m = some id → m = n

section

variable {ι : Type}

/-- What a stat has stood for, it stands for; a file with other bytes has a stat of its own. -/
def History (v v' : Volume ι) : Prop := ∀ s c, v.seen s = some c → v'.seen s = some c

theorem History.refl (v : Volume ι) : History v v := fun _ _ h => h

theorem History.trans {u v w : Volume ι} (h : History u v) (h' : History v w) : History u w :=
  fun s c hs => h' s c (h s c hs)

/-- The name stands for the same file, with the same bytes. -/
structure SameAt (n : Str) (v v' : Volume ι) : Prop where
  name : v'.names n = v.names n
  content : ∀ id f, v.names n = some id → v.files id = some f →
    ∃ f', v'.files id = some f' ∧ f'.content = f.content

theorem SameAt.refl (n : Str) (v : Volume ι) : SameAt n v v := ⟨rfl, fun _ f _ hf => ⟨f, hf, rfl⟩⟩

theorem SameAt.trans {n : Str} {u v w : Volume ι} (h : SameAt n u v) (h' : SameAt n v w) :
    SameAt n u w where
  name := h'.name.trans h.name
  content id f hn hf := by
    obtain ⟨f₁, hf₁, hc₁⟩ := h.content id f hn hf
    obtain ⟨f₂, hf₂, hc₂⟩ := h'.content id f₁ (h.name.trans hn) hf₁
    exact ⟨f₂, hf₂, hc₂.trans hc₁⟩

/-- The lock of a table is held. -/
def HoldsLock (me : ι) (v : Volume ι) (t : Str) : Prop :=
  ∃ id, v.names (lockName t) = some id ∧ v.locked id = some me

/-- No process has the file under a temporary name. -/
def Settled (v : Volume ι) (id : FileId) : Prop := ∀ p n, TempOf p n → v.names n ≠ some id

/-- A file that is settled is left alone. -/
def Calm (v v' : Volume ι) : Prop :=
  ∀ id f, v.files id = some f → Settled v id →
    Settled v' id ∧ ∃ f', v'.files id = some f' ∧ f'.content = f.content

theorem Calm.refl (v : Volume ι) : Calm v v := fun _ f hf hs => ⟨hs, f, hf, rfl⟩

theorem Calm.trans {u v w : Volume ι} (h : Calm u v) (h' : Calm v w) : Calm u w := by
  intro id f hf hs
  obtain ⟨hs₁, f₁, hf₁, hc₁⟩ := h id f hf hs
  obtain ⟨hs₂, f₂, hf₂, hc₂⟩ := h' id f₁ hf₁ hs₁
  exact ⟨hs₂, f₂, hf₂, hc₂.trans hc₁⟩

/-! ## What a process relies on -/

variable (pid : ι → Nat) (calm : Prop)

/-- What others leave alone: one's temporary files, and a table whose lock one holds. -/
def Protected (me : ι) (v : Volume ι) (n : Str) : Prop :=
  TempOf (pid me) n ∨ IsTable n ∧ HoldsLock me v n

/-- The locks of a process stay, and so do the protected names among `P`; where it is `calm`,
nobody at all writes to a file that is settled. -/
structure Keep (me : ι) (P : Str → Prop) (v v' : Volume ι) : Prop where
  history : History v v'
  lockNames : ∀ t id, v.names (lockName t) = some id → v'.names (lockName t) = some id
  locks : ∀ id, v.locked id = some me → v'.locked id = some me
  same : ∀ n, P n → Protected pid me v n → SameAt n v v'
  settled : calm → Calm v v'

/-- What a process relies on of every step of the others. -/
structure Rely (me : ι) (v v' : Volume ι) : Prop extends Keep pid calm me (fun _ => True) v v' where
  given : ∀ id, v'.locked id = some me → v.locked id = some me

/-- What a step of a process comes to; `G` is what it may publish. -/
structure Acts (me : ι) (G : Str → Bytes → Volume ι → Prop) (v v' : Volume ι) : Prop where
  history : History v v'
  names : ∀ n, v'.names n = v.names n ∨
    TempOf (pid me) n ∧ (∀ id, v'.names n = some id → v.files id = none) ∨
    (v.names n = none ∧ IsLock n) ∨
    ((IsTable n ∧ HoldsLock me v n ∨ n = receiptName) ∧
      ∃ id f, v'.names n = some id ∧ v'.files id = some f ∧ G n f.content v')
  contents : ∀ id f, v.files id = some f → ∃ f', v'.files id = some f' ∧
    (f'.content = f.content ∨ ∃ n, TempOf (pid me) n ∧ v.names n = some id)
  locks : ∀ id, v'.locked id = v.locked id ∨
    ((v.locked id = none ∨ v.locked id = some me) ∧ (v'.locked id = none ∨ v'.locked id = some me))

variable {pid} {calm} {me j : ι} {P Q : Str → Prop} {u v w : Volume ι}

theorem HoldsLock.keep {t : Str} (h : HoldsLock me v t) (hk : Keep pid calm me P v w) :
    HoldsLock me w t := by
  obtain ⟨id, hn, hl⟩ := h
  exact ⟨id, hk.lockNames t id hn, hk.locks id hl⟩

theorem Protected.keep {n : Str} (h : Protected pid me v n) (hk : Keep pid calm me P v w) :
    Protected pid me w n :=
  h.imp_right fun ht => ⟨ht.1, ht.2.keep hk⟩

theorem Keep.refl (v : Volume ι) : Keep pid calm me P v v :=
  ⟨History.refl v, fun _ _ h => h, fun _ h => h, fun n _ _ => SameAt.refl n v, fun _ => Calm.refl v⟩

theorem Keep.trans (h : Keep pid calm me P u v) (h' : Keep pid calm me P v w) : Keep pid calm me P u w where
  history := h.history.trans h'.history
  lockNames t id hn := h'.lockNames t id (h.lockNames t id hn)
  locks id hl := h'.locks id (h.locks id hl)
  same n hP hn := (h.same n hP hn).trans (h'.same n hP (hn.keep h))
  settled hc := (h.settled hc).trans (h'.settled hc)

theorem Keep.mono (h : Keep pid calm me P v w) (hPQ : ∀ n, Q n → P n) : Keep pid calm me Q v w :=
  ⟨h.history, h.lockNames, h.locks, fun n hQ => h.same n (hPQ n hQ), h.settled⟩

theorem Rely.refl (v : Volume ι) : Rely pid calm me v v := ⟨Keep.refl v, fun _ h => h⟩

theorem Rely.trans (h : Rely pid calm me u v) (h' : Rely pid calm me v w) : Rely pid calm me u w :=
  ⟨h.toKeep.trans h'.toKeep, fun id hl => h.given id (h'.given id hl)⟩

theorem Acts.refl (G : Str → Bytes → Volume ι → Prop) (v : Volume ι) : Acts pid me G v v :=
  ⟨History.refl v, fun _ => .inl rfl, fun _ f hf => ⟨f, hf, .inl rfl⟩, fun _ => .inl rfl⟩

theorem Acts.lock_other {G : Str → Bytes → Volume ι → Prop} (h : Acts pid me G v w) (hj : j ≠ me)
    (id : FileId) : w.locked id = some j ↔ v.locked id = some j := by
  rcases h.locks id with heq | ⟨hv, hw⟩
  · rw [heq]
  · constructor
    · intro hl
      rcases hw with hw | hw <;> rw [hw] at hl <;> cases hl
      exact absurd rfl hj
    · intro hl
      rcases hv with hv | hv <;> rw [hv] at hl <;> cases hl
      exact absurd rfl hj

/-- Nobody else's lock covers the table. -/
theorem HoldsLock.unique {t : Str} (h : HoldsLock me v t) (h' : HoldsLock j v t) : me = j := by
  obtain ⟨id, hn, hl⟩ := h
  obtain ⟨id', hn', hl'⟩ := h'
  obtain rfl := Option.some.inj (hn.symm.trans hn')
  exact Option.some.inj (hl.symm.trans hl')

/-- A name that another process protects is not changed. -/
theorem Acts.name_other {G : Str → Bytes → Volume ι → Prop} (hpid : pid.Injective)
    (h : Acts pid me G v w) (hj : j ≠ me) {n : Str} (hn : Protected pid j v n) :
    w.names n = v.names n := by
  have hnotemp : ¬ TempOf (pid me) n := by
    intro hme
    rcases hn with hj' | ⟨ht, -⟩
    · exact hj (hpid (hj'.pid_eq hme))
    · exact ht.head_ne hme.head
  rcases h.names n with heq | hme | ⟨-, hlock⟩ | ⟨hpub, -⟩
  · exact heq
  · exact absurd hme.1 hnotemp
  · rcases hn with hj' | ⟨ht, -⟩
    · exact absurd hlock hj'.not_lock
    · obtain ⟨t, rfl⟩ := hlock
      exact absurd (head_lockName t) ht.head_ne
  · rcases hn with hj' | ⟨ht, hheld⟩
    · rcases hpub with ⟨ht, -⟩ | rfl
      · exact absurd hj'.head ht.head_ne
      · exact absurd hj'.head receiptName_head
    · rcases hpub with ⟨-, hme⟩ | rfl
      · exact absurd (hheld.unique hme) hj
      · exact absurd rfl ht.ne_receipt

/-- What a process does leaves alone what is settled. -/
theorem Acts.settled {G : Str → Bytes → Volume ι → Prop} (h : Acts pid me G v w) : Calm v w := by
  intro id f hf hs
  refine ⟨fun p n hn hid => ?_, ?_⟩
  · rcases h.names n with heq | ⟨-, hnew⟩ | ⟨-, hlock⟩ | ⟨⟨ht, -⟩ | rfl, -⟩
    · exact hs p n hn (heq ▸ hid)
    · rw [hnew id hid] at hf
      cases hf
    · exact hn.not_lock hlock
    · exact ht.head_ne hn.head
    · exact receiptName_head hn.head
  · obtain ⟨f', hf', hc | ⟨n, hn, hid⟩⟩ := h.contents id f hf
    · exact ⟨f', hf', hc⟩
    · exact absurd hid (hs _ n hn)

/-- What one process does, every other relies on. -/
theorem Acts.rely {G : Str → Bytes → Volume ι → Prop} (hpid : pid.Injective)
    (h : Acts pid me G v w) (hj : j ≠ me) : Rely pid calm j v w := by
  refine ⟨⟨h.history, fun t id hn => ?_, fun id => (h.lock_other hj id).mpr, fun n _ hn => ?_,
    fun _ => h.settled⟩, fun id => (h.lock_other hj id).mp⟩
  · rcases h.names (lockName t) with heq | ⟨htemp, -⟩ | ⟨hnone, -⟩ | ⟨⟨ht, -⟩ | hr, -⟩
    · rw [heq]
      exact hn
    · exact absurd ⟨t, rfl⟩ htemp.not_lock
    · rw [hnone] at hn
      cases hn
    · exact absurd (head_lockName t) ht.head_ne
    · exact absurd (hr ▸ head_lockName t) receiptName_head
  · refine ⟨h.name_other hpid hj hn, fun id f hid hf => ?_⟩
    obtain ⟨f', hf', hc | ⟨m, hm, hmid⟩⟩ := h.contents id f hf
    · exact ⟨f', hf', hc⟩
    · -- the file would have the temporary name of the other process too
      have hnm : n = m := v.alone hm hmid hid
      subst hnm
      rcases hn with hj' | ⟨ht, -⟩
      · exact absurd (hpid (hj'.pid_eq hm)) hj
      · exact absurd hm.head ht.head_ne

end

end Ple
end FlashNext
