import FlashNext.Effect.Triple
import FlashNext.Ple.Document
import FlashNext.Ple.Materialized

/-!
# Programs over a file that nothing changes

While a file stays as it is, what the builder and the verifier do is a function of the file:
`Computes` says that every run ends with what a pure sequence of checks gives.  A read may be
short; where the world may also fail, a run that ends with a value still ends with that one.
-/

namespace FlashNext
namespace Ple

open Effect
open Py (Str Value str)
open Text (Bytes)

/-- A file that stays as it is. -/
structure SourceFile where
  stat : Stat
  content : Bytes
  size_eq : stat.size = content.length

/-- The call failed. -/
def Failed : (op : Op) → Ans op → Prop
  | .openRoot, a | .openDir _ _, a | .openLeaf _ _ _, a | .openTemp _ _, a => ∃ e, a = .error e
  | .lstat _ _, a | .fstat _, a => ∃ e, a = .error e
  | .statvfs _, a => ∃ e, a = .error e
  | .pread _ _ _, a => ∃ e, a = .error e
  | .pwrite _ _ _, a => ∃ e, a = .error e
  | .mkdir _ _, a | .ftruncate _ _, a | .fdatasync _, a | .fadvise _ _ _, a | .fsync _, a
  | .flock _, a | .close _, a | .replace _ _ _, a | .unlink _ _, a => ∃ e, a = .error e
  | .geteuid, _ | .tempSuffix, _ | .monotonic, _ => False

namespace SourceFile

variable (file : SourceFile)

/-- What a call that does not fail answers.  A read brings something unless it starts at the end
of the file. -/
def Tells : (op : Op) → Ans op → Prop
  | .fstat _, a | .lstat _ _, a => a = .ok file.stat
  | .pread _ count offset, a =>
    ∃ chunk, a = .ok chunk ∧ chunk <+: slice file.content offset count ∧
      (chunk = [] → slice file.content offset count = [])
  | .openRoot, a | .openDir _ _, a | .openLeaf _ _ _, a => ∃ fd, a = .ok fd
  | .close _, a => a = .ok ()
  | _, _ => True

/-- The system around the file, where calls may fail or may not. -/
def world (mayFail : Prop) : Sem Op Ans Unit where
  In := Ans
  allowed op a _ := file.Tells op a ∨ mayFail ∧ Failed op a
  step _ a w := (a, w)

end SourceFile

/-- Every run ends with a value in `V`, with a refusal in `E` or, where calls may fail, with any
exception; none gets stuck. -/
def Yields {α : Type} (file : SourceFile) (mayFail : Prop) (V : α → Prop) (E : Str → Prop)
    (p : CacheM α) : Prop :=
  Meets (file.world mayFail) (Answered (file.world mayFail)) (fun a _ => V a)
    (fun e _ => mayFail ∨ ∃ text, e = .cache text ∧ E text) p ()

/-- The program refuses nothing. -/
abbrev Passes {α : Type} (file : SourceFile) (mayFail : Prop) (p : CacheM α) : Prop :=
  Yields file mayFail (fun _ => True) (fun _ => False) p

/-- The program computes what the checks give. -/
abbrev Computes {α : Type} (file : SourceFile) (mayFail : Prop) (p : CacheM α)
    (r : Except Str α) : Prop :=
  Yields file mayFail (fun a => r = .ok a) (fun text => r = .error text) p

section Rules

variable {α β : Type} {file : SourceFile} {mayFail : Prop} {V : α → Prop} {E : Str → Prop}

theorem Yields.bind {V' : β → Prop} {E' : Str → Prop} {p : CacheM α} {f : α → CacheM β}
    (hp : Yields file mayFail V E p) (hE : ∀ text, E text → E' text)
    (hf : ∀ a, V a → Yields file mayFail V' E' (f a)) : Yields file mayFail V' E' (p >>= f) := by
  refine Meets.bind (Meets.mono hp (fun a _ ha => hf a ha) fun e _ he => ?_)
  rcases he with hfail | ⟨text, htext, he⟩
  · exact .inl hfail
  · exact .inr ⟨text, htext, hE text he⟩

theorem Yields.mono {V' : α → Prop} {p : CacheM α} (hp : Yields file mayFail V E p)
    (hV : ∀ a, V a → V' a) : Yields file mayFail V' E p :=
  Meets.mono hp (fun a _ => hV a) fun _ _ he => he

/-- A first part that refuses nothing. -/
theorem Yields.then {V' : β → Prop} {E' : Str → Prop} {p : CacheM α} {f : α → CacheM β}
    (hp : Yields file mayFail V (fun _ => False) p)
    (hf : ∀ a, V a → Yields file mayFail V' E' (f a)) : Yields file mayFail V' E' (p >>= f) :=
  hp.bind (fun _ h => h.elim) hf

theorem Computes.ret (a : α) : Computes file mayFail (pure a) (.ok a) := rfl

theorem Computes.bind {p : CacheM α} {f : α → CacheM β} {r : Except Str α}
    {g : α → Except Str β} (hp : Computes file mayFail p r)
    (hf : ∀ a, r = .ok a → Computes file mayFail (f a) (g a)) :
    Computes file mayFail (p >>= f) (r >>= g) := by
  cases r with
  | ok a =>
    refine Yields.bind hp (fun text h => ?_) fun b hb => ?_
    · cases h
    · obtain rfl := Except.ok.inj hb
      exact hf a rfl
  | error text =>
    refine Yields.bind hp (fun text' h => ?_) fun b hb => ?_
    · rw [Except.error.injEq] at h
      subst h
      rfl
    · cases hb

/-- A first part that gives one value. -/
theorem Computes.step {p : CacheM α} {f : α → CacheM β} {a : α} {r : Except Str β}
    (hp : Computes file mayFail p (.ok a)) (hf : Computes file mayFail (f a) r) :
    Computes file mayFail (p >>= f) r :=
  Computes.bind (g := fun _ => r) hp fun b hb => by
    obtain rfl := Except.ok.inj hb
    exact hf

theorem Computes.of_yields {p : CacheM α} {a : α}
    (h : Yields file mayFail (fun b => b = a) (fun _ => False) p) :
    Computes file mayFail p (.ok a) := by
  refine Meets.mono h (fun b _ hb => ?_) fun e _ he => ?_
  · rw [hb]
  · rcases he with hfail | ⟨_, -, h⟩
    · exact .inl hfail
    · exact h.elim

theorem Computes.orFail (r : Except Str α) : Computes file mayFail (orFail r) r := by
  cases r with
  | ok a => exact rfl
  | error text => exact .inr ⟨text, rfl, rfl⟩

/-- Nothing differs from itself. -/
theorem Computes.unchanged (snapshot : Snapshot) (text : Str) :
    Computes file mayFail (Ple.orFail (reject (snapshot ≠ snapshot) text)) (.ok ()) := by
  rw [decide_eq_false (not_not_intro rfl)]
  exact rfl

theorem Yields.onRaise {p : CacheM α} {fin : CacheM Unit} (hp : Yields file mayFail V E p)
    (hfin : Passes file mayFail fin) :
    Yields file mayFail V E (onRaise p fin) := by
  refine Meets.handle (Meets.mono hp (fun _ _ ha => ha) fun e _ he => ?_)
  refine Meets.bind (Meets.mono hfin (fun _ _ _ => he) fun e' _ he' => ?_)
  rcases he' with hfail | ⟨_, -, h⟩
  · exact .inl hfail
  · exact h.elim

theorem Yields.finally_ {p : CacheM α} {fin : CacheM Unit} (hp : Yields file mayFail V E p)
    (hfin : Passes file mayFail fin) :
    Yields file mayFail V E (p.finally_ fin) := by
  have hleave : ∀ {e : Exc} {w : Unit},
      (mayFail ∨ ∃ text, e = Exc.cache text ∧ False) →
        mayFail ∨ ∃ text, e = Exc.cache text ∧ E text := by
    intro e _ he
    rcases he with hfail | ⟨_, -, h⟩
    · exact .inl hfail
    · exact h.elim
  refine Meets.finally_ (Meets.mono hp (fun a _ ha => ?_) fun e _ he => ?_)
  · exact Meets.mono hfin (fun _ _ _ => ha) fun e w he => hleave (w := w) he
  · exact Meets.mono hfin (fun _ _ _ => he) fun e w he => hleave (w := w) he

/-- Only a failure is no refusal. -/
theorem Yields.catchOs {what : Str} {p : CacheM α} (hp : Yields file mayFail V E p) :
    Yields file mayFail V E (catchOs what p) := by
  refine Meets.handle (Meets.mono hp (fun _ _ ha => ha) fun e _ he => ?_)
  rcases he with hfail | ⟨text, rfl, he⟩
  · cases e <;> exact .inl hfail
  · exact .inr ⟨text, rfl, he⟩

/-! ## Calls -/

theorem Yields.ask (op : Op) (h : ∃ a, file.Tells op a) :
    Yields file mayFail (fun a => file.Tells op a ∨ mayFail ∧ Failed op a) (fun _ => False)
      (ask op) := by
  obtain ⟨a, ha⟩ := h
  exact ⟨⟨a, .inl ha⟩, fun i hi => hi⟩

/-- What an answer brings, where calls may fail. -/
def Brings (mayFail : Prop) (V : α → Prop) : Except OsError α → Prop
  | .ok a => V a
  | .error _ => mayFail

theorem Yields.orOs {x : CacheM (Except OsError α)}
    (h : Yields file mayFail (Brings mayFail V) (fun _ => False) x) :
    Yields file mayFail V (fun _ => False) (orOs x) := by
  refine h.then fun a ha => ?_
  cases a with
  | ok a => exact ha
  | error e => exact .inl ha

theorem Yields.orCache {what : Str} {x : CacheM (Except OsError α)}
    (h : Yields file mayFail (Brings mayFail V) (fun _ => False) x) :
    Yields file mayFail V (fun _ => False) (orCache what x) := by
  refine h.then fun a ha => ?_
  cases a with
  | ok a => exact ha
  | error e => exact .inl ha

theorem fstat_computes (fd : Fd) :
    Computes file mayFail (orOs (ask (.fstat fd))) (.ok file.stat) := by
  refine Computes.of_yields (Yields.orOs ((Yields.ask (.fstat fd) ⟨.ok file.stat, rfl⟩).mono fun a ha => ?_))
  rcases ha with rfl | ⟨hfail, e, rfl⟩
  · exact rfl
  · exact hfail

theorem lstat_computes (fd : Fd) (name what : Str) :
    Computes file mayFail (orCache what (ask (.lstat fd name))) (.ok file.stat) := by
  refine Computes.of_yields
    (Yields.orCache ((Yields.ask (.lstat fd name) ⟨.ok file.stat, rfl⟩).mono fun a ha => ?_))
  rcases ha with rfl | ⟨hfail, e, rfl⟩
  · exact rfl
  · exact hfail

theorem close_passes (fd : Fd) : Passes file mayFail (orOs (ask (.close fd))) := by
  refine Yields.orOs ((Yields.ask (.close fd) ⟨.ok (), rfl⟩).mono fun a ha => ?_)
  rcases ha with rfl | ⟨hfail, e, rfl⟩
  · trivial
  · exact hfail

theorem openRoot_passes : Passes file mayFail (orOs (ask .openRoot)) := by
  refine Yields.orOs ((Yields.ask .openRoot ⟨.ok 0, 0, rfl⟩).mono fun a ha => ?_)
  rcases ha with ⟨fd, rfl⟩ | ⟨hfail, e, rfl⟩
  · trivial
  · exact hfail

theorem openLeaf_passes (dir : Fd) (name what : Str) :
    Passes file mayFail (orCache what (ask (.openLeaf dir name false))) := by
  refine Yields.orCache ((Yields.ask (.openLeaf dir name false) ⟨.ok 0, 0, rfl⟩).mono
    fun a ha => ?_)
  rcases ha with ⟨fd, rfl⟩ | ⟨hfail, e, rfl⟩
  · trivial
  · exact hfail

theorem fadviseDontneed_passes (fd : Fd) (offset count : Nat) :
    Passes file mayFail (fadviseDontneed fd offset count) :=
  Yields.then (Yields.ask (.fadvise fd offset count) ⟨.ok (), trivial⟩) fun _ _ => trivial

/-- A read inside the file brings some of what is there. -/
theorem pread_tells (file : SourceFile) (mayFail : Prop) (fd : Fd) {count offset : Nat} (hcount : 0 < count)
    (hin : offset < file.content.length) :
    Yields file mayFail
      (Brings mayFail fun chunk => chunk ≠ [] ∧ chunk <+: slice file.content offset count)
      (fun _ => False) (ask (.pread fd count offset)) := by
  have hsome : slice file.content offset count ≠ [] := by
    rw [← List.length_pos_iff, slice, List.length_take, List.length_drop]
    omega
  refine Yields.mono (Yields.ask (.pread fd count offset) ⟨.ok (slice file.content offset count), _,
    rfl, List.prefix_rfl, id⟩) fun a ha => ?_
  rcases ha with ⟨chunk, rfl, hfront, hnil⟩ | ⟨hfail, e, rfl⟩
  · exact ⟨fun h => hsome (hnil h), hfront⟩
  · exact hfail

end Rules

/-! ## Reading a range -/

/-- A range that was read so far, and what the next read brings. -/
theorem slice_append {content chunk : Bytes} {offset done count : Nat}
    (h : chunk <+: slice content (offset + done) count) :
    slice content offset done ++ chunk = slice content offset (done + chunk.length) := by
  have hchunk : chunk = (content.drop (offset + done)).take chunk.length :=
    List.prefix_iff_eq_take.mp (h.trans (List.take_prefix _ _))
  calc slice content offset done ++ chunk
      = (content.drop offset).take done ++
          ((content.drop offset).drop done).take chunk.length := by
        rw [List.drop_drop, ← hchunk, slice]
    _ = slice content offset (done + chunk.length) := List.take_add.symm

section

variable {file : SourceFile} {mayFail : Prop} {fd : Fd} {what : Str} {size offset : Nat}

theorem length_le_of_slice {content chunk : Bytes} {count : Nat}
    (h : chunk <+: slice content offset count) : chunk.length ≤ count := by
  have hle := h.length_le
  rw [slice, List.length_take] at hle
  omega

theorem readRest_computes (hin : offset + size ≤ file.content.length) {done : Nat}
    (hdone : done ≤ size) :
    Computes file mayFail (readRest fd size offset what (slice file.content offset done))
      (.ok (slice file.content offset size)) := by
  induction hleft : size - done using Nat.strong_induction_on generalizing done with
  | _ left ih =>
    have hlen : (slice file.content offset done).length = done := length_slice (by omega)
    rw [readRest, hlen]
    by_cases hmore : done < size
    · rw [if_pos hmore]
      have hbuffer : 0 < ioBufferBytes := by decide
      have hread := pread_tells file mayFail fd (show 0 < min ioBufferBytes (size - done) by omega)
        (show offset + done < file.content.length by omega)
      refine Yields.then (Yields.orOs hread) ?_
      rintro chunk ⟨hne, hfront⟩
      have hpos := List.length_pos_iff.mpr hne
      have hle := length_le_of_slice hfront
      rw [if_neg hne, slice_append hfront]
      exact ih (size - (done + chunk.length)) (by omega) (by omega) rfl
    · rw [if_neg hmore]
      obtain rfl : done = size := by omega
      exact rfl

theorem readExact_computes (hin : offset + size ≤ file.content.length) :
    Computes file mayFail (readExact fd size offset what)
      (.ok (slice file.content offset size)) :=
  readRest_computes hin (Nat.zero_le size)

theorem hashRest_computes (hin : offset + size ≤ file.content.length) {done advised : Nat}
    (hdone : done ≤ size) :
    Computes file mayFail (hashRest fd size offset what (slice file.content offset done) advised)
      (.ok (slice file.content offset size)) := by
  induction hleft : size - done using Nat.strong_induction_on generalizing done advised with
  | _ left ih =>
    have hlen : (slice file.content offset done).length = done := length_slice (by omega)
    rw [hashRest, hlen]
    by_cases hmore : done < size
    · rw [if_pos hmore]
      have hbuffer : 0 < ioBufferBytes := by decide
      have hread := pread_tells file mayFail fd (show 0 < min ioBufferBytes (size - done) by omega)
        (show offset + done < file.content.length by omega)
      refine Yields.then (Yields.orCache hread) ?_
      rintro chunk ⟨hne, hfront⟩
      have hpos := List.length_pos_iff.mpr hne
      have hle := length_le_of_slice hfront
      rw [if_neg hne, slice_append hfront]
      -- what is hashed next, whatever is done for the cache before
      have hrest : ∀ advised, Computes file mayFail
          (hashRest fd size offset what (slice file.content offset (done + chunk.length)) advised)
          (.ok (slice file.content offset size)) := fun advised =>
        ih (size - (done + chunk.length)) (by omega) (by omega) rfl
      by_cases hsync : fadviseIntervalBytes ≤ done + chunk.length - advised
      · rw [if_pos hsync]
        exact Yields.then (fadviseDontneed_passes fd _ _) fun _ _ => hrest _
      · rw [if_neg hsync]
        exact hrest advised
    · rw [if_neg hmore]
      obtain rfl : done = size := by omega
      by_cases hadvise : advised < done
      · rw [if_pos hadvise]
        exact Yields.then (fadviseDontneed_passes fd _ _) fun _ _ => rfl
      · rw [if_neg hadvise]
        exact rfl

theorem hashFdRange_computes (hin : offset + size ≤ file.content.length) :
    Computes file mayFail (hashFdRange fd size offset what)
      (.ok (slice file.content offset size)) :=
  hashRest_computes hin (Nat.zero_le size)

/-- All of the file. -/
theorem hashWhole_computes :
    Computes file mayFail (hashFdRange fd file.content.length 0 what) (.ok file.content) := by
  have h : Computes file mayFail (hashFdRange fd file.content.length 0 what)
      (.ok (slice file.content 0 file.content.length)) := hashFdRange_computes (by omega)
  rw [slice, List.drop_zero, List.take_length] at h
  exact h

end

end Ple
end FlashNext
