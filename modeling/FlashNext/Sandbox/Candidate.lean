import FlashNext.Sandbox.Driver
import Mathlib.Data.List.Infix

/-!
# An untrusted candidate

A candidate is any program: it writes what it likes to the descriptors it inherits and exits
when it likes with the status it likes.  What the operating system answers to the driver
follows from what the candidate has done so far.  `Trusted` says that the driver calls a
candidate good only when its control reached the epilogue of the harness.
-/

namespace FlashNext
namespace Sandbox

open Effect Text
open Py (Str Value str)

/-! ## What a candidate can do -/

/-- What a finished process shows: its exit status, or the negative number of a signal. -/
structure ExitCode where
  value : Int
  signal : -64 ≤ value
  status : value ≤ 255
  deriving DecidableEq

def ExitCode.success : ExitCode := ⟨0, by decide, by decide⟩

inductive Action where
  | write (stream : Stream) (bytes : Bytes)
  /-- Control leaves the candidate and the test, and the epilogue sends the marker. -/
  | finish
  | exit (code : ExitCode)
  deriving DecidableEq

def Action.sends (stream : Stream) : Action → Bytes
  | .write s bytes => if s = stream then bytes else []
  | .finish => if stream = .completion then completionMarker else []
  | .exit _ => []

/-- Everything sent to a stream. -/
def written (stream : Stream) (trace : List Action) : Bytes := trace.flatMap (·.sends stream)

def exitOf (trace : List Action) : Option Int :=
  trace.findSome? fun
    | .exit code => some code.value
    | _ => none

theorem written_append (stream : Stream) (xs ys : List Action) :
    written stream (xs ++ ys) = written stream xs ++ written stream ys := List.flatMap_append

/-- A program: what it can have done, at every moment. -/
structure Program where
  can : List Action → Prop
  start : can []
  closed : ∀ {done more}, can (done ++ more) → can done

/-! ## The operating system -/

structure World where
  trace : List Action
  /-- How much the driver read of each stream. -/
  taken : Stream → Nat
  /-- The streams whose end the driver has seen. -/
  ended : List Stream
  clock : ℚ
  launched : Bool
  killed : Bool

def World.start : World := ⟨[], fun _ => 0, [], 0, false, false⟩

namespace World

def act (w : World) (acts : List Action) : World := { w with trace := w.trace ++ acts }

/-- What the driver has read of a stream, and what it has not. -/
def carried (w : World) (stream : Stream) : Bytes :=
  (written stream w.trace).take (w.taken stream)

def unread (w : World) (stream : Stream) : Bytes :=
  (written stream w.trace).drop (w.taken stream)

/-- The exit status a process shows that may have been killed, by `SIGTERM` or `SIGKILL`. -/
def shows (w : World) (code : Option Int) : Prop :=
  code = exitOf w.trace ∨
    w.killed = true ∧ exitOf w.trace = none ∧ (code = some (-15) ∨ code = some (-9))

end World

/-- The answers that the state of the processes and of the pipes admits. -/
def consistent (w : World) : (op : Op) → Ans op → Prop
  | .monotonic, now => w.clock ≤ now
  | .poll, code => w.shows code
  | .wait, code => code = none ∨ w.shows code
  | .select registered, .ok streams => streams.Nodup ∧ ∀ s ∈ streams, s ∈ registered
  | .read stream, .chunk bytes => bytes ≠ [] ∧ bytes = (w.unread stream).take 4096
  | .read stream, .blocked => w.unread stream = []
  -- the candidate has exited or closed the descriptor
  | .read stream, .ended => w.unread stream = []
  | _, _ => True

/-- What a call does. -/
def update (w : World) : (op : Op) → Ans op → World
  | .monotonic, now => { w with clock := now }
  | .launch, .ok _ => { w with launched := true }
  | .terminate _, _ => { w with killed := true }
  | .read stream, .chunk bytes =>
    { w with taken := fun s => if s = stream then w.taken s + bytes.length else w.taken s }
  | .read stream, .ended => { w with ended := stream :: w.ended }
  | _, _ => w

/-- The candidate may act before a call, once it was launched; nothing is sent to a stream
after its end. -/
structure MayAct (program : Program) (w : World) (acts : List Action) : Prop where
  can : program.can (w.trace ++ acts)
  launched : w.launched = false → acts = []
  ended : ∀ s ∈ w.ended, written s acts = []

def sandbox (program : Program) : Sem Op Ans World where
  In op := List Action × Ans op
  allowed op i w := MayAct program w i.1 ∧ consistent (w.act i.1) op i.2
  step op i w := (i.2, update (w.act i.1) op i.2)

section

variable {program : Program} {w w' : World} {l : Locals}

/-- One call: what the candidate did before it, and the answer. -/
theorem run_ask {op : Op} {o : Outcome Exc (Ans op)} :
    Run (sandbox program) (ask op) w o w' ↔ ∃ acts a, MayAct program w acts ∧
      consistent (w.act acts) op a ∧ o = .value a ∧ w' = update (w.act acts) op a := by
  constructor
  · rintro ⟨i, ⟨hacts, hanswer⟩, ho, hw⟩
    exact ⟨i.1, i.2, hacts, hanswer, ho, hw⟩
  · rintro ⟨acts, a, hacts, hanswer, ho, hw⟩
    exact ⟨(acts, a), ⟨hacts, hanswer⟩, ho, hw⟩

theorem run_ask_bind {α : Type} {op : Op} {k : Ans op → DriverM α} {o : Outcome Exc α} :
    Run (sandbox program) (ask op >>= k) w o w' ↔ ∃ acts a, MayAct program w acts ∧
      consistent (w.act acts) op a ∧
        Run (sandbox program) (k a) (update (w.act acts) op a) o w' := by
  constructor
  · rintro ⟨i, ⟨hacts, hanswer⟩, h⟩
    exact ⟨i.1, i.2, hacts, hanswer, h⟩
  · rintro ⟨acts, a, hacts, hanswer, h⟩
    exact ⟨(acts, a), ⟨hacts, hanswer⟩, h⟩

/-! ## What the driver knows of the streams -/

/-- The last bytes of a stream and their number. -/
def tailOf (bytes : Bytes) : Tail := ⟨bytes.drop (bytes.length - maxOutputTailBytes), bytes.length⟩

/-- Cutting to the last `n` after every piece is cutting once. -/
theorem drop_keep (n : Nat) (xs ys : Bytes) :
    (xs.drop (xs.length - n) ++ ys).drop ((xs.drop (xs.length - n) ++ ys).length - n) =
      (xs ++ ys).drop ((xs ++ ys).length - n) := by
  rw [← List.drop_append_of_le_length (Nat.sub_le _ _), List.drop_drop, List.length_drop,
    List.length_append]
  congr 1
  omega

theorem tailOf_append (xs ys : Bytes) : (tailOf xs).append ys = tailOf (xs ++ ys) := by
  unfold Tail.append tailOf
  dsimp only
  rw [drop_keep]
  simp only [List.length_append]

/-- The driver's variables are those of the bytes it read. -/
structure Knows (l : Locals) (w : World) : Prop where
  stdout : l.stdout = tailOf (w.carried .stdout)
  stderr : l.stderr = tailOf (w.carried .stderr)
  completion : l.completion = w.carried .completion
  within : ∀ s, w.taken s ≤ (written s w.trace).length
  /-- A marker that was read was at some time all that had been sent. -/
  marked : l.completion = completionMarker →
    ∃ done, done <+: w.trace ∧ written .completion done = completionMarker
  quiet : l.status = .ok → l.stdout.count ≤ maxOutputBytes ∧ l.stderr.count ≤ maxOutputBytes
  gone : ∀ s, s ∉ l.registered → s ∈ w.ended
  spent : ∀ s ∈ w.ended, w.taken s = (written s w.trace).length

theorem knows_start (deadline : ℚ) : Knows (Locals.start deadline) World.start := by
  refine ⟨rfl, rfl, rfl, ?_, ?_, ?_, ?_, ?_⟩
  · intro s
    exact Nat.zero_le _
  · intro h
    have hne : ([] : Bytes) ≠ completionMarker := by decide
    exact absurd h hne
  · intro _
    exact ⟨Nat.zero_le _, Nat.zero_le _⟩
  · intro s hs
    have hall : ∀ s, s ∈ [Stream.stdout, .stderr, .completion] := by
      intro s
      cases s <;> decide
    exact absurd (hall s) hs
  · intro s hs
    cases hs

/-- The candidate's actions change nothing that was read. -/
theorem carried_act {acts : List Action} (s : Stream)
    (h : w.taken s ≤ (written s w.trace).length) : (w.act acts).carried s = w.carried s := by
  show (written s (w.trace ++ acts)).take (w.taken s) = _
  rw [written_append, List.take_append_of_le_length h]
  rfl

theorem Knows.act {acts : List Action} (h : Knows l w) (hacts : MayAct program w acts) :
    Knows l (w.act acts) := by
  have hcarried : ∀ s, (w.act acts).carried s = w.carried s :=
    fun s => carried_act s (h.within s)
  have hlen : ∀ s, (written s (w.act acts).trace).length =
      (written s w.trace).length + (written s acts).length := by
    intro s
    show (written s (w.trace ++ acts)).length = _
    rw [written_append, List.length_append]
  refine ⟨?_, ?_, ?_, ?_, ?_, h.quiet, h.gone, ?_⟩
  · rw [hcarried, h.stdout]
  · rw [hcarried, h.stderr]
  · rw [hcarried, h.completion]
  · intro s
    have hs := h.within s
    have hs' := hlen s
    show w.taken s ≤ _
    omega
  · intro hmark
    obtain ⟨done, hprefix, hdone⟩ := h.marked hmark
    exact ⟨done, hprefix.trans (List.prefix_append _ _), hdone⟩
  · intro s hs
    have hs' := hlen s
    rw [hacts.ended s hs, List.length_nil] at hs'
    have hspent := h.spent s hs
    show w.taken s = _
    omega

/-- A call that touches no stream. -/
theorem Knows.of_same {v : World} (h : Knows l w) (htrace : v.trace = w.trace)
    (htaken : v.taken = w.taken) (hended : v.ended = w.ended) : Knows l v := by
  have hcarried : ∀ s, v.carried s = w.carried s := by
    intro s
    rw [World.carried, World.carried, htrace, htaken]
  refine ⟨?_, ?_, ?_, ?_, ?_, h.quiet, ?_, ?_⟩
  · rw [hcarried, h.stdout]
  · rw [hcarried, h.stderr]
  · rw [hcarried, h.completion]
  · rw [htrace, htaken]
    exact h.within
  · rw [htrace]
    exact h.marked
  · rw [hended]
    exact h.gone
  · rw [htrace, htaken, hended]
    exact h.spent

/-- The calls that read no stream. -/
def Aside (op : Op) : Prop := ∀ s, op ≠ .read s

theorem update_aside {op : Op} {a : Ans op} (h : Aside op) : (update w op a).trace = w.trace ∧
    (update w op a).taken = w.taken ∧ (update w op a).ended = w.ended := by
  cases op with
  | read s => exact absurd rfl (h s)
  | launch => cases a <;> exact ⟨rfl, rfl, rfl⟩
  | _ => exact ⟨rfl, rfl, rfl⟩

theorem Knows.aside {op : Op} {a : Ans op} {acts : List Action} (h : Knows l w)
    (hacts : MayAct program w acts) (hop : Aside op) : Knows l (update (w.act acts) op a) := by
  obtain ⟨htrace, htaken, hended⟩ := update_aside (w := w.act acts) (a := a) hop
  exact (h.act hacts).of_same htrace htaken hended

/-- Variables that say the same about the streams. -/
structure SameStreams (l l' : Locals) : Prop where
  stdout : l'.stdout = l.stdout
  stderr : l'.stderr = l.stderr
  completion : l'.completion = l.completion
  registered : l'.registered = l.registered
  status : l'.status = .ok → l.status = .ok

theorem Knows.of_locals {l' : Locals} (h : Knows l w) (hsame : SameStreams l l') : Knows l' w := by
  refine ⟨?_, ?_, ?_, h.within, ?_, ?_, ?_, h.spent⟩
  · rw [hsame.stdout, h.stdout]
  · rw [hsame.stderr, h.stderr]
  · rw [hsame.completion, h.completion]
  · rw [hsame.completion]
    exact h.marked
  · intro hok
    rw [hsame.stdout, hsame.stderr]
    exact h.quiet (hsame.status hok)
  · rw [hsame.registered]
    exact h.gone

theorem Knows.fail (h : Knows l w) {status : Status} (hs : status ≠ .ok) (reason : String) :
    Knows (l.fail status reason) w :=
  h.of_locals ⟨rfl, rfl, rfl, rfl, fun hok => absurd hok hs⟩


/-! ## The loop -/

theorem completionMarker_length : completionMarker.length = 24 := by decide

/-- What the driver knows after it stored a chunk, except that the stream may be too long. -/
theorem Knows.store {stream : Stream} {bytes : Bytes} (h : Knows l w)
    (hbytes : bytes = (w.unread stream).take 4096)
    (hshort : (l.store stream bytes).status = .ok →
      (l.store stream bytes).exceeds stream = false) :
    Knows (l.store stream bytes) (update w (.read stream) (.chunk bytes)) := by
  have hle := h.within stream
  have hsplit : written stream w.trace = w.carried stream ++ w.unread stream :=
    (List.take_append_drop _ _).symm
  have hcarriedLen : (w.carried stream).length = w.taken stream := by
    rw [World.carried, List.length_take]
    omega
  have hbytesLen : bytes.length ≤ (w.unread stream).length := by
    rw [hbytes, List.length_take]
    omega
  have hlen : (written stream w.trace).length = w.taken stream + (w.unread stream).length := by
    rw [hsplit, List.length_append, hcarriedLen]
  have hself : (update w (.read stream) (.chunk bytes)).carried stream =
      w.carried stream ++ bytes := by
    show (written stream w.trace).take (if stream = stream then w.taken stream + bytes.length
      else w.taken stream) = _
    rw [if_pos rfl, List.take_add]
    show w.carried stream ++ (w.unread stream).take bytes.length = _
    rw [hbytes, List.length_take, List.take_eq_take_min, Nat.min_assoc, Nat.min_self,
      ← List.take_eq_take_min]
  have hother : ∀ s, s ≠ stream → (update w (.read stream) (.chunk bytes)).carried s =
      w.carried s := by
    intro s hs
    show (written s w.trace).take (if s = stream then _ else w.taken s) = _
    rw [if_neg hs]
    rfl
  have hwithin : ∀ s, (update w (.read stream) (.chunk bytes)).taken s ≤
      (written s w.trace).length := by
    intro s
    show (if s = stream then w.taken s + bytes.length else w.taken s) ≤ _
    by_cases hs : s = stream
    · rw [if_pos hs, hs]
      omega
    · rw [if_neg hs]
      exact h.within s
  have hspent : ∀ s ∈ w.ended, (update w (.read stream) (.chunk bytes)).taken s =
      (written s w.trace).length := by
    intro s hs
    have hs' := h.spent s hs
    have hle' := hwithin s
    have hge : w.taken s ≤ (update w (.read stream) (.chunk bytes)).taken s := by
      show w.taken s ≤ if s = stream then w.taken s + bytes.length else w.taken s
      split <;> omega
    omega
  have hmarked : stream = .completion → w.carried stream ++ bytes = completionMarker →
      written .completion w.trace = completionMarker := by
    intro hstream hmark
    -- the marker is shorter than a read, so the read emptied the pipe
    have hmarkLen := congrArg List.length hmark
    rw [completionMarker_length, List.length_append] at hmarkLen
    have hall : bytes = w.unread stream := by
      have hmin := congrArg List.length hbytes
      rw [List.length_take] at hmin
      rw [hbytes, List.take_of_length_le (by omega)]
    rw [← hstream, hsplit, ← hall, hmark]
  have hstdout : (l.store stream bytes).stdout =
      tailOf ((update w (.read stream) (.chunk bytes)).carried .stdout) := by
    rw [store_stdout]
    by_cases hs : stream = .stdout
    · subst hs
      rw [if_pos rfl, hself, h.stdout, tailOf_append]
    · rw [if_neg hs, hother _ (Ne.symm hs), h.stdout]
  have hstderr : (l.store stream bytes).stderr =
      tailOf ((update w (.read stream) (.chunk bytes)).carried .stderr) := by
    rw [store_stderr]
    by_cases hs : stream = .stderr
    · subst hs
      rw [if_pos rfl, hself, h.stderr, tailOf_append]
    · rw [if_neg hs, hother _ (Ne.symm hs), h.stderr]
  have hcompletion : (l.store stream bytes).completion =
      (update w (.read stream) (.chunk bytes)).carried .completion := by
    rw [store_completion]
    by_cases hs : stream = .completion
    · subst hs
      rw [if_pos rfl, hself, h.completion]
    · rw [if_neg hs, hother _ (Ne.symm hs), h.completion]
  refine ⟨hstdout, hstderr, hcompletion, hwithin, ?_, ?_, ?_, hspent⟩
  · intro hmark
    rw [store_completion] at hmark
    by_cases hs : stream = .completion
    · rw [if_pos hs, h.completion, ← hs] at hmark
      exact ⟨w.trace, List.prefix_rfl, hmarked hs hmark⟩
    · rw [if_neg hs] at hmark
      exact h.marked hmark
  · intro hok
    have hshort' := hshort hok
    rw [store_status] at hok
    obtain ⟨hout, herr⟩ := h.quiet hok
    rw [store_stdout, store_stderr]
    unfold Locals.exceeds at hshort'
    cases stream with
    | stdout =>
      rw [store_stdout, if_pos rfl, decide_eq_false_iff_not] at hshort'
      rw [if_pos rfl, if_neg (by decide)]
      exact ⟨by omega, herr⟩
    | stderr =>
      rw [store_stderr, if_pos rfl, decide_eq_false_iff_not] at hshort'
      rw [if_neg (by decide), if_pos rfl]
      exact ⟨hout, by omega⟩
    | completion =>
      rw [if_neg (by decide), if_neg (by decide)]
      exact ⟨hout, herr⟩
  · intro s hs
    rw [store_registered] at hs
    exact h.gone s hs

theorem Knows.end {stream : Stream} (h : Knows l w) (hempty : w.unread stream = []) :
    Knows (l.unregister stream) (update w (.read stream) .ended) := by
  refine ⟨h.stdout, h.stderr, h.completion, h.within, h.marked, h.quiet, ?_, ?_⟩
  · intro s hs
    show s ∈ stream :: w.ended
    by_cases heq : s = stream
    · exact heq ▸ List.mem_cons_self
    · refine List.mem_cons_of_mem _ (h.gone s ?_)
      intro hmem
      exact hs (List.mem_filter.mpr ⟨hmem, by simpa using heq⟩)
  · intro s hs
    have hle := h.within s
    rcases List.mem_cons.mp hs with rfl | hs
    · have hlen := congrArg List.length hempty
      rw [World.unread, List.length_drop, List.length_nil] at hlen
      show w.taken s = (written s w.trace).length
      omega
    · exact h.spent s hs

/-- However the program ends, its variables are known and what is asked of them holds. -/
def Learns (program : Program) (Post : Locals → Prop) (p : DriverM Locals) (w : World) : Prop :=
  ∀ l' w', Run (sandbox program) p w (.value l') w' → Knows l' w' ∧ Post l'

variable {Post Post' : Locals → Prop}

theorem Learns.ret (h : Knows l w) (hpost : Post l) : Learns program Post (.ret l) w := by
  intro l' w' hrun
  obtain ⟨ho, rfl⟩ := hrun
  rw [Outcome.value.injEq] at ho
  exact ho ▸ ⟨h, hpost⟩

theorem Learns.bind {p : DriverM Locals} {f : Locals → DriverM Locals}
    (hp : Learns program Post' p w)
    (hf : ∀ l' v, Knows l' v → Post' l' → Learns program Post (f l') v) :
    Learns program Post (p >>= f) w := by
  intro l' w' hrun
  obtain ⟨l₁, v, h₁, h₂⟩ := run_bind_value.mp hrun
  obtain ⟨hknows, hpost⟩ := hp l₁ v h₁
  exact hf l₁ v hknows hpost l' w' h₂

/-- A call that reads no stream keeps what is known. -/
theorem Learns.answer {op : Op} {k : Ans op → DriverM Locals} (h : Knows l w) (hop : Aside op)
    (hk : ∀ a u v, consistent u op a → Knows l v → Learns program Post (k a) v) :
    Learns program Post (ask op >>= k) w := by
  intro l' w' hrun
  obtain ⟨acts, a, hacts, hanswer, hrun⟩ := run_ask_bind.mp hrun
  exact hk a _ _ hanswer (h.aside hacts hop) l' w' hrun

theorem Learns.ask {op : Op} {k : Ans op → DriverM Locals} (h : Knows l w) (hop : Aside op)
    (hk : ∀ a v, Knows l v → Learns program Post (k a) v) :
    Learns program Post (ask op >>= k) w :=
  .answer h hop fun a _ v _ hv => hk a v hv

/-- How much of a stream was counted. -/
def Locals.count (l : Locals) : Stream → Nat
  | .stdout => l.stdout.count
  | .stderr => l.stderr.count
  | .completion => 0

theorem count_fail (l : Locals) (status : Status) (reason : String) (s : Stream) :
    (l.fail status reason).count s = l.count s := by
  cases s <;> rfl

/-- No output was counted beyond its bound and one chunk; those yet to be read in this round
are within their bound. -/
def Room (streams : List Stream) (l : Locals) : Prop :=
  ∀ s, l.count s ≤ if s ∈ streams then maxOutputBytes else maxOutputBytes + 4096

theorem Knows.room (h : Knows l w) (hok : l.status = .ok) (streams : List Stream) :
    Room streams l := by
  obtain ⟨hout, herr⟩ := h.quiet hok
  have hcount : ∀ s, l.count s ≤ maxOutputBytes := by
    intro s
    cases s with
    | stdout => exact hout
    | stderr => exact herr
    | completion => exact Nat.zero_le _
  intro s
  split
  · exact hcount s
  · exact Nat.le_add_right_of_le (hcount s)

theorem Room.of_counts {streams : List Stream} {l' : Locals} (h : Room streams l)
    (hsame : ∀ s, l'.count s = l.count s) : Room streams l' := by
  intro s
  rw [hsame]
  exact h s

theorem Room.mono {streams rest : List Stream} (h : Room streams l)
    (hsub : ∀ s ∈ rest, s ∈ streams) : Room rest l := by
  intro s
  have hs := h s
  by_cases hmem : s ∈ rest
  · rw [if_pos (hsub s hmem)] at hs
    rwa [if_pos hmem]
  · rw [if_neg hmem]
    split at hs
    · exact Nat.le_add_right_of_le hs
    · exact hs

theorem count_store (l : Locals) (stream : Stream) (bytes : Bytes) (s : Stream) :
    (l.store stream bytes).count s ≤ l.count s + if s = stream then bytes.length else 0 := by
  cases s with
  | stdout =>
    show (l.store stream bytes).stdout.count ≤ _
    rw [store_stdout]
    by_cases hs : stream = .stdout
    · rw [if_pos hs, if_pos hs.symm]
      exact le_refl _
    · rw [if_neg hs]
      exact Nat.le_add_right _ _
  | stderr =>
    show (l.store stream bytes).stderr.count ≤ _
    rw [store_stderr]
    by_cases hs : stream = .stderr
    · rw [if_pos hs, if_pos hs.symm]
      exact le_refl _
    · rw [if_neg hs]
      exact Nat.le_add_right _ _
  | completion => exact Nat.zero_le _

theorem Room.store {stream : Stream} {rest : List Stream} {bytes : Bytes}
    (h : Room (stream :: rest) l) (hnot : stream ∉ rest) (hbytes : bytes.length ≤ 4096) :
    Room rest (l.store stream bytes) := by
  intro s
  have hs := h s
  have hcount := count_store l stream bytes s
  by_cases heq : s = stream
  · subst heq
    rw [if_pos List.mem_cons_self] at hs
    rw [if_pos rfl] at hcount
    rw [if_neg hnot]
    omega
  · rw [if_neg heq] at hcount
    by_cases hmem : s ∈ rest
    · rw [if_pos (List.mem_cons_of_mem _ hmem)] at hs
      rw [if_pos hmem]
      omega
    · rw [if_neg hmem]
      split at hs <;> omega

/-- What holds in a round while the streams that follow are still to be read. -/
structure Reads (rest : List Stream) (l : Locals) : Prop where
  room : Room rest l
  status : l.status = .ok ∨ l.status = .outputLimit

theorem drain_learns {stream : Stream} {rest : List Stream} (h : Knows l w)
    (hreads : Reads (stream :: rest) l) (hnot : stream ∉ rest) :
    Learns program (Reads rest) (drain stream l) w := by
  intro l' w' hrun
  obtain ⟨acts, reading, hacts, hanswer, hrun⟩ := run_ask_bind.mp hrun
  have hknows := h.act hacts
  have hroom : Room rest l := hreads.room.mono fun s => List.mem_cons_of_mem _
  cases reading with
  | blocked => exact Learns.ret hknows ⟨hroom, hreads.status⟩ l' w' hrun
  | ended => exact Learns.ret (hknows.end hanswer) ⟨hroom, hreads.status⟩ l' w' hrun
  | chunk bytes =>
    obtain ⟨-, hbytes⟩ := hanswer
    have hlen : bytes.length ≤ 4096 := by
      rw [hbytes]
      exact List.length_take_le _ _
    have hroom' := hreads.room.store hnot hlen
    dsimp only at hrun
    by_cases hlong : ((l.store stream bytes).exceeds stream &&
        decide ((l.store stream bytes).status = .ok)) = true
    · rw [if_pos hlong] at hrun
      -- the chunk is kept although it is one too many
      have hfailed : Knows ((l.fail .outputLimit (limitReason stream)).store stream bytes)
          (update (w.act acts) (.read stream) (.chunk bytes)) := by
        refine (hknows.fail (by decide) _).store hbytes fun hok => ?_
        rw [store_status] at hok
        cases hok
      have hknows' : Knows ((l.store stream bytes).fail .outputLimit (limitReason stream))
          (update (w.act acts) (.read stream) (.chunk bytes)) := by
        refine hfailed.of_locals ⟨?_, ?_, ?_, ?_, fun hok => by cases hok⟩
        all_goals simp [Locals.fail]
      have hreads' : Reads rest ((l.store stream bytes).fail .outputLimit (limitReason stream)) :=
        ⟨hroom'.of_counts (count_fail _ _ _), .inr rfl⟩
      obtain ⟨acts', u, hacts', -, hrun⟩ := run_ask_bind.mp hrun
      exact Learns.ret (hknows'.aside hacts' (by simp [Aside])) hreads' l' w' hrun
    · rw [if_neg hlong] at hrun
      have hreads' : Reads rest (l.store stream bytes) := by
        refine ⟨hroom', ?_⟩
        rw [store_status]
        exact hreads.status
      refine Learns.ret (hknows.store hbytes fun hok => ?_) hreads' l' w' hrun
      rw [store_status] at hok
      simpa [hok] using hlong

theorem drainAll_learns {streams : List Stream} (hnodup : streams.Nodup) :
    ∀ {l : Locals} {w : World}, Knows l w → Reads streams l →
      Learns program (Reads []) (drainAll streams l) w := by
  induction streams with
  | nil => exact fun h hreads => Learns.ret h hreads
  | cons stream streams ih =>
    intro l w h hreads
    obtain ⟨hnot, hrest⟩ := List.nodup_cons.mp hnodup
    exact (drain_learns h hreads hnot).bind fun l' v hknows hreads' => ih hrest hknows hreads'

/-- How the loop ends: a run that is still good has seen the ends of both outputs. -/
structure Ends (l : Locals) : Prop where
  room : Room [] l
  seen : l.status = .ok → l.fault = none → .stdout ∉ l.registered ∧ .stderr ∉ l.registered

theorem Ends.of_status (hroom : Room [] l) (h : l.status ≠ .ok) : Ends l :=
  ⟨hroom, fun hok => absurd hok h⟩

theorem settle_learns (h : Knows l w) (hok : l.status = .ok) :
    Learns program Ends (settle l) w := by
  refine Learns.ask h (by simp [Aside]) fun live v hv => ?_
  by_cases hkept : (!live.isEmpty || l.registered.any fun s => s = .stdout || s = .stderr) = true
  · rw [if_pos hkept]
    refine Learns.ask hv (by simp [Aside]) fun _ v' hv' => ?_
    exact Learns.ret (hv'.fail (by decide) _)
      (.of_status ((h.room hok []).of_counts (count_fail _ _ _)) (by simp [Locals.fail]))
  · rw [if_neg hkept]
    refine Learns.ret hv ⟨h.room hok [], fun _ _ => ?_⟩
    simp only [Bool.or_eq_true, not_or, List.any_eq_true, not_exists, not_and,
      decide_eq_true_eq] at hkept
    exact ⟨fun hmem => (hkept.2 _ hmem).1 rfl, fun hmem => (hkept.2 _ hmem).2 rfl⟩

theorem pump_learns {again : Locals → DriverM Locals} (h : Knows l w) (hok : l.status = .ok)
    (hagain : ∀ l' v, Knows l' v → l'.status = .ok → Learns program Ends (again l') v) :
    Learns program Ends (pump again l) w := by
  refine Learns.answer h (by simp [Aside]) fun ready u v hready hv => ?_
  cases ready with
  | error e =>
    refine Learns.ret (hv.of_locals ⟨rfl, rfl, rfl, rfl, id⟩) ⟨?_, ?_⟩
    · exact (h.room hok []).of_counts fun s => by cases s <;> rfl
    · intro _ hfault
      cases hfault
  | ok streams =>
    refine (drainAll_learns hready.1 hv ⟨h.room hok _, .inl hok⟩).bind fun l' v' hv' hreads => ?_
    by_cases hlimit : l'.status = .outputLimit
    · rw [if_pos hlimit]
      exact Learns.ret hv' (.of_status hreads.room (by rw [hlimit]; decide))
    · rw [if_neg hlimit]
      have hok' := hreads.status.resolve_right hlimit
      refine Learns.ask hv' (by simp [Aside]) fun code u hu => ?_
      by_cases hdone : (code.isSome && l'.registered.isEmpty) = true
      · rw [if_pos hdone]
        refine Learns.ret hu ⟨hreads.room, fun _ _ => ?_⟩
        rw [Bool.and_eq_true, List.isEmpty_iff] at hdone
        rw [hdone.2]
        exact ⟨List.not_mem_nil, List.not_mem_nil⟩
      · rw [if_neg hdone]
        exact hagain l' u hu hok'

theorem round_learns {again : Locals → DriverM Locals} {now : ℚ} (h : Knows l w)
    (hok : l.status = .ok)
    (hagain : ∀ l' v, Knows l' v → l'.status = .ok → Learns program Ends (again l') v) :
    Learns program Ends (round again now l) w := by
  refine Learns.ask h (by simp [Aside]) fun code v hv => ?_
  dsimp only
  generalize hl : (if (code.isSome && l.pipeDeadline.isNone) = true then
    { l with pipeDeadline := some (now + pipeSettle) } else l) = l'
  have hok' : l'.status = .ok := by
    rw [← hl]
    split <;> exact hok
  have hv' : Knows l' v := by
    rw [← hl]
    split
    · exact hv.of_locals ⟨rfl, rfl, rfl, rfl, id⟩
    · exact hv
  split
  · exact settle_learns hv' hok'
  · exact pump_learns hv' hok' hagain

theorem watch_learns {rounds : Nat} : ∀ {l : Locals} {w : World}, Knows l w → l.status = .ok →
    Learns program Ends (watch rounds l) w := by
  induction rounds with
  | zero =>
    intro l w _ _ l' w' hrun
    cases hrun.1
  | succ rounds ih =>
    intro l w h hok
    refine Learns.ask h (by simp [Aside]) fun now v hv => ?_
    refine Learns.ask hv (by simp [Aside]) fun kids v hv => ?_
    dsimp only
    have hkids : Knows { l with owned := union l.owned kids } v :=
      hv.of_locals ⟨rfl, rfl, rfl, rfl, id⟩
    by_cases hlate : l.deadline ≤ now
    · rw [if_pos hlate]
      refine Learns.ask hkids (by simp [Aside]) fun code v hv => ?_
      by_cases hrunning : code.isNone = true
      · rw [if_pos hrunning]
        refine Learns.ask hv (by simp [Aside]) fun _ v hv => ?_
        exact Learns.ret (hv.fail (by decide) _)
          (.of_status ((hkids.room hok []).of_counts (count_fail _ _ _)) (by simp [Locals.fail]))
      · rw [if_neg hrunning]
        exact round_learns hv hok fun l' v hv hok' => ih hv hok'
    · rw [if_neg hlate]
      exact round_learns hkids hok fun l' v hv hok' => ih hv hok'

/-! ## The result -/

/-- What a return code tells of the candidate. -/
structure Told (code : Option Int) (w : World) : Prop where
  success : code = some 0 → exitOf w.trace = some 0
  signal : ∀ c, code = some c → -64 ≤ c
  status : ∀ c, code = some c → c ≤ 255

theorem Told.none : Told .none w := by
  refine ⟨fun h => ?_, fun _ h => ?_, fun _ h => ?_⟩ <;> cases h

theorem exitOf_range {trace : List Action} {c : Int} (h : exitOf trace = some c) :
    -64 ≤ c ∧ c ≤ 255 := by
  obtain ⟨a, -, ha⟩ := List.exists_of_findSome?_eq_some h
  cases a with
  | exit code =>
    rw [Option.some.injEq] at ha
    exact ha ▸ ⟨code.signal, code.status⟩
  | _ => cases ha

theorem World.shows.told {code : Option Int} (h : w.shows code) : Told code w := by
  rcases h with hexit | ⟨-, -, hterm | hkill⟩
  · refine ⟨fun hc => hexit ▸ hc, ?_, ?_⟩
    · intro c hc
      exact (exitOf_range (hexit ▸ hc)).1
    · intro c hc
      exact (exitOf_range (hexit ▸ hc)).2
  · rw [hterm]
    refine ⟨fun hc => absurd hc (by decide), ?_, ?_⟩
    all_goals
      intro c hc
      rw [Option.some.injEq] at hc
      omega
  · rw [hkill]
    refine ⟨fun hc => absurd hc (by decide), ?_, ?_⟩
    all_goals
      intro c hc
      rw [Option.some.injEq] at hc
      omega

/-- What the result tells of the candidate. -/
structure Judged (r : RunResult) (w : World) : Prop where
  stdoutTail : r.stdoutTail = decodeReplace (tailOf (w.carried .stdout)).bytes
  stderrTail : r.stderrTail = decodeReplace (tailOf (w.carried .stderr)).bytes
  stdoutBytes : r.stdoutBytes ≤ maxOutputBytes + 4096
  stderrBytes : r.stderrBytes ≤ maxOutputBytes + 4096
  signal : ∀ c, r.returncode = some c → -64 ≤ c
  exitStatus : ∀ c, r.returncode = some c → c ≤ 255
  exited : r.status = .ok → exitOf w.trace = some 0
  marked : r.status = .ok →
    ∃ done, done <+: w.trace ∧ written .completion done = completionMarker
  whole : r.status = .ok → w.carried .stdout = written .stdout w.trace ∧
    w.carried .stderr = written .stderr w.trace
  bounded : r.status = .ok → (written .stdout w.trace).length ≤ maxOutputBytes ∧
    (written .stderr w.trace).length ≤ maxOutputBytes

theorem Knows.judged_of_bad {code : Option Int} (h : Knows l w) (hroom : Room [] l)
    (hcode : ∃ v, Told code v) (hbad : l.status ≠ .ok) : Judged (l.result code) w := by
  obtain ⟨v, hcode⟩ := hcode
  refine ⟨?_, ?_, hroom .stdout, hroom .stderr, hcode.signal, hcode.status,
    fun hok => absurd hok hbad, fun hok => absurd hok hbad, fun hok => absurd hok hbad,
    fun hok => absurd hok hbad⟩
  · rw [← h.stdout]
    rfl
  · rw [← h.stderr]
    rfl

/-- All of a stream was read whose end was seen. -/
theorem Knows.carried_of_ended {s : Stream} (h : Knows l w) (hs : s ∈ w.ended) :
    w.carried s = written s w.trace := by
  rw [World.carried, h.spent s hs, List.take_length]

theorem judge_status_ok {code : Option Int} (h : (l.judge code).status = .ok) :
    l.status = .ok ∧ code = some 0 ∧ l.completion = completionMarker ∧ l.judge code = l := by
  unfold Locals.judge at h ⊢
  by_cases hok : l.status ≠ .ok
  · rw [if_pos hok] at h
    exact absurd h hok
  · rw [if_neg hok] at h ⊢
    rw [ne_eq, not_not] at hok
    by_cases hcode : code ≠ some 0
    · rw [if_pos hcode] at h
      unfold Locals.fail at h
      dsimp only at h
      split at h <;> cases h
    · rw [if_neg hcode] at h ⊢
      rw [ne_eq, not_not] at hcode
      by_cases hmark : l.completion ≠ completionMarker
      · rw [if_pos hmark] at h
        cases h
      · rw [if_neg hmark]
        rw [ne_eq, not_not] at hmark
        exact ⟨hok, hcode, hmark, rfl⟩

theorem judge_same {code : Option Int} : SameStreams l (l.judge code) := by
  have hfail : ∀ status reason, status ≠ .ok → SameStreams l (l.fail status reason) :=
    fun status reason hs => ⟨rfl, rfl, rfl, rfl, fun hok => absurd hok hs⟩
  unfold Locals.judge
  split
  · exact ⟨rfl, rfl, rfl, rfl, id⟩
  · split
    · refine hfail _ _ ?_
      split <;> decide
    · split
      · exact hfail _ _ (by decide)
      · exact ⟨rfl, rfl, rfl, rfl, id⟩

theorem judge_count (code : Option Int) (s : Stream) : (l.judge code).count s = l.count s := by
  unfold Locals.judge
  split_ifs <;> cases s <;> rfl

/-- The end of a run whose loop raised nothing. -/
theorem Knows.judged {code : Option Int} (h : Knows l w) (hends : Ends l)
    (hfault : l.fault = none) (hcode : Told code w) : Judged ((l.judge code).result code) w := by
  have hroom : Room [] (l.judge code) := by
    intro s
    rw [judge_count]
    exact hends.room s
  by_cases hok : (l.judge code).status = .ok
  · obtain ⟨hstatus, hzero, hmark, hsame⟩ := judge_status_ok hok
    obtain ⟨hout, herr⟩ := hends.seen hstatus hfault
    obtain ⟨hcountOut, hcountErr⟩ := h.quiet hstatus
    have hwholeOut := h.carried_of_ended (h.gone _ hout)
    have hwholeErr := h.carried_of_ended (h.gone _ herr)
    rw [h.stdout, hwholeOut] at hcountOut
    rw [h.stderr, hwholeErr] at hcountErr
    refine ⟨?_, ?_, hroom .stdout, hroom .stderr, hcode.signal, hcode.status,
      fun _ => hcode.success hzero, fun _ => h.marked hmark, fun _ => ⟨hwholeOut, hwholeErr⟩,
      fun _ => ⟨hcountOut, hcountErr⟩⟩
    · rw [hsame, ← h.stdout]
      rfl
    · rw [hsame, ← h.stderr]
      rfl
  · exact (h.of_locals judge_same).judged_of_bad hroom ⟨w, hcode⟩ hok

theorem awaitExit_knows {code : Option Int} (h : Knows l w)
    (hrun : Run (sandbox program) (awaitExit l) w (.value code) w') :
    Knows l w' ∧ Told code w' := by
  obtain ⟨acts, first, hacts, hanswer, hrun⟩ := run_ask_bind.mp hrun
  have hknows : Knows l (w.act acts) := h.act hacts
  cases first with
  | some c =>
    obtain ⟨hc, rfl⟩ := hrun
    rw [Outcome.value.injEq] at hc
    subst hc
    exact ⟨hknows, World.shows.told hanswer⟩
  | none =>
    obtain ⟨acts, second, hacts, hanswer, hrun⟩ := run_ask_bind.mp hrun
    replace hknows := hknows.act hacts
    cases second with
    | some c =>
      obtain ⟨hc, rfl⟩ := hrun
      rw [Outcome.value.injEq] at hc
      subst hc
      exact ⟨hknows, World.shows.told (hanswer.resolve_left (by simp))⟩
    | none =>
      obtain ⟨acts, _, hacts, -, hrun⟩ := run_ask_bind.mp hrun
      replace hknows := hknows.aside (a := ()) hacts (by simp [Aside] : Aside (.terminate l.owned))
      obtain ⟨acts, third, hacts, hanswer, hc, rfl⟩ := run_ask.mp hrun
      rw [Outcome.value.injEq] at hc
      subst hc
      exact ⟨hknows.act hacts, World.shows.told hanswer⟩

theorem blame_judged {e : Exc} {code : Option Int} {r : RunResult} (h : Knows l w)
    (hroom : Room [] l) (hcode : ∃ v, Told code v)
    (hrun : Run (sandbox program) (blame l e code) w (.value r) w') : Judged r w' := by
  unfold blame at hrun
  split at hrun
  · obtain ⟨hr, rfl⟩ := hrun
    rw [Outcome.value.injEq] at hr
    rw [hr]
    have hbad : Knows { l with
        status := .graderError, reason := "candidate supervisor error: " ++ e.kind } w' :=
      h.of_locals ⟨rfl, rfl, rfl, rfl, fun hok => by cases hok⟩
    exact hbad.judged_of_bad (hroom.of_counts fun s => by cases s <;> rfl) hcode (by simp)
  · cases hrun.1

theorem room_start (deadline : ℚ) : Room [] (Locals.start deadline) := by
  intro s
  cases s <;> exact Nat.zero_le _

/-- The driver has read nothing yet. -/
def Fresh (w : World) : Prop := ∀ deadline, Knows (Locals.start deadline) w

theorem Fresh.ask {op : Op} {a : Ans op} (h : Fresh w) (hop : Aside op)
    (hrun : Run (sandbox program) (ask op) w (.value a) w') : Fresh w' := by
  obtain ⟨acts, b, hacts, -, -, rfl⟩ := run_ask.mp hrun
  exact fun deadline => (h deadline).aside hacts hop

theorem supervise_learns {timeout : ℚ} {rounds : Nat} (h : Fresh w) :
    Learns program Ends (supervise timeout rounds) w := by
  intro l' w' hrun
  obtain ⟨registered, v, hv, hrun⟩ := run_bind_value.mp hrun
  have hfresh := h.ask (by simp [Aside]) hv
  cases registered with
  | error e =>
    have hfault : Knows { Locals.start timeout with fault := some e } v :=
      (hfresh timeout).of_locals ⟨rfl, rfl, rfl, rfl, id⟩
    refine Learns.ret hfault ⟨(room_start timeout).of_counts fun s => by cases s <;> rfl, ?_⟩ l' w'
      hrun
    intro _ hnone
    cases hnone
  | ok u =>
    obtain ⟨start, v', hv', hrun⟩ := run_bind_value.mp hrun
    exact watch_learns (hfresh.ask (by simp [Aside]) hv' _) rfl l' w' hrun

theorem run_attempt_value {α : Type} {x : DriverM (Except Exc α)} {a : α} :
    Run (sandbox program) (attempt x) w (.value a) w' ↔
      Run (sandbox program) x w (.value (.ok a)) w' := by
  rw [attempt, run_bind_value]
  constructor
  · rintro ⟨r, v, hx, h⟩
    obtain ⟨rfl, rfl⟩ := run_ofExcept_value.mp h
    exact hx
  · intro h
    exact ⟨.ok a, w', h, run_ofExcept_value.mpr ⟨rfl, rfl⟩⟩

/-- What every run of a candidate comes to. -/
theorem runCandidate_judged {interp : Interp} {candidate : Str} {reference : Value} {timeout : ℚ}
    {rounds : Nat} {r : RunResult}
    (hrun : Run (sandbox program) (runCandidate interp candidate reference timeout rounds)
      World.start (.value r) w') : Judged r w' := by
  obtain ⟨descriptor, v, hv, hrun⟩ := run_bind_value.mp hrun
  have hfresh : Fresh v := Fresh.ask knows_start (by simp [Aside]) (run_attempt_value.mp hv)
  obtain ⟨_, v', hv', hrun⟩ := run_bind_value.mp hrun
  replace hfresh := hfresh.ask (by simp [Aside]) (run_attempt_value.mp hv')
  obtain ⟨launched, u, hu, hrun⟩ := run_bind_value.mp hrun
  replace hfresh := hfresh.ask (by simp [Aside]) hu
  cases launched with
  | error e =>
    exact blame_judged (hfresh timeout) (room_start timeout) ⟨World.start, .none⟩ hrun
  | ok _ =>
    obtain ⟨l, u', hu', hrun⟩ := run_bind_value.mp hrun
    obtain ⟨hknows, hends⟩ := supervise_learns hfresh l u' hu'
    split at hrun
    · next e _ =>
      obtain ⟨acts, _, hacts, -, hrun⟩ := run_ask_bind.mp hrun
      replace hknows := hknows.aside (a := ()) hacts (by simp [Aside] : Aside (.terminate l.owned))
      obtain ⟨acts, code, hacts, hcode, hrun⟩ := run_ask_bind.mp hrun
      exact blame_judged (hknows.act hacts) hends.room ⟨_, World.shows.told hcode⟩ hrun
    · next hfault =>
      obtain ⟨code, x, hx, hrun⟩ := run_bind_value.mp hrun
      obtain ⟨hknows', hexit⟩ := awaitExit_knows hknows hx
      obtain ⟨hr, rfl⟩ := hrun
      rw [Outcome.value.injEq] at hr
      exact hr ▸ hknows'.judged hends hfault hexit

end

end Sandbox
end FlashNext
