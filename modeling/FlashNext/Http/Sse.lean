import FlashNext.Py.Value
import FlashNext.Text.Utf8

/-!
# The event decoder

`SSEDecoder` cuts the bytes it is fed into lines, decodes each line and closes an event at
every blank line.  A line ends in LF, CRLF or CR; a CR that is the last byte so far is held
back, since an LF may follow.

What has been fed leaves in the buffer nothing that ends a line, so feeding more bytes goes on
where feeding stopped (`feed_append`), and how the bytes were cut cannot matter
(`feedAll_eq_feed`).
-/

namespace FlashNext
namespace Http

open Text Py

def lineFeed : UInt8 := 10
def carriageReturn : UInt8 := 13

/-- The first LF ends a line. -/
def lfCandidate (buf : Bytes) : Option (Nat × Nat) :=
  (buf.findIdx? (· == lineFeed)).map fun i => (i, i + 1)

/-- The first CR ends a line, with an LF right after it, unless it is the last byte. -/
def crCandidate (buf : Bytes) : Option (Nat × Nat) :=
  (buf.findIdx? (· == carriageReturn)).bind fun i =>
    if i + 1 < buf.length then
      some (i, if buf[i + 1]? = some lineFeed then i + 2 else i + 1)
    else none

/-- `_find_newline`: where the first line ends, and where the next one begins. -/
def findNewline (buf : Bytes) : Option (Nat × Nat) :=
  match lfCandidate buf, crCandidate buf with
  | none, none => none
  | some a, none => some a
  | none, some b => some b
  | some a, some b => some (if a.1 < b.1 then a else b)

/-- `SSEDecoder`.  `pending` is what the incremental UTF-8 decoder holds. -/
structure Decoder where
  buf : Bytes
  pending : Bytes
  lines : List Str
  deriving DecidableEq

def Decoder.new : Decoder := ⟨[], [], []⟩

/-- `line[5:].lstrip(" ")` for a line that starts with `data:`. -/
def dataOf (line : Str) : Option Str :=
  if (str "data:").isPrefixOf line then some ((line.drop 5).dropWhile (· == 32)) else none

/-- `"\n".join(lines)`. -/
def joinLines : List Str → Str
  | [] => []
  | [line] => line
  | line :: rest => line ++ 10 :: joinLines rest

/-- The payload of an event with these lines; an event without data has none. -/
def payloadOf (lines : List Str) : Option Str :=
  match lines.filterMap dataOf with
  | [] => none
  | data => some (joinLines data)

/-! ## The end of a line -/

section FindNewline

variable {buf more : Bytes} {stop next : Nat}

theorem findIdx?_append_some {p : UInt8 → Bool} {i : Nat} (h : buf.findIdx? p = some i) :
    (buf ++ more).findIdx? p = some i := by
  rw [List.findIdx?_append, h]
  rfl

theorem findIdx?_append_none {p : UInt8 → Bool} {i : Nat} (h : buf.findIdx? p = none)
    (hmore : (buf ++ more).findIdx? p = some i) : buf.length ≤ i := by
  rw [List.findIdx?_append, h] at hmore
  obtain ⟨j, -, rfl⟩ := Option.map_eq_some_iff.mp hmore
  exact Nat.le_add_left _ _

theorem getElem?_of_findIdx? {c : UInt8} {i : Nat} (h : buf.findIdx? (· == c) = some i) :
    buf[i]? = some c := by
  obtain ⟨hi, hc, -⟩ := List.findIdx?_eq_some_iff_getElem.mp h
  rw [List.getElem?_eq_getElem hi, eq_of_beq hc]

theorem lfCandidate_eq (h : lfCandidate buf = some (stop, next)) :
    buf.findIdx? (· == lineFeed) = some stop ∧ next = stop + 1 := by
  obtain ⟨i, hi, he⟩ := Option.map_eq_some_iff.mp h
  rw [Prod.mk.injEq] at he
  obtain ⟨rfl, rfl⟩ := he
  exact ⟨hi, rfl⟩

theorem crCandidate_eq (h : crCandidate buf = some (stop, next)) :
    buf.findIdx? (· == carriageReturn) = some stop ∧ stop + 1 < buf.length ∧
      next = if buf[stop + 1]? = some lineFeed then stop + 2 else stop + 1 := by
  obtain ⟨i, hi, he⟩ := Option.bind_eq_some_iff.mp h
  split at he
  · next hlt =>
    rw [Option.some.injEq, Prod.mk.injEq] at he
    obtain ⟨rfl, rfl⟩ := he
    exact ⟨hi, hlt, rfl⟩
  · cases he

theorem lfCandidate_bounds (h : lfCandidate buf = some (stop, next)) :
    stop < next ∧ next ≤ buf.length := by
  obtain ⟨hi, rfl⟩ := lfCandidate_eq h
  exact ⟨Nat.lt_succ_self _, (List.findIdx?_eq_some_iff_findIdx_eq.mp hi).1⟩

theorem crCandidate_bounds (h : crCandidate buf = some (stop, next)) :
    stop < next ∧ next ≤ buf.length := by
  obtain ⟨-, hlt, rfl⟩ := crCandidate_eq h
  split <;> omega

theorem findNewline_bounds (h : findNewline buf = some (stop, next)) :
    stop < next ∧ next ≤ buf.length := by
  unfold findNewline at h
  split at h
  · cases h
  · next a ha hb => exact lfCandidate_bounds (ha.trans h)
  · next b ha hb => exact crCandidate_bounds (hb.trans h)
  · next a b ha hb =>
    split at h
    · exact lfCandidate_bounds (ha.trans h)
    · exact crCandidate_bounds (hb.trans h)

theorem lfCandidate_append (h : lfCandidate buf = some (stop, next)) :
    lfCandidate (buf ++ more) = some (stop, next) := by
  obtain ⟨hi, rfl⟩ := lfCandidate_eq h
  rw [lfCandidate, findIdx?_append_some hi]
  rfl

theorem crCandidate_append (h : crCandidate buf = some (stop, next)) :
    crCandidate (buf ++ more) = some (stop, next) := by
  obtain ⟨hi, hlt, rfl⟩ := crCandidate_eq h
  have hlt' : stop + 1 < (buf ++ more).length := by
    rw [List.length_append]
    omega
  rw [crCandidate, findIdx?_append_some hi, Option.bind_some, if_pos hlt',
    List.getElem?_append_left hlt]

/-- A CR that more bytes settle was held back or comes after all bytes. -/
theorem crCandidate_append_none {a : Nat × Nat} (h : crCandidate buf = none)
    (hmore : crCandidate (buf ++ more) = some a) : buf.length ≤ a.1 + 1 := by
  obtain ⟨stop, next⟩ := a
  obtain ⟨hi, -, -⟩ := crCandidate_eq hmore
  cases hb : buf.findIdx? (· == carriageReturn) with
  | none => exact Nat.le_succ_of_le (findIdx?_append_none hb hi)
  | some j =>
    rw [findIdx?_append_some hb, Option.some.injEq] at hi
    subst hi
    rw [crCandidate, hb, Option.bind_some] at h
    split at h
    · cases h
    · next hlt => exact Nat.le_of_not_lt hlt

/-- More bytes do not move the end of a line that has ended. -/
theorem findNewline_append (h : findNewline buf = some (stop, next)) :
    findNewline (buf ++ more) = some (stop, next) := by
  unfold findNewline at h
  split at h
  · cases h
  · next a ha hb =>
    rw [Option.some.injEq] at h
    subst h
    rw [findNewline, lfCandidate_append ha]
    cases hcr : crCandidate (buf ++ more) with
    | none => rfl
    | some b =>
      obtain ⟨hlf, -⟩ := lfCandidate_eq ha
      have hstop := (List.findIdx?_eq_some_iff_findIdx_eq.mp hlf).1
      have hle := crCandidate_append_none hb hcr
      obtain ⟨hcr', -⟩ := crCandidate_eq hcr
      have hne : b.1 ≠ stop := by
        rintro rfl
        have h₁ := getElem?_of_findIdx? hcr'
        rw [List.getElem?_append_left hstop, getElem?_of_findIdx? hlf] at h₁
        exact absurd h₁ (by decide)
      have hlt : stop < b.1 := by omega
      show some (if stop < b.1 then _ else b) = _
      rw [if_pos hlt]
  · next b ha hb =>
    rw [Option.some.injEq] at h
    subst h
    rw [findNewline, crCandidate_append hb]
    cases hlf : lfCandidate (buf ++ more) with
    | none => rfl
    | some a =>
      obtain ⟨hlf', -⟩ := lfCandidate_eq hlf
      have hle := findIdx?_append_none (Option.map_eq_none_iff.mp ha) hlf'
      obtain ⟨-, hlt, -⟩ := crCandidate_eq hb
      have hnot : ¬ a.1 < stop := by omega
      show some (if a.1 < stop then a else _) = _
      rw [if_neg hnot]
  · next a b ha hb =>
    rw [findNewline, lfCandidate_append ha, crCandidate_append hb]
    exact h

end FindNewline

/-! ## Feeding -/

namespace Decoder

/-- A decoded line joins its event, and a blank one ends it. -/
def addLine (d : Decoder) (line : Str) : Decoder × List Str :=
  if line = [] then ({ d with lines := [] }, (payloadOf (d.lines ++ [line])).toList)
  else ({ d with lines := d.lines ++ [line] }, [])

@[simp] theorem addLine_buf (d : Decoder) (line : Str) : (d.addLine line).1.buf = d.buf := by
  unfold addLine
  split <;> rfl

theorem addLine_append (d : Decoder) (line : Str) (more : Bytes) :
    addLine { d with buf := d.buf ++ more } line =
      ({ (d.addLine line).1 with buf := (d.addLine line).1.buf ++ more }, (d.addLine line).2) := by
  unfold addLine
  split <;> rfl

/-- The loop of `feed`. -/
def drain (d : Decoder) (events : List Str) : Except Utf8Error (Decoder × List Str) :=
  match _h : findNewline d.buf with
  | none => .ok (d, events)
  | some (stop, next) =>
    match decodeUtf8 d.pending (d.buf.take stop) with
    | .error e => .error e
    | .ok (line, pending) =>
      let r := addLine { d with buf := d.buf.drop next, pending := pending } line
      drain r.1 (events ++ r.2)
termination_by d.buf.length
decreasing_by
  have hb := findNewline_bounds _h
  rw [addLine_buf, List.length_drop]
  omega

/-- `SSEDecoder.feed`. -/
def feed (d : Decoder) (chunk : Bytes) : Except Utf8Error (Decoder × List Str) :=
  drain { d with buf := d.buf ++ chunk } []

/-- The chunks one after the other, and all their events. -/
def feedAll (d : Decoder) : List Bytes → Except Utf8Error (Decoder × List Str)
  | [] => .ok (d, [])
  | chunk :: chunks => do
    let (d, events) ← d.feed chunk
    let (d, events') ← d.feedAll chunks
    return (d, events ++ events')

/-- `SSEDecoder.close`: the event that the end of the stream ends. -/
def close (d : Decoder) : Except Utf8Error (List Str) := do
  let (text, pending) ←
    if d.buf = [] then pure ([], d.pending)
    else do
      let text ← decodeUtf8Final d.pending d.buf
      pure (text, [])
  let tail ← decodeUtf8Final pending []
  let line := text ++ tail
  let lines :=
    if line = [] then d.lines
    else d.lines ++ [if line.getLast? = some 13 then line.dropLast else line]
  return (payloadOf lines).toList

variable {d d' : Decoder} {more : Bytes}

theorem drain_none {events : List Str} (h : findNewline d.buf = none) :
    d.drain events = .ok (d, events) := by
  rw [drain]
  split
  · rfl
  · next hsome =>
    rw [h] at hsome
    cases hsome

theorem drain_some {events : List Str} {stop next : Nat}
    (h : findNewline d.buf = some (stop, next)) :
    d.drain events = (decodeUtf8 d.pending (d.buf.take stop)).bind fun r =>
      let e := addLine { d with buf := d.buf.drop next, pending := r.2 } r.1
      e.1.drain (events ++ e.2) := by
  rw [drain]
  split
  · next hnone =>
    rw [h] at hnone
    cases hnone
  · next stop' next' hsome =>
    rw [h, Option.some.injEq, Prod.mk.injEq] at hsome
    obtain ⟨rfl, rfl⟩ := hsome
    cases decodeUtf8 d.pending (d.buf.take stop) <;> rfl

/-- More bytes in the buffer are drained after those that were there. -/
theorem drain_append (d : Decoder) (events : List Str) (more : Bytes) :
    drain { d with buf := d.buf ++ more } events =
      (d.drain events).bind fun r => drain { r.1 with buf := r.1.buf ++ more } r.2 := by
  induction d, events using drain.induct with
  | case1 d events hnone =>
    rw [drain_none hnone]
    rfl
  | case2 d events stop next hsome e herror =>
    have hb := findNewline_bounds hsome
    rw [drain_some (findNewline_append hsome), drain_some hsome]
    simp only
    rw [List.take_append_of_le_length (by omega), herror]
    rfl
  | case3 d events stop next hsome line pending hdecode r ih =>
    have hb := findNewline_bounds hsome
    rw [drain_some (findNewline_append hsome), drain_some hsome]
    simp only
    rw [List.take_append_of_le_length (by omega), hdecode,
      List.drop_append_of_le_length (by omega)]
    have hcomm : addLine { d with buf := d.buf.drop next ++ more, pending := pending } line =
        ({ r.1 with buf := r.1.buf ++ more }, r.2) :=
      addLine_append { d with buf := d.buf.drop next, pending := pending } line more
    show drain (addLine _ line).1 (events ++ (addLine _ line).2) = _
    rw [hcomm]
    exact ih

theorem drain_rest {events : List Str} {r : Decoder × List Str} (h : d.drain events = .ok r) :
    findNewline r.1.buf = none := by
  induction d, events using drain.induct with
  | case1 d events hnone =>
    rw [drain_none hnone, Except.ok.injEq] at h
    rw [← h]
    exact hnone
  | case2 d events stop next hsome e herror =>
    rw [drain_some hsome, herror] at h
    cases h
  | case3 d events stop next hsome line pending hdecode e ih =>
    rw [drain_some hsome, hdecode] at h
    exact ih h

/-- The events that are there stay in front. -/
theorem drain_prepend (d : Decoder) (front events : List Str) :
    d.drain (front ++ events) = (d.drain events).map fun r => (r.1, front ++ r.2) := by
  induction d, events using drain.induct with
  | case1 d events hnone =>
    rw [drain_none hnone, drain_none hnone]
    rfl
  | case2 d events stop next hsome e herror =>
    rw [drain_some hsome, drain_some hsome, herror]
    rfl
  | case3 d events stop next hsome line pending hdecode e ih =>
    rw [drain_some hsome, drain_some hsome, hdecode]
    show drain e.1 (front ++ events ++ e.2) = _
    rw [List.append_assoc]
    exact ih

/-- Nothing in the buffer ends a line. -/
def Drained (d : Decoder) : Prop := findNewline d.buf = none

theorem drained_new : Decoder.new.Drained := rfl

theorem feed_drained {chunk : Bytes} {r : Decoder × List Str} (h : d.feed chunk = .ok r) :
    r.1.Drained :=
  drain_rest h

theorem feed_nil (h : d.Drained) : d.feed [] = .ok (d, []) := by
  have hbuf : ({ d with buf := d.buf ++ [] } : Decoder) = d := by
    rw [List.append_nil]
  rw [feed, hbuf]
  exact drain_none h

/-- A chunk in two pieces. -/
theorem feed_append (d : Decoder) (first second : Bytes) :
    d.feed (first ++ second) = (do
      let (d, events) ← d.feed first
      let (d, events') ← d.feed second
      return (d, events ++ events')) := by
  have hbuf : ({ d with buf := d.buf ++ (first ++ second) } : Decoder) =
      { ({ d with buf := d.buf ++ first } : Decoder) with
        buf := ({ d with buf := d.buf ++ first } : Decoder).buf ++ second } := by
    rw [← List.append_assoc]
  rw [feed, hbuf, drain_append, feed]
  cases drain { d with buf := d.buf ++ first } [] with
  | error e => rfl
  | ok r =>
    show drain { r.1 with buf := r.1.buf ++ second } r.2 = _
    rw [← List.append_nil r.2, drain_prepend]
    show _ = (r.1.feed second).bind fun q => .ok (q.1, r.2 ++ q.2)
    rw [feed]
    cases drain { r.1 with buf := r.1.buf ++ second } [] <;> rfl

theorem feedAll_eq_feed_flatten (chunks : List Bytes) (h : d.Drained) :
    d.feedAll chunks = d.feed chunks.flatten := by
  induction chunks generalizing d with
  | nil => exact (feed_nil h).symm
  | cons chunk chunks ih =>
    rw [List.flatten_cons, feed_append, feedAll]
    cases hfeed : d.feed chunk with
    | error e => rfl
    | ok r =>
      show (r.1.feedAll chunks).bind _ = (r.1.feed chunks.flatten).bind _
      rw [ih (feed_drained hfeed)]

end Decoder

/-- The events of the chunks, the state they leave and the events that `close` adds. -/
def decodeChunks (chunks : List Bytes) :
    Except Utf8Error ((Decoder × List Str) × Except Utf8Error (List Str)) := do
  let r ← Decoder.new.feedAll chunks
  return (r, r.1.close)

/-- `feed` on the whole of the bytes, and `close`. -/
def decodeWhole (bytes : Bytes) :
    Except Utf8Error ((Decoder × List Str) × Except Utf8Error (List Str)) := do
  let r ← Decoder.new.feed bytes
  return (r, r.1.close)

/-- How the bytes are cut does not matter, not even whether a line is refused. -/
theorem decodeChunks_eq_decodeWhole (chunks : List Bytes) :
    decodeChunks chunks = decodeWhole chunks.flatten := by
  rw [decodeChunks, decodeWhole, Decoder.feedAll_eq_feed_flatten chunks Decoder.drained_new]

/-- A cut inside a character and one between CR and LF. -/
example : decodeChunks [[0x64, 0x61, 0x74, 0x61, 0x3a, 0xe4, 0xbd], [0xa0, 13], [10, 13], [10]] =
    .ok ((.new, [[0x4f60]]), .ok []) := by
  decide +kernel

end Http
end FlashNext
