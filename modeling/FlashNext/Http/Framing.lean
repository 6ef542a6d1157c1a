import FlashNext.Http.Sse
import FlashNext.Text.Utf8Encode

/-!
# Framing

`frame` writes events the way a server does, with comments and other fields among the data lines,
and `decode_frame` says that the decoder reads the payloads back, however the bytes are cut.
-/

namespace FlashNext
namespace Http

open Text Py

/-- What a server ends its lines with. -/
inductive Terminator where
  | lf
  | crlf
  | cr
  deriving DecidableEq

def Terminator.bytes : Terminator → Bytes
  | .lf => [lineFeed]
  | .crlf => [carriageReturn, lineFeed]
  | .cr => [carriageReturn]

/-- A line of an event: one of its payload's, or a comment or another field. -/
inductive EventLine where
  | data (line : Str)
  | noise (line : Str)

/-- `data: <line>`. -/
def EventLine.text : EventLine → Str
  | .data line => str "data: " ++ line
  | .noise line => line

def EventLine.data? : EventLine → Option Str
  | .data line => some line
  | .noise _ => none

/-- The text fits on one line and can be encoded. -/
def OneLine (line : Str) : Prop := ∀ c ∈ line, isScalar c = true ∧ c ≠ 10 ∧ c ≠ 13

/-- A data line does not start with a space, and another line is not blank and has no data. -/
def EventLine.Valid : EventLine → Prop
  | .data line => OneLine line ∧ line.head? ≠ some 32
  | .noise line => OneLine line ∧ line ≠ [] ∧ ¬ str "data:" <+: line

instance (line : Str) : Decidable (OneLine line) :=
  inferInstanceAs (Decidable (∀ c ∈ line, isScalar c = true ∧ c ≠ 10 ∧ c ≠ 13))

instance : (line : EventLine) → Decidable line.Valid
  | .data line => inferInstanceAs (Decidable (OneLine line ∧ line.head? ≠ some 32))
  | .noise line => inferInstanceAs (Decidable (OneLine line ∧ line ≠ [] ∧ ¬ str "data:" <+: line))

/-- All lines of a stream.  A blank line ends an event, and nothing ends the last lines. -/
def framedLines (events : List (List EventLine)) (trailing : List EventLine) : List Str :=
  events.flatMap (fun event => event.map EventLine.text ++ [[]]) ++ trailing.map EventLine.text

def encodeLines (t : Terminator) (lines : List Str) : Bytes :=
  lines.flatMap fun line => encodeUtf8 line ++ t.bytes

def frame (t : Terminator) (events : List (List EventLine)) (trailing : List EventLine) : Bytes :=
  encodeLines t (framedLines events trailing)

/-- The payloads of the events that have data, each as its lines. -/
def payloads (events : List (List EventLine)) : List (List Str) :=
  (events.map fun event => event.filterMap EventLine.data?).filter (· ≠ [])

/-! ## One line -/

theorem notMem_encodeUtf8 {line : Str} (h : OneLine line) :
    lineFeed ∉ encodeUtf8 line ∧ carriageReturn ∉ encodeUtf8 line := by
  have hscalar : ∀ c ∈ line, isScalar c = true := fun c hc => (h c hc).1
  constructor
  · intro hmem
    have hc := mem_encodeUtf8 (by decide) hscalar hmem
    exact (h _ hc).2.1 rfl
  · intro hmem
    have hc := mem_encodeUtf8 (by decide) hscalar hmem
    exact (h _ hc).2.2 rfl

theorem findIdx?_front {front rest : Bytes} {b c : UInt8} (h : c ∉ front) :
    (front ++ b :: rest).findIdx? (· == c) =
      if b = c then some front.length
      else (rest.findIdx? (· == c)).map (· + (front.length + 1)) := by
  have hnone : front.findIdx? (· == c) = none := by
    rw [List.findIdx?_eq_none_iff]
    intro x hx
    rw [beq_eq_false_iff_ne]
    exact fun he => h (he ▸ hx)
  rw [List.findIdx?_append, hnone, Option.none_or, List.findIdx?_cons]
  by_cases hb : b = c
  · rw [if_pos (beq_iff_eq.mpr hb), if_pos hb, Option.map_some, Nat.zero_add]
  · rw [if_neg (by rwa [beq_iff_eq]), if_neg hb, Option.map_map]
    congr 1
    funext i
    simp only [Function.comp_apply]
    omega

/-- What follows the terminator shows that it is complete. -/
def Settles (t : Terminator) (rest : Bytes) : Prop :=
  t = .cr → ∃ b, rest.head? = some b ∧ b ≠ lineFeed

theorem findNewline_line {t : Terminator} {front rest : Bytes} (hlf : lineFeed ∉ front)
    (hcr : carriageReturn ∉ front) (hsettles : Settles t rest) :
    findNewline (front ++ (t.bytes ++ rest)) =
      some (front.length, front.length + t.bytes.length) := by
  cases t with
  | lf =>
    show findNewline (front ++ lineFeed :: rest) = some (front.length, front.length + 1)
    have hlfIdx : lfCandidate (front ++ lineFeed :: rest) = some (front.length, front.length + 1) := by
      rw [lfCandidate, findIdx?_front hlf, if_pos rfl]
      rfl
    rw [findNewline, hlfIdx]
    cases hcand : crCandidate (front ++ lineFeed :: rest) with
    | none => rfl
    | some b =>
      have hlater : front.length < b.1 := by
        obtain ⟨hidx, -⟩ := crCandidate_eq hcand
        rw [findIdx?_front hcr, if_neg (by decide), Option.map_eq_some_iff] at hidx
        obtain ⟨j, -, hj⟩ := hidx
        omega
      show some (if front.length < b.1 then _ else b) = _
      rw [if_pos hlater]
  | crlf =>
    show findNewline (front ++ carriageReturn :: lineFeed :: rest) =
      some (front.length, front.length + 2)
    have hcrCand : crCandidate (front ++ carriageReturn :: lineFeed :: rest) =
        some (front.length, front.length + 2) := by
      have hnext : (front ++ carriageReturn :: lineFeed :: rest)[front.length + 1]? =
          some lineFeed := by
        rw [List.getElem?_append_right (Nat.le_add_right _ 1), Nat.add_sub_cancel_left]
        rfl
      rw [crCandidate, findIdx?_front hcr, if_pos rfl, Option.bind_some, if_pos, if_pos hnext]
      simp only [List.length_append, List.length_cons]
      omega
    have hlfCand : lfCandidate (front ++ carriageReturn :: lineFeed :: rest) =
        some (front.length + 1, front.length + 2) := by
      rw [lfCandidate, findIdx?_front hlf, if_neg (by decide), List.findIdx?_cons,
        if_pos (beq_self_eq_true _), Option.map_some, Option.map_some]
      simp only [Option.some.injEq, Prod.mk.injEq]
      omega
    rw [findNewline, hlfCand, hcrCand]
    show some (if front.length + 1 < front.length then _ else _) = _
    rw [if_neg (by omega)]
  | cr =>
    obtain ⟨b, hb, hne⟩ := hsettles rfl
    obtain ⟨rest', rfl⟩ : ∃ rest', rest = b :: rest' := List.head?_eq_some_iff.mp hb
    show findNewline (front ++ carriageReturn :: b :: rest') =
      some (front.length, front.length + 1)
    have hcrCand : crCandidate (front ++ carriageReturn :: b :: rest') =
        some (front.length, front.length + 1) := by
      have hnext : (front ++ carriageReturn :: b :: rest')[front.length + 1]? = some b := by
        rw [List.getElem?_append_right (Nat.le_add_right _ 1), Nat.add_sub_cancel_left]
        rfl
      rw [crCandidate, findIdx?_front hcr, if_pos rfl, Option.bind_some, if_pos, hnext,
        if_neg (by rwa [Option.some.injEq])]
      simp only [List.length_append, List.length_cons]
      omega
    rw [findNewline, hcrCand]
    cases hcand : lfCandidate (front ++ carriageReturn :: b :: rest') with
    | none => rfl
    | some a =>
      have hlater : front.length < a.1 := by
        obtain ⟨hidx, -⟩ := lfCandidate_eq hcand
        rw [findIdx?_front hlf, if_neg (by decide), Option.map_eq_some_iff] at hidx
        obtain ⟨j, -, hj⟩ := hidx
        omega
      show some (if a.1 < front.length then a else _) = _
      rw [if_neg (by omega)]

/-- A CR that ends the bytes is held back. -/
theorem findNewline_held {front : Bytes} (hlf : lineFeed ∉ front) (hcr : carriageReturn ∉ front) :
    findNewline (front ++ [carriageReturn]) = none := by
  have hlfCand : lfCandidate (front ++ [carriageReturn]) = none := by
    rw [lfCandidate, findIdx?_front hlf, if_neg (by decide)]
    rfl
  have hcrCand : crCandidate (front ++ [carriageReturn]) = none := by
    rw [crCandidate, findIdx?_front hcr, if_pos rfl, Option.bind_some, if_neg]
    simp
  rw [findNewline, hlfCand, hcrCand]

/-! ## The lines of a stream -/

/-- The events of the lines that follow those already read. -/
def absorb (read : List Str) : List Str → List Str
  | [] => (payloadOf read).toList
  | [] :: lines => (payloadOf (read ++ [[]])).toList ++ absorb [] lines
  | (c :: line) :: lines => absorb (read ++ [c :: line]) lines

/-- What is left to come from a decoder: the events of its bytes and those of `close`. -/
def Decoder.finish (d : Decoder) : Except Utf8Error (List Str) := do
  let (d, events) ← d.drain []
  let last ← d.close
  return events ++ last

theorem finish_held (read : List Str) {line : Str} (h : OneLine line) :
    Decoder.finish ⟨encodeUtf8 line ++ [carriageReturn], [], read⟩ =
      .ok (payloadOf (read ++ [line])).toList := by
  have hmem := notMem_encodeUtf8 h
  have hbytes : encodeUtf8 line ++ [carriageReturn] = encodeUtf8 (line ++ [13]) := by
    rw [encodeUtf8, encodeUtf8, List.flatMap_append]
    rfl
  have hscalar : ∀ c ∈ line ++ [13], isScalar c = true := by
    rw [List.forall_mem_append]
    exact ⟨fun c hc => (h c hc).1, by simp [isScalar, isSurrogate]⟩
  rw [Decoder.finish, Decoder.drain_none (findNewline_held hmem.1 hmem.2)]
  show (Decoder.close ⟨encodeUtf8 line ++ [carriageReturn], [], read⟩ >>= fun last =>
    pure ([] ++ last)) = _
  have hlast : (line ++ [13] : Str) ≠ [] := by simp
  rw [Decoder.close, if_neg (by simp), hbytes, decodeUtf8Final_encodeUtf8 hscalar]
  show Except.ok ([] ++ (payloadOf (if line ++ [13] ++ [] = [] then read
    else read ++ [if (line ++ [13] ++ [] : Str).getLast? = some 13 then
      (line ++ [13] ++ [] : Str).dropLast else line ++ [13] ++ []])).toList) = _
  rw [List.append_nil, if_neg hlast, List.getLast?_concat, if_pos rfl, List.dropLast_concat,
    List.nil_append]

theorem finish_nil (read : List Str) :
    Decoder.finish ⟨[], [], read⟩ = .ok (payloadOf read).toList := by
  rw [Decoder.finish, Decoder.drain_none (by rfl)]
  rfl

/-- A line with its terminator is read, and the rest comes after it. -/
theorem finish_line {t : Terminator} (read : List Str) {line : Str} (h : OneLine line)
    {rest : Bytes} (hsettles : Settles t rest) :
    Decoder.finish ⟨encodeUtf8 line ++ (t.bytes ++ rest), [], read⟩ =
      (Decoder.finish (Decoder.addLine ⟨rest, [], read⟩ line).1).map fun events =>
        (Decoder.addLine ⟨rest, [], read⟩ line).2 ++ events := by
  have hmem := notMem_encodeUtf8 h
  have hnewline := findNewline_line hmem.1 hmem.2 hsettles
  have htake : (encodeUtf8 line ++ (t.bytes ++ rest)).take (encodeUtf8 line).length =
      encodeUtf8 line := List.take_left
  have hdrop : (encodeUtf8 line ++ (t.bytes ++ rest)).drop
      ((encodeUtf8 line).length + t.bytes.length) = rest := by
    rw [← List.append_assoc, ← List.length_append]
    exact List.drop_left
  have hscalar : ∀ c ∈ line, isScalar c = true := fun c hc => (h c hc).1
  generalize hr : Decoder.addLine ⟨rest, [], read⟩ line = r
  rw [Decoder.finish, Decoder.drain_some hnewline]
  show ((decodeUtf8 [] _).bind _ >>= _) = _
  rw [htake, hdrop, decodeUtf8_encodeUtf8 hscalar]
  show (Decoder.drain (Decoder.addLine ⟨rest, [], read⟩ line).1
    ([] ++ (Decoder.addLine ⟨rest, [], read⟩ line).2) >>= _) = _
  rw [hr, List.nil_append, ← List.append_nil r.2, Decoder.drain_prepend, Decoder.finish,
    List.append_nil]
  cases Decoder.drain r.1 [] with
  | error e => rfl
  | ok q =>
    show (q.1.close >>= fun last => pure (r.2 ++ q.2 ++ last)) =
      Except.map _ (q.1.close >>= fun last => pure (q.2 ++ last))
    cases q.1.close with
    | error e => rfl
    | ok last => exact congrArg Except.ok (List.append_assoc _ _ _)

/-- The first byte of a further line shows that a CR before it is not half of a CRLF. -/
theorem settles_encodeLines (t : Terminator) {line : Str} (h : OneLine line) (lines : List Str) :
    Settles t (encodeLines t (line :: lines)) := by
  intro ht
  subst ht
  rw [encodeLines, List.flatMap_cons]
  cases hbytes : encodeUtf8 line with
  | nil => exact ⟨carriageReturn, rfl, by decide⟩
  | cons b bs =>
    refine ⟨b, rfl, fun hb => (notMem_encodeUtf8 h).1 ?_⟩
    rw [hbytes, ← hb]
    exact List.mem_cons_self

theorem finish_encodeLines (t : Terminator) (read : List Str) {lines : List Str}
    (h : ∀ line ∈ lines, OneLine line) :
    Decoder.finish ⟨encodeLines t lines, [], read⟩ = .ok (absorb read lines) := by
  induction lines generalizing read with
  | nil => exact finish_nil read
  | cons line lines ih =>
    obtain ⟨hline, hlines⟩ := List.forall_mem_cons.mp h
    by_cases hheld : t = .cr ∧ lines = []
    · -- the last CR is only settled by `close`
      obtain ⟨rfl, rfl⟩ := hheld
      show Decoder.finish ⟨encodeUtf8 line ++ [carriageReturn] ++ [], [], read⟩ = _
      rw [List.append_nil, finish_held read hline]
      cases line with
      | nil => exact congrArg Except.ok (List.append_nil _).symm
      | cons c line => rfl
    · have hsettles : Settles t (encodeLines t lines) := by
        cases lines with
        | nil => exact fun ht => absurd ⟨ht, rfl⟩ hheld
        | cons next lines => exact settles_encodeLines t (hlines _ List.mem_cons_self) lines
      rw [encodeLines, List.flatMap_cons, List.append_assoc, ← encodeLines,
        finish_line read hline hsettles]
      cases line with
      | nil =>
        show (Decoder.finish ⟨encodeLines t lines, [], []⟩).map _ = _
        rw [ih [] hlines]
        rfl
      | cons c line =>
        show (Decoder.finish ⟨encodeLines t lines, [], read ++ [c :: line]⟩).map _ = _
        rw [ih _ hlines]
        rfl

/-! ## The payloads of the lines -/

theorem dataOf_text {line : EventLine} (h : line.Valid) : dataOf line.text = line.data? := by
  cases line with
  | data line =>
    have hdrop : (32 :: line).dropWhile (· == 32) = line := by
      rw [List.dropWhile_cons, if_pos (beq_self_eq_true _)]
      cases line with
      | nil => rfl
      | cons c line =>
        have hne : ¬ ((c == 32) = true) := by
          rw [beq_iff_eq]
          exact fun hc => h.2 (congrArg some hc)
        rw [List.dropWhile_cons, if_neg hne]
    show dataOf (str "data: " ++ line) = some line
    rw [dataOf, if_pos (by rw [List.isPrefixOf_iff_prefix]; exact ⟨32 :: line, rfl⟩)]
    exact congrArg some hdrop
  | noise line =>
    show dataOf line = none
    rw [dataOf, if_neg (by rw [List.isPrefixOf_iff_prefix]; exact h.2.2)]

theorem filterMap_dataOf {event : List EventLine} (h : ∀ line ∈ event, line.Valid) :
    (event.map EventLine.text).filterMap dataOf = event.filterMap EventLine.data? := by
  rw [List.filterMap_map]
  exact List.filterMap_congr fun line hline => dataOf_text (h line hline)

theorem text_ne_nil {line : EventLine} (h : line.Valid) : line.text ≠ [] := by
  cases line with
  | data line => exact List.cons_ne_nil _ _
  | noise line => exact h.2.1

/-- The lines of an event only join those already read. -/
theorem absorb_texts (read : List Str) {event : List EventLine} (h : ∀ line ∈ event, line.Valid)
    (lines : List Str) :
    absorb read (event.map EventLine.text ++ lines) =
      absorb (read ++ event.map EventLine.text) lines := by
  induction event generalizing read with
  | nil => rw [List.map_nil, List.nil_append, List.append_nil]
  | cons line event ih =>
    obtain ⟨hline, hevent⟩ := List.forall_mem_cons.mp h
    obtain ⟨c, text, htext⟩ := List.exists_cons_of_ne_nil (text_ne_nil hline)
    rw [List.map_cons, List.cons_append, htext, absorb, ih _ hevent, List.append_assoc]
    rfl

theorem payloadOf_texts (event : List EventLine) :
    payloadOf (event.map EventLine.text ++ [[]]) = payloadOf (event.map EventLine.text) := by
  have hblank : ([[]] : List Str).filterMap dataOf = [] := rfl
  rw [payloadOf, payloadOf, List.filterMap_append, hblank, List.append_nil]

/-- What an event gives: its data lines, joined, or nothing when it has none. -/
theorem payloadOf_event {event : List EventLine} (h : ∀ line ∈ event, line.Valid) :
    (payloadOf (event.map EventLine.text)).toList = (payloads [event]).map joinLines := by
  rw [payloadOf, filterMap_dataOf h, payloads, List.map_singleton]
  cases event.filterMap EventLine.data? with
  | nil => rfl
  | cons line lines => rfl

theorem payloads_cons (event : List EventLine) (events : List (List EventLine)) :
    payloads (event :: events) = payloads [event] ++ payloads events := by
  rw [payloads, payloads, payloads, ← List.filter_append, List.map_cons]
  rfl

theorem absorb_framedLines {events : List (List EventLine)} {trailing : List EventLine}
    (hevents : ∀ event ∈ events, ∀ line ∈ event, line.Valid)
    (htrailing : ∀ line ∈ trailing, line.Valid) (hnoise : trailing.filterMap EventLine.data? = []) :
    absorb [] (framedLines events trailing) = (payloads events).map joinLines := by
  induction events with
  | nil =>
    have hlast := absorb_texts [] htrailing []
    rw [List.append_nil, List.nil_append] at hlast
    show absorb [] (trailing.map EventLine.text) = []
    rw [hlast, absorb, payloadOf, filterMap_dataOf htrailing, hnoise]
    rfl
  | cons event events ih =>
    obtain ⟨hevent, hrest⟩ := List.forall_mem_cons.mp hevents
    have hlines : framedLines (event :: events) trailing =
        event.map EventLine.text ++ ([] :: framedLines events trailing) := by
      simp only [framedLines, List.flatMap_cons, List.append_assoc, List.nil_append,
        List.cons_append]
    rw [hlines, absorb_texts [] hevent, List.nil_append, absorb, ih hrest, payloadOf_texts event,
      payloadOf_event hevent, payloads_cons event events, List.map_append]

theorem oneLine_text {line : EventLine} (h : line.Valid) : OneLine line.text := by
  cases line with
  | data line =>
    intro c hc
    rcases List.mem_append.mp hc with hc | hc
    · have hfront : ∀ c ∈ str "data: ", isScalar c = true ∧ c ≠ 10 ∧ c ≠ 13 := by decide
      exact hfront c hc
    · exact h.1 c hc
  | noise line => exact h.1

theorem oneLine_framedLines {events : List (List EventLine)} {trailing : List EventLine}
    (hevents : ∀ event ∈ events, ∀ line ∈ event, line.Valid)
    (htrailing : ∀ line ∈ trailing, line.Valid) :
    ∀ line ∈ framedLines events trailing, OneLine line := by
  have htexts : ∀ event : List EventLine, (∀ line ∈ event, line.Valid) →
      ∀ text ∈ event.map EventLine.text, OneLine text := by
    intro event hevent text htext
    obtain ⟨line, hline, rfl⟩ := List.mem_map.mp htext
    exact oneLine_text (hevent line hline)
  intro line hline
  rcases List.mem_append.mp hline with hline | hline
  · obtain ⟨event, hevent, hline⟩ := List.mem_flatMap.mp hline
    rcases List.mem_append.mp hline with hline | hline
    · exact htexts event (hevents event hevent) line hline
    · rw [List.mem_singleton.mp hline]
      exact fun c hc => absurd hc List.not_mem_nil
  · exact htexts trailing htrailing line hline

/-! ## The round trip -/

/-- The chunks of a stream give the payloads of its events, in order, and nothing else; `close`
may give the last one. -/
theorem decode_frame (t : Terminator) (events : List (List EventLine)) (trailing : List EventLine)
    (hevents : ∀ event ∈ events, ∀ line ∈ event, line.Valid)
    (htrailing : ∀ line ∈ trailing, line.Valid) (hnoise : trailing.filterMap EventLine.data? = [])
    {chunks : List Bytes} (hchunks : chunks.flatten = frame t events trailing) :
    ∃ d out last, decodeChunks chunks = .ok ((d, out), .ok last) ∧
      out ++ last = (payloads events).map joinLines := by
  have hfinish := finish_encodeLines t [] (oneLine_framedLines hevents htrailing)
  rw [← frame, ← hchunks, absorb_framedLines hevents htrailing hnoise] at hfinish
  rw [decodeChunks_eq_decodeWhole, decodeWhole]
  change (Decoder.new.feed chunks.flatten >>= fun r =>
    r.1.close >>= fun last => pure (r.2 ++ last)) = _ at hfinish
  cases hfeed : Decoder.new.feed chunks.flatten with
  | error e =>
    rw [hfeed] at hfinish
    cases hfinish
  | ok r =>
    rw [hfeed] at hfinish
    change (r.1.close >>= fun last => pure (r.2 ++ last)) = _ at hfinish
    cases hclose : r.1.close with
    | error e =>
      rw [hclose] at hfinish
      cases hfinish
    | ok last =>
      rw [hclose] at hfinish
      refine ⟨r.1, r.2, last, ?_, Except.ok.inj hfinish⟩
      show Except.ok (r, r.1.close) = _
      rw [hclose]

/-- A comment and two lines of data, and an event that only `close` ends, in three chunks. -/
theorem decode_frame_held :
    ∃ d out last, decodeChunks [str "data: a\r: c\rda" |>.map UInt8.ofNat,
        str "ta: b\r\rdata: c\r" |>.map UInt8.ofNat, [13]] = .ok ((d, out), .ok last) ∧
      out ++ last = [str "a\nb", str "c"] :=
  decode_frame .cr [[.data (str "a"), .noise (str ": c"), .data (str "b")], [.data (str "c")]] []
    (by decide) (by decide) rfl (by decide)

end Http
end FlashNext
