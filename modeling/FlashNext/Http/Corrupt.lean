import FlashNext.Effect.Check
import FlashNext.Http.Admission

/-!
# Streams with an invalid line

The decoder hands over the events of a read when the whole read was decoded.  An event that is
complete before an invalid line is kept when a read before brought it, and lost when the read
that brings the refused line brought it too: what is kept depends on how the stream was cut
(`corrupt_kept_iff`).
-/

namespace FlashNext
namespace Http

open Text Py

/-- The events that are complete before the first line that is no text on its own; nothing
when all lines are. -/
def beforeInvalid (lines : List Str) (buf : Bytes) : Option (List Str) :=
  match _h : findNewline buf with
  | none => if validUtf8 buf then none else some []
  | some (stop, next) =>
    match decodeUtf8 [] (buf.take stop) with
    | .ok (line, []) =>
      let r := Decoder.addLine ⟨buf.drop next, [], lines⟩ line
      (beforeInvalid r.1.lines (buf.drop next)).map (r.2 ++ ·)
    | _ => some []
termination_by buf.length
decreasing_by
  have hb := findNewline_bounds _h
  rw [List.length_drop]
  omega

namespace Decoder

/-- The events that draining completes, also those before a line that is refused. -/
def completed (d : Decoder) : List Str :=
  match _h : findNewline d.buf with
  | none => []
  | some (stop, next) =>
    match decodeUtf8 d.pending (d.buf.take stop) with
    | .error _ => []
    | .ok (line, pending) =>
      let r := addLine { d with buf := d.buf.drop next, pending := pending } line
      r.2 ++ completed r.1
termination_by d.buf.length
decreasing_by
  have hb := findNewline_bounds _h
  rw [addLine_buf, List.length_drop]
  omega

variable {d : Decoder}

theorem completed_none (h : findNewline d.buf = none) : d.completed = [] := by
  rw [completed]
  split
  · rfl
  · next hsome =>
    rw [h] at hsome
    cases hsome

theorem completed_some {stop next : Nat} (h : findNewline d.buf = some (stop, next))
    {line : Str} {pending : Bytes}
    (hdecode : decodeUtf8 d.pending (d.buf.take stop) = .ok (line, pending)) :
    d.completed =
      (addLine { d with buf := d.buf.drop next, pending := pending } line).2 ++
        (addLine { d with buf := d.buf.drop next, pending := pending } line).1.completed := by
  rw [completed]
  split
  · next hnone =>
    rw [h] at hnone
    cases hnone
  · next stop' next' hsome =>
    rw [h, Option.some.injEq, Prod.mk.injEq] at hsome
    obtain ⟨rfl, rfl⟩ := hsome
    split
    · next e he =>
      rw [hdecode] at he
      cases he
    · next line' pending' hok =>
      rw [hdecode, Except.ok.injEq, Prod.mk.injEq] at hok
      obtain ⟨rfl, rfl⟩ := hok
      rfl

/-- What a drained buffer delivered comes first, and more bytes go on from what it left. -/
theorem completed_of_drain {events : List Str} {r : Decoder × List Str} (more : Bytes)
    (h : d.drain events = .ok r) :
    ∃ delivered, r.2 = events ++ delivered ∧
      completed { d with buf := d.buf ++ more } =
        delivered ++ completed { r.1 with buf := r.1.buf ++ more } := by
  induction d, events using drain.induct with
  | case1 d events hnone =>
    rw [drain_none hnone, Except.ok.injEq] at h
    subst h
    exact ⟨[], (List.append_nil _).symm, rfl⟩
  | case2 d events stop next hsome e herror =>
    rw [drain_some hsome, herror] at h
    cases h
  | case3 d events stop next hsome line pending hdecode e ih =>
    rw [drain_some hsome, hdecode] at h
    obtain ⟨delivered, hr, hcompleted⟩ := ih h
    have hb := findNewline_bounds hsome
    have hdecode' : decodeUtf8 d.pending ((d.buf ++ more).take stop) = .ok (line, pending) := by
      rw [List.take_append_of_le_length (by omega), hdecode]
    refine ⟨e.2 ++ delivered, ?_, ?_⟩
    · rw [hr, List.append_assoc]
    · have hcomm := addLine_append { d with buf := d.buf.drop next, pending := pending } line more
      rw [completed_some (findNewline_append hsome) hdecode', List.append_assoc, ← hcompleted]
      simp only [List.drop_append_of_le_length hb.2]
      rw [hcomm]

/-- The events of the chunks, up to one that is refused. -/
def feedEvents (d : Decoder) : List Bytes → List Str
  | [] => []
  | chunk :: chunks =>
    match d.feed chunk with
    | .error _ => []
    | .ok (d, events) => events ++ d.feedEvents chunks

theorem feedEvents_prefix (d : Decoder) (chunks : List Bytes) :
    d.feedEvents chunks <+: completed { d with buf := d.buf ++ chunks.flatten } := by
  induction chunks generalizing d with
  | nil => exact List.nil_prefix
  | cons chunk chunks ih =>
    rw [feedEvents]
    split
    · exact List.nil_prefix
    · next d' events hfeed =>
      obtain ⟨delivered, hr, hcompleted⟩ := completed_of_drain chunks.flatten hfeed
      simp only [List.nil_append] at hr
      subst hr
      have hbuf : d.buf ++ (chunk :: chunks).flatten = d.buf ++ chunk ++ chunks.flatten := by
        rw [List.flatten_cons, List.append_assoc]
      rw [hbuf, hcompleted]
      exact List.prefix_append_right_inj _ |>.mpr (ih d')

/-- Without a refusal the events of the chunks are all there are. -/
theorem feedEvents_eq {chunks : List Bytes} {r : Decoder × List Str} (hd : d.Drained)
    (h : d.feedAll chunks = .ok r) :
    d.feedEvents chunks = completed { d with buf := d.buf ++ chunks.flatten } := by
  induction chunks generalizing d r with
  | nil =>
    have hbuf : ({ d with buf := d.buf ++ [] } : Decoder) = d := by
      rw [List.append_nil]
    rw [List.flatten_nil, hbuf, completed_none hd]
    rfl
  | cons chunk chunks ih =>
    obtain ⟨⟨d', events⟩, hfeed, h⟩ := Effect.bind_ok.mp h
    obtain ⟨r', hrest, -⟩ := Effect.bind_ok.mp h
    obtain ⟨delivered, hr, hcompleted⟩ := completed_of_drain chunks.flatten hfeed
    simp only [List.nil_append] at hr
    subst hr
    have hbuf : d.buf ++ (chunk :: chunks).flatten = d.buf ++ chunk ++ chunks.flatten := by
      rw [List.flatten_cons, List.append_assoc]
    rw [feedEvents, hfeed, hbuf, hcompleted, ← ih (feed_drained hfeed) hrest]

end Decoder

section BeforeInvalid

variable {lines : List Str} {buf : Bytes} {stop next : Nat}

theorem beforeInvalid_none (h : findNewline buf = none) :
    beforeInvalid lines buf = if validUtf8 buf then none else some [] := by
  rw [beforeInvalid]
  split
  · rfl
  · next hsome =>
    rw [h] at hsome
    cases hsome

theorem beforeInvalid_some (h : findNewline buf = some (stop, next)) :
    beforeInvalid lines buf =
      match decodeUtf8 [] (buf.take stop) with
      | .ok (line, []) =>
        (beforeInvalid (Decoder.addLine ⟨buf.drop next, [], lines⟩ line).1.lines
          (buf.drop next)).map ((Decoder.addLine ⟨buf.drop next, [], lines⟩ line).2 ++ ·)
      | _ => some [] := by
  rw [beforeInvalid]
  split
  · next hnone =>
    rw [h] at hnone
    cases hnone
  · next stop' next' hsome =>
    rw [h, Option.some.injEq, Prod.mk.injEq] at hsome
    obtain ⟨rfl, rfl⟩ := hsome
    rfl

/-- Events that are complete before an invalid line are completed. -/
theorem beforeInvalid_prefix {events : List Str} (h : beforeInvalid lines buf = some events) :
    events <+: Decoder.completed ⟨buf, [], lines⟩ := by
  induction lines, buf using beforeInvalid.induct generalizing events with
  | case1 lines buf hnone hvalid =>
    rw [beforeInvalid_none hnone, if_pos hvalid] at h
    cases h
  | case2 lines buf hnone hinvalid =>
    rw [beforeInvalid_none hnone, if_neg hinvalid, Option.some.injEq] at h
    rw [← h]
    exact List.nil_prefix
  | case3 lines buf stop next hsome line hdecode r =>
    rename_i ih
    rw [beforeInvalid_some hsome, hdecode] at h
    obtain ⟨rest, hrest, rfl⟩ := Option.map_eq_some_iff.mp h
    have hcompleted := Decoder.completed_some (d := ⟨buf, [], lines⟩) hsome hdecode
    have hstate (d : Decoder) :
        (d.addLine line).1 = ⟨d.buf, d.pending, (d.addLine line).1.lines⟩ := by
      unfold Decoder.addLine
      split <;> rfl
    rw [hcompleted]
    refine List.prefix_append_right_inj _ |>.mpr ?_
    rw [hstate]
    exact ih hrest
  | case4 lines buf stop next hsome hother =>
    rw [beforeInvalid_some hsome] at h
    split at h
    · next line hdecode => exact absurd hdecode (hother line)
    · rw [Option.some.injEq] at h
      rw [← h]
      exact List.nil_prefix

end BeforeInvalid

/-! ## What reads deliver -/

theorem deliver_cons {d : Decoder} {chunk : Bytes} {reads : List (Except Str Bytes)}
    (h : chunk ≠ []) :
    deliver d (.ok chunk :: reads) =
      match d.feed chunk with
      | .error e => ⟨[.error (refusalText e)], .ok none⟩
      | .ok (d, payloads) =>
        ⟨.ok payloads :: (deliver d reads).reads, (deliver d reads).closing⟩ :=
  if_neg h

/-- The payloads that reads deliver are the events of the chunks, and what closing adds to
them when no chunk is refused. -/
theorem deliver_payloads {d : Decoder} {chunks : List Bytes} (h : ∀ chunk ∈ chunks, chunk ≠ []) :
    (deliver d (chunks.map .ok)).payloads = d.feedEvents chunks ∨
      ∃ r last, d.feedAll chunks = .ok r ∧
        (deliver d (chunks.map .ok)).payloads = d.feedEvents chunks ++ last := by
  induction chunks generalizing d with
  | nil => exact .inr ⟨_, _, rfl, rfl⟩
  | cons chunk chunks ih =>
    rw [List.forall_mem_cons] at h
    rw [List.map_cons, Delivery.payloads, deliver_cons h.1, Decoder.feedEvents,
      Decoder.feedAll]
    cases hfeed : d.feed chunk with
    | error e => exact .inl rfl
    | ok fed =>
      obtain ⟨d', events⟩ := fed
      show events ++ (deliver d' (chunks.map .ok)).payloads = events ++ d'.feedEvents chunks ∨ _
      rcases ih (d := d') h.2 with hpayloads | ⟨r, last, hr, hpayloads⟩
      · exact .inl (congrArg _ hpayloads)
      · refine .inr ⟨(r.1, events ++ r.2), last, ?_, ?_⟩
        · show (d'.feedAll chunks).bind _ = _
          rw [hr]
          rfl
        · show events ++ (deliver d' (chunks.map .ok)).payloads = _
          rw [hpayloads, List.append_assoc]

/-- The decoder takes the bytes, and the end of the stream after them. -/
def Decoder.Accepts (d : Decoder) (bytes : Bytes) : Prop :=
  ∃ r payloads, d.feed bytes = .ok r ∧ r.1.close = .ok payloads

/-- Reads raise what the decoder does not accept. -/
theorem deliver_raised {d : Decoder} {chunks : List Bytes} (hd : d.Drained)
    (h : ∀ chunk ∈ chunks, chunk ≠ []) :
    (deliver d (chunks.map .ok)).raised = none ↔ d.Accepts chunks.flatten := by
  unfold Decoder.Accepts
  rw [← Decoder.feedAll_eq_feed_flatten chunks hd]
  induction chunks generalizing d with
  | nil =>
    show (deliveredReads ((d.close.mapError refusalText).map List.head?) []).2 = none ↔ _
    rw [Decoder.feedAll]
    cases hclose : d.close with
    | error e =>
      constructor
      · intro hnone
        cases hnone
      · rintro ⟨r, payloads, hr, hok⟩
        rw [Except.ok.injEq] at hr
        subst hr
        rw [hclose] at hok
        cases hok
    | ok payloads => exact ⟨fun _ => ⟨_, payloads, rfl, hclose⟩, fun _ => rfl⟩
  | cons chunk chunks ih =>
    rw [List.forall_mem_cons] at h
    rw [List.map_cons, Delivery.raised, deliver_cons h.1, Decoder.feedAll]
    cases hfeed : d.feed chunk with
    | error e =>
      constructor
      · intro hnone
        cases hnone
      · rintro ⟨r, payloads, hr, -⟩
        cases hr
    | ok fed =>
      obtain ⟨d', events⟩ := fed
      refine (ih (Decoder.feed_drained hfeed) h.2).trans ?_
      show _ ↔ ∃ r payloads, (d'.feedAll chunks).bind _ = _ ∧ _
      cases hrest : d'.feedAll chunks with
      | error e =>
        constructor
        · rintro ⟨r, payloads, hr, -⟩
          cases hr
        · rintro ⟨r, payloads, hr, -⟩
          cases hr
      | ok r =>
        constructor
        · rintro ⟨r', payloads, hr, hclose⟩
          rw [Except.ok.injEq] at hr
          subst hr
          exact ⟨_, payloads, rfl, hclose⟩
        · rintro ⟨r', payloads, hr, hclose⟩
          have hr' : (r.1, events ++ r.2) = r' := Except.ok.inj hr
          subst hr'
          exact ⟨r, payloads, rfl, hclose⟩

/-! ## What is kept -/

section Kept

variable (env : Interp) (captureRaw : Bool)

/-- All that processing the events leaves is in the result, in order and from its start. -/
def Keeps (res : StreamResult) (events : List Str) : Prop :=
  (events.flatMap payloadLines).flatMap (lineRaw env captureRaw) <+: res.rawEvents ∧
    (events.flatMap payloadLines).flatMap (lineContent env) <+: res.content ∧
    (events.flatMap payloadLines).flatMap (lineReasoning env) <+: res.reasoning

/-- Processing the line leaves no raw event and no fragment. -/
def Traceless (line : Str) : Prop :=
  lineRaw env captureRaw line = [] ∧ lineContent env line = [] ∧ lineReasoning env line = []

instance (line : Str) : Decidable (Traceless env captureRaw line) :=
  inferInstanceAs (Decidable (_ ∧ _ ∧ _))

end Kept

/-- When one of two lists goes on where the other ends, what comes of it does so exactly when
nothing comes of the rest. -/
theorem flatMap_prefix_iff {α β : Type} (f : α → List β) {xs ys : List α}
    (h : xs <+: ys ∨ ys <+: xs) :
    xs.flatMap f <+: ys.flatMap f ↔ ∀ x ∈ xs.drop ys.length, f x = [] := by
  rcases h with ⟨rest, rfl⟩ | ⟨rest, rfl⟩
  · rw [List.flatMap_append, List.drop_of_length_le (by rw [List.length_append]; omega)]
    exact ⟨fun _ _ hx => absurd hx List.not_mem_nil, fun _ => List.prefix_append _ _⟩
  · rw [List.flatMap_append, List.drop_left, ← List.flatMap_eq_nil_iff]
    constructor
    · intro hextends
      have hlength := hextends.length_le
      rw [List.length_append] at hlength
      exact List.eq_nil_of_length_eq_zero (by omega)
    · intro hnil
      rw [hnil, List.append_nil]

theorem streamLines_mono (payloads : List Str) :
    streamLines payloads <+: payloads.flatMap payloadLines := by
  obtain ⟨rest, hrest⟩ := through_mono endsStream payloads
  rw [← hrest, List.flatMap_append, hrest]
  exact List.prefix_append _ _

/-- The lines of the events before the invalid line and the lines consumed are the lines of
one stream, up to two places in it. -/
theorem consumedLines_comparable (env : Interp) {chunks : List Bytes} {events : List Str}
    (h : ∀ chunk ∈ chunks, chunk ≠ []) (hevents : beforeInvalid [] chunks.flatten = some events) :
    events.flatMap payloadLines <+:
        consumedLines env (deliver Decoder.new (chunks.map .ok)) ∨
      consumedLines env (deliver Decoder.new (chunks.map .ok)) <+:
        events.flatMap payloadLines := by
  have hcompleted := beforeInvalid_prefix hevents
  have hconsumed : consumedLines env (deliver Decoder.new (chunks.map .ok)) <+:
      (deliver Decoder.new (chunks.map .ok)).payloads.flatMap payloadLines :=
    (through_mono _ _).trans (streamLines_mono _)
  have hlines {xs ys : List Str} (hextends : xs <+: ys) :
      xs.flatMap payloadLines <+: ys.flatMap payloadLines := by
    obtain ⟨rest, rfl⟩ := hextends
    rw [List.flatMap_append]
    exact List.prefix_append _ _
  rcases deliver_payloads (d := .new) h with hpayloads | ⟨r, last, hr, hpayloads⟩
  · rw [hpayloads] at hconsumed
    exact List.prefix_or_prefix_of_prefix (hlines hcompleted)
      (hconsumed.trans (hlines ( Decoder.feedEvents_prefix .new chunks)))
  · rw [Decoder.feedEvents_eq Decoder.drained_new hr] at hpayloads
    rw [hpayloads] at hconsumed
    exact List.prefix_or_prefix_of_prefix
      (hlines (hcompleted.trans (List.prefix_append _ last))) hconsumed

/-- A stream error, from the lines alone: one of them raises; or the stream ended with a valid
usage and only unparseable lines to complain of; or it did not end and was not accepted. -/
def EndsCorrupt (env : Interp) (lines : List Str) (accepted : Prop) : Prop :=
  (∃ line ∈ lines, lineRaise env line ≠ none) ∨
    (doneSentinel ∈ lines ∧ (∃ line ∈ lines, lineUnparseable env line = true) ∧
      (∀ line ∈ lines, lineInvalid env line = false) ∧
      ∃ line ∈ lines, ∃ usage, Reports env line usage) ∨
    (doneSentinel ∉ lines ∧ ¬ accepted)

theorem conclude_streamFormat {env : Interp} {req : Request} (r : Client × Option Str) :
    (Client.conclude env req r).error = some .streamFormat ↔
      r.2 ≠ none ∨
        (r.1.res.sawDone = true ∧ r.1.res.error = some .streamFormat ∧ r.1.res.usage ≠ none) := by
  obtain ⟨c, raised⟩ := r
  cases raised with
  | some e => simp [Client.conclude, Client.fail]
  | none =>
    simp only [Client.conclude]
    split
    · next h => simp [Client.fail, h]
    · next h =>
      split
      · next herror => simp [Client.fail, herror]
      · split
        · next husage => simp [Client.fail, husage]
        · next husage =>
          rw [Bool.not_eq_false] at h
          simp [h, husage]

theorem errorAfter_streamFormat (invalid unparseable : Bool) :
    errorAfter invalid unparseable none = some .streamFormat ↔
      unparseable = true ∧ invalid = false := by
  cases invalid <;> cases unparseable <;> decide

theorem streamResponse_streamFormat_iff (env : Interp) (captureRaw : Bool) (status : Int)
    (delivery : Delivery) :
    (streamResponse env captureRaw status delivery).error = some .streamFormat ↔
      EndsCorrupt env (streamLines delivery.payloads) (delivery.raised = none) := by
  obtain ⟨hraise, -, hs⟩ := streamed_spec env captureRaw status delivery
  have hdone := congrArg Summary.sawDone hs
  have herror := congrArg Summary.error hs
  have husage := congrArg Summary.usage hs
  show (Client.conclude env ⟨env.clock 0, captureRaw⟩
    (streamed env captureRaw status delivery)).error = _ ↔ _
  rw [conclude_streamFormat, hraise]
  by_cases hbroken : ∃ line ∈ streamLines delivery.payloads, lineRaise env line ≠ none
  · have hsome : (streamLines delivery.payloads).findSome? (lineRaise env) ≠ none := by
      intro hnone
      obtain ⟨line, hline, hne⟩ := hbroken
      exact hne (List.findSome?_eq_none_iff.mp hnone line hline)
    refine ⟨fun _ => .inl hbroken, fun _ => .inl fun hnone => ?_⟩
    exact hsome (Option.or_eq_none_iff.mp hnone).1
  · have hnone : (streamLines delivery.payloads).findSome? (lineRaise env) = none := by
      rw [List.findSome?_eq_none_iff]
      intro line hline
      by_contra hne
      exact hbroken ⟨line, hline, hne⟩
    have hconsumed : consumedLines env delivery = streamLines delivery.payloads :=
      Client.through_of_findSome? hnone
    rw [hconsumed] at hdone herror husage
    have hdone' : (streamed env captureRaw status delivery).1.res.sawDone =
        (streamLines delivery.payloads).contains doneSentinel := hdone
    have herror' : (streamed env captureRaw status delivery).1.res.error =
        errorAfter ((streamLines delivery.payloads).any (lineInvalid env))
          ((streamLines delivery.payloads).any (lineUnparseable env)) none := herror
    have husage' : (streamed env captureRaw status delivery).1.res.usage =
        ((streamLines delivery.payloads).filterMap (lineUsage env)).getLast? :=
      husage.trans Option.or_none
    have hends : delivery.payloads.any endsStream = true ↔
        doneSentinel ∈ streamLines delivery.payloads := by
      rw [← streamLines_contains, List.contains_iff_mem]
    rw [hnone, Option.none_or, hdone', herror', husage', errorAfter_streamFormat,
      getLast?_filterMap_ne_none, EndsCorrupt, or_iff_right hbroken]
    by_cases hmem : doneSentinel ∈ streamLines delivery.payloads
    · rw [if_pos (hends.mpr hmem)]
      simp [hmem, and_assoc]
    · rw [if_neg (mt hends.mp hmem)]
      simp [hmem]

/-- What a stream with an invalid line keeps, however it is cut into reads: every event that is
complete before that line is kept exactly when the stream error is reached and no line of them
that was not consumed would have left anything. -/
theorem corrupt_kept_iff (env : Interp) (captureRaw : Bool) (status : Int) {chunks : List Bytes}
    {events : List Str} (hreads : ∀ chunk ∈ chunks, chunk ≠ [])
    (hinvalid : beforeInvalid [] chunks.flatten = some events) :
    let delivery := deliver Decoder.new (chunks.map .ok)
    let res := streamRequest env captureRaw (.response status (chunks.map .ok))
    (res.error = some .streamFormat ∧ Keeps env captureRaw res events) ↔
      EndsCorrupt env (streamLines delivery.payloads) (Decoder.new.Accepts chunks.flatten) ∧
        ∀ line ∈ (events.flatMap payloadLines).drop (consumedLines env delivery).length,
          Traceless env captureRaw line := by
  intro delivery res
  have hraised := deliver_raised Decoder.drained_new hreads
  have herror : res.error = some .streamFormat ↔
      EndsCorrupt env (streamLines delivery.payloads) (Decoder.new.Accepts chunks.flatten) := by
    refine (streamResponse_streamFormat_iff env captureRaw status delivery).trans ?_
    rw [EndsCorrupt, EndsCorrupt, hraised]
  obtain ⟨-, hcontent, hreasoning, hraw, -, -⟩ :=
    streamResponse_kept env captureRaw status delivery
  have hcomparable := consumedLines_comparable env hreads hinvalid
  have hkeeps : Keeps env captureRaw res events ↔
      ∀ line ∈ (events.flatMap payloadLines).drop (consumedLines env delivery).length,
        Traceless env captureRaw line := by
    show (_ <+: (streamResponse env captureRaw status delivery).rawEvents ∧
      _ <+: (streamResponse env captureRaw status delivery).content ∧
      _ <+: (streamResponse env captureRaw status delivery).reasoning) ↔ _
    rw [hraw, hcontent, hreasoning, flatMap_prefix_iff _ hcomparable,
      flatMap_prefix_iff _ hcomparable, flatMap_prefix_iff _ hcomparable]
    simp only [Traceless, forall₂_and, delivery]
  rw [herror, hkeeps]

/-- An interpreter for the payload that holds an empty object. -/
def sampleInterp : Interp where
  loads line :=
    if line = str "\x7b\x7d" then .ok (.dict [])
    else .error (.decode (str "Expecting value: line 1 column 1 (char 0)"))
  text _ := .ok []
  repr _ := .ok []
  clock n := n

/-- An event that holds an empty object. -/
def sampleEvent : Bytes := (str "data: \x7b\x7d\n\n").map UInt8.ofNat

/-- A line that is no text. -/
def sampleRefused : Bytes := [0xff, lineFeed]

/-- In a read of its own the event is kept. -/
theorem corrupt_kept_apart :
    (let res := streamRequest sampleInterp true
      (.response 200 ([sampleEvent, sampleRefused].map .ok))
    res.error = some .streamFormat ∧ Keeps sampleInterp true res [str "\x7b\x7d"]) := by
  refine (corrupt_kept_iff sampleInterp true 200 (by decide) (by decide +kernel)).mpr ⟨?_, ?_⟩
  · refine .inr (.inr ⟨by decide +kernel, ?_⟩)
    rintro ⟨r, payloads, hr, -⟩
    have herror : Decoder.new.feed [sampleEvent, sampleRefused].flatten =
        .error ⟨"invalid start byte", 0xff, 0, 1⟩ := by decide +kernel
    rw [herror] at hr
    cases hr
  · decide +kernel

/-- In the read of the refused line it is lost. -/
theorem corrupt_kept_together :
    ¬ ∀ (env : Interp) (captureRaw : Bool) (status : Int) (chunks : List Bytes)
      (events : List Str), (∀ chunk ∈ chunks, chunk ≠ []) →
      beforeInvalid [] chunks.flatten = some events →
      (streamRequest env captureRaw (.response status (chunks.map .ok))).error =
          some .streamFormat ∧
        Keeps env captureRaw (streamRequest env captureRaw (.response status (chunks.map .ok)))
          events := by
  intro h
  obtain ⟨-, hraw, -, -⟩ := h sampleInterp true 200 [sampleEvent ++ sampleRefused]
    [str "\x7b\x7d"] (by decide) (by decide +kernel)
  have hnone : ¬ ([str "\x7b\x7d"].flatMap payloadLines).flatMap (lineRaw sampleInterp true) <+:
      (streamRequest sampleInterp true
        (.response 200 ([sampleEvent ++ sampleRefused].map .ok))).rawEvents := by
    decide +kernel
  exact hnone hraw

end Http
end FlashNext
