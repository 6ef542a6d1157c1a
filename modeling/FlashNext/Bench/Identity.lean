import FlashNext.Bench.Validity

/-!
# The model that a row names

The capture of the upstream lanes keeps every model that an event names; the producers of prose
and vision rows keep the last one.  `valid_names_iff` says which streams they tell apart.
-/

namespace FlashNext
namespace Bench

open Http Py

section

variable (env : Interp) (delivery : Delivery)

/-- The models that the consumed events name, in order. -/
def namedModels : List Str := (consumedLines env delivery).filterMap (lineModel env)

/-- The stream is one whose row is valid but for the models that it names: it ended, every
line was read, its usage is there and valid, it stopped and its answer is accepted. -/
structure Sound (asked : Asked) : Prop where
  ended : ∃ payload ∈ delivery.payloads, doneSentinel ∈ payloadLines payload
  parsed : ∀ line ∈ streamLines delivery.payloads, line = doneSentinel ∨ Parses env line
  quiet : ∀ line ∈ streamLines delivery.payloads, lineRaise env line = none
  counted : ∀ line ∈ streamLines delivery.payloads, ¬ Misreports env line
  usage : ∃ line ∈ streamLines delivery.payloads, ∃ usage, Reports env line usage
  stopped : ((streamLines delivery.payloads).filterMap (lineFinish env)).getLast? =
    some (str "stop")
  answered : asked.accepts ((streamLines delivery.payloads).flatMap (lineContent env)) = true

/-- The last model is the right one, and an earlier event named another. -/
def Mixed : Prop :=
  (namedModels env delivery).getLast? = some modelId ∧
    ∃ model ∈ namedModels env delivery, model ≠ modelId

end

variable {env : Interp} {delivery : Delivery}

/-- A row is valid when its stream is sound and names the model last. -/
theorem valid_iff (asked : Asked) (status : Int) :
    (asked.verdict (streamResponse env true status delivery)).1 = true ↔
      Sound env delivery asked ∧ (namedModels env delivery).getLast? = some modelId := by
  obtain ⟨hok, hconsumed, -, hcontent, -⟩ := streamResponse_ok_iff env true status delivery
  have hmarks := streamResponse_marks env true status delivery
  have hmodel : (streamResponse env true status delivery).modelReported =
      (namedModels env delivery).getLast? := congrArg Marks.modelReported hmarks
  have hfinish : (streamResponse env true status delivery).finishReason =
      ((consumedLines env delivery).filterMap (lineFinish env)).getLast? :=
    congrArg Marks.finishReason hmarks
  have herror : (streamResponse env true status delivery).error = none ↔
      (streamResponse env true status delivery).ok = true := by
    rw [StreamResult.ok, Option.isNone_iff_eq_none]
  rw [verdict_iff, herror, hok, hmodel, hfinish, hcontent]
  constructor
  · rintro ⟨hlast, ⟨hended, hparsed, hquiet, hcounted, husage⟩, hstop, _, hanswer⟩
    rw [hconsumed hquiet] at hstop hanswer
    exact ⟨⟨hended, hparsed, hquiet, hcounted, husage, hstop, hanswer⟩, hlast⟩
  · rintro ⟨hsound, hlast⟩
    have hlines := hconsumed hsound.quiet
    have husage : (streamResponse env true status delivery).usage ≠ none := by
      rw [(streamResponse_kept env true status delivery).1, hlines]
      exact getLast?_filterMap_ne_none.mpr hsound.usage
    refine ⟨hlast, ⟨hsound.ended, hsound.parsed, hsound.quiet, hsound.counted, hsound.usage⟩, ?_,
      husage, ?_⟩
    · rw [hlines]
      exact hsound.stopped
    · rw [hlines]
      exact hsound.answered

/-- A valid row says of every event what the capture of the upstream lanes says, unless a sound
stream names the right model last and another one before. -/
theorem valid_names_iff (env : Interp) (asked : Asked) (status : Int)
    (reads : List (Except Str Text.Bytes)) :
    ((asked.verdict (streamRequest env true (.response status reads))).1 = true →
        ∀ model ∈ namedModels env (deliver Decoder.new reads), model = modelId) ↔
      ¬ (Sound env (deliver Decoder.new reads) asked ∧ Mixed env (deliver Decoder.new reads)) := by
  rw [show streamRequest env true (.response status reads) =
    streamResponse env true status (deliver Decoder.new reads) from rfl, valid_iff]
  constructor
  · rintro h ⟨hsound, hlast, model, hmem, hne⟩
    exact hne (h ⟨hsound, hlast⟩ model hmem)
  · rintro h ⟨hsound, hlast⟩ model hmem
    by_cases hmodel : model = modelId
    · exact hmodel
    · exact absurd ⟨hsound, hlast, model, hmem, hmodel⟩ h

/-! ## A stream that names two models -/

def otherLine : Str := str "\x7b\"model\":\"other\"\x7d"

def otherEvent : Value := .dict [(str "model", .str (str "other"))]

def lastLine : Str :=
  str "\x7b\"model\":\"nvidia/Qwen3.8-Flash-Next-NVFP4\",\"choices\":[\x7b\"delta\":" ++
    str "\x7b\"content\":\"3\"\x7d,\"finish_reason\":\"stop\"\x7d]," ++
    str "\"usage\":\x7b\"prompt_tokens\":1,\"completion_tokens\":1,\"total_tokens\":2\x7d\x7d"

def lastEvent : Value := .dict
  [(str "model", .str modelId),
    (str "choices", .list [.dict [(str "delta", .dict [(str "content", .str (str "3"))]),
      (str "finish_reason", .str (str "stop"))]]),
    (str "usage", .dict [(str "prompt_tokens", .int 1), (str "completion_tokens", .int 1),
      (str "total_tokens", .int 2)])]

/-- An interpreter for the two events. -/
def sampleInterp : Interp where
  loads line :=
    if line = otherLine then .ok otherEvent
    else if line = lastLine then .ok lastEvent
    else .error (.decode (str "Expecting value: line 1 column 1 (char 0)"))
  text value := .ok ((value.asStr?).getD [])
  repr _ := .ok []
  clock n := n

/-- The bytes of an event. -/
def eventBytes (line : Str) : Text.Bytes := (str "data: " ++ line ++ str "\n\n").map UInt8.ofNat

def sampleReads (lines : List Str) : List (Except Str Text.Bytes) :=
  (lines ++ [doneSentinel]).map fun line => .ok (eventBytes line)

/-- A valid row of a stream whose first event names another model. -/
theorem mixed_valid :
    ((Asked.vision (str "circles_3@512")).verdict (streamRequest sampleInterp true
        (.response 200 (sampleReads [otherLine, lastLine])))).1 = true ∧
      ¬ ∀ model ∈ namedModels sampleInterp (deliver Decoder.new (sampleReads [otherLine, lastLine])),
        model = modelId := by
  constructor
  · decide +kernel
  · decide +kernel

end Bench
end FlashNext
