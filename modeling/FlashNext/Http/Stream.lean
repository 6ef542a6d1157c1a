import FlashNext.Http.Sse
import Mathlib.Data.List.Infix

/-!
# A streaming request

`_stream_request` reads a response, feeds what it reads to the event decoder and consumes the
events.  Whatever an exception interrupts, the result keeps what was written to it before, so a
step delivers the client it leaves together with the exception, if one was raised.

An exception is the text that `str` gives of it.  What the interpreter supplies (`json.loads`,
`str`, `repr` and the clock) is an `Interp`.
-/

namespace FlashNext
namespace Http

open Text Py

/-- What `json.loads` raises: a `JSONDecodeError`, or something else. -/
inductive LoadError where
  | decode (detail : Str)
  | other (detail : Str)

structure Interp where
  loads : Str → Except LoadError Value
  text : Value → Except Str Str
  repr : Value → Except Str Str
  /-- The readings of `time.perf_counter`, in order. -/
  clock : Nat → ℚ

def doneSentinel : Str := str "[DONE]"
def reasoningKeys : List String := ["reasoning_content", "reasoning"]

/-- What `validate_usage_object` returns. -/
structure Usage where
  promptTokens : Nat
  completionTokens : Nat
  totalTokens : Nat
  deriving DecidableEq

/-- The classes of the `error` field. -/
inductive Failure where
  | httpStatus (code : Int)
  | transport
  | timeout
  | streamFormat
  | missingDone
  | invalidUsage
  | missingUsage
  deriving DecidableEq

inductive FragmentKind where
  | content
  | reasoning
  deriving DecidableEq

structure StreamResult where
  content : Str
  reasoning : Str
  finishReason : Option Str
  usage : Option Usage
  modelReported : Option Str
  httpStatus : Option Int
  error : Option Failure
  errorDetail : Str
  ttftS : Option ℚ
  firstFragmentKind : Option FragmentKind
  wallS : ℚ
  sseEventCount : Nat
  sawDone : Bool
  rawEvents : List Value
  rawErrorBody : Str
  deriving DecidableEq

def StreamResult.new : StreamResult :=
  ⟨[], [], none, none, none, none, none, [], none, none, 0, 0, false, [], []⟩

def StreamResult.ok (res : StreamResult) : Bool := res.error.isNone

/-- A result in the making, and how often the clock was read. -/
structure Client where
  res : StreamResult
  ticks : Nat
  deriving DecidableEq

/-- What the events of one request are consumed with. -/
structure Request where
  t0 : ℚ
  captureRaw : Bool

/-! ## Usage -/

/-- `InvalidUsageError`, or an exception from the text that it was to carry. -/
inductive UsageFault where
  | invalid (detail : Str)
  | raised (detail : Str)

def shown (env : Interp) (value : Value) : Except UsageFault Str :=
  (env.repr value).mapError .raised

def usageField (env : Interp) (usage : List (Str × Value)) (key : String) :
    Except UsageFault Nat :=
  match Value.lookup usage key with
  | none => .error (.invalid (str s!"usage missing field '{key}'"))
  | some (.int n) =>
    if n < 0 then do
      let text ← shown env (.int n)
      throw (.invalid (str s!"usage.{key} is negative: " ++ text))
    else .ok n.toNat
  | some value => do
    let text ← shown env value
    throw (.invalid (str s!"usage.{key} is not a JSON integer: " ++ text))

/-- `validate_usage_object`. -/
def validateUsageObject (env : Interp) (usage : Value) : Except UsageFault Usage :=
  match usage.asDict? with
  | none => do
    let text ← shown env usage
    throw (.invalid (str "usage is not an object: " ++ text))
  | some fs => do
    let promptTokens ← usageField env fs "prompt_tokens"
    let completionTokens ← usageField env fs "completion_tokens"
    let totalTokens ← usageField env fs "total_tokens"
    return ⟨promptTokens, completionTokens, totalTokens⟩

/-! ## One event -/

namespace Client

/-- A payload line that is not JSON is kept as evidence. -/
def unparseable (line detail : Str) (c : Client) : Client :=
  let res := { c.res with
    rawEvents := c.res.rawEvents ++ [.dict [(str "_unparseable", .str line)]] }
  if c.res.error.isNone then
    { c with res := { res with
        error := some .streamFormat
        errorDetail := str "unparseable SSE JSON: " ++ detail } }
  else { c with res := res }

/-- The event is counted and kept, and the model it names noted. -/
def noteObject (req : Request) (evt : List (Str × Value)) (c : Client) : Client :=
  { c with res := { c.res with
      sseEventCount := c.res.sseEventCount + 1
      rawEvents := if req.captureRaw then c.res.rawEvents ++ [.dict evt] else c.res.rawEvents
      modelReported := (Value.field evt "model").asStr?.or c.res.modelReported } }

def noteUsage (env : Interp) (evt : List (Str × Value)) (c : Client) : Client × Option Str :=
  let usage := Value.field evt "usage"
  if usage.isNone then (c, none)
  else
    match validateUsageObject env usage with
    | .ok usage => ({ c with res := { c.res with usage := some usage } }, none)
    | .error (.invalid detail) =>
      ({ c with res := { c.res with error := some .invalidUsage, errorDetail := detail } }, none)
    | .error (.raised e) => (c, some e)

def noteFinish (env : Interp) (choice : List (Str × Value)) (c : Client) :
    Client × Option Str :=
  let finish := Value.field choice "finish_reason"
  if finish.truthy then
    match env.text finish with
    | .ok text => ({ c with res := { c.res with finishReason := some text } }, none)
    | .error e => (c, some e)
  else (c, none)

/-- The first fragment stops the clock. -/
def startTokens (kind : FragmentKind) (elapsed : ℚ) (res : StreamResult) : StreamResult :=
  if res.ttftS.isNone then { res with ttftS := some elapsed, firstFragmentKind := some kind }
  else res

def addContent (elapsed : ℚ) (piece : Str) (res : StreamResult) : StreamResult :=
  if piece = [] then res
  else
    let res := startTokens .content elapsed res
    { res with content := res.content ++ piece }

def addReasoning (elapsed : ℚ) (piece : Str) (res : StreamResult) : StreamResult :=
  if piece = [] then res
  else
    let res := startTokens .reasoning elapsed res
    { res with reasoning := res.reasoning ++ piece }

end Client

/-- The fields of a value that may be no dictionary. -/
def fieldsOf (value : Value) : List (Str × Value) := value.asDict?.getD []

/-- The delta of a choice. -/
def deltaOf (choice : List (Str × Value)) : List (Str × Value) :=
  fieldsOf ((Value.field choice "delta").orElse (.dict []))

/-- The string under the key; nothing when there is none. -/
def pieceAt (delta : List (Str × Value)) (key : String) : Str :=
  (Value.field delta key).asStr?.getD []

def contentPiece (delta : List (Str × Value)) : Str := pieceAt delta "content"

/-- The first of the reasoning keys that has a fragment. -/
def reasoningPiece (delta : List (Str × Value)) : Str :=
  ((reasoningKeys.map (pieceAt delta)).find? (· ≠ [])).getD []

namespace Client

/-- The fragments of a choice, at one reading of the clock. -/
def addFragments (env : Interp) (req : Request) (choice : List (Str × Value)) (c : Client) :
    Client :=
  let elapsed := env.clock c.ticks - req.t0
  let delta := deltaOf choice
  ⟨addReasoning elapsed (reasoningPiece delta) (addContent elapsed (contentPiece delta) c.res),
    c.ticks + 1⟩

def consumeChoices (env : Interp) (req : Request) (evt : List (Str × Value)) (c : Client) :
    Client × Option Str :=
  let choices := (Value.field evt "choices").orElse (.list [])
  if choices.truthy then
    match choices.firstItem with
    | .error e => (c, some e)
    | .ok item =>
      match noteFinish env (fieldsOf item) c with
      | (c, some e) => (c, some e)
      | (c, none) => (addFragments env req (fieldsOf item) c, none)
  else (c, none)

/-- `_consume_event`, from the object on. -/
def consumeObject (env : Interp) (req : Request) (evt : List (Str × Value)) (c : Client) :
    Client × Option Str :=
  match noteUsage env evt (noteObject req evt c) with
  | (c, some e) => (c, some e)
  | (c, none) => consumeChoices env req evt c

/-- `_consume_event` on a payload without a line feed. -/
def consumeLine (env : Interp) (req : Request) (line : Str) (c : Client) :
    Client × Option Str :=
  if line = doneSentinel then ({ c with res := { c.res with sawDone := true } }, none)
  else
    match env.loads line with
    | .error (.decode detail) => (unparseable line detail c, none)
    | .error (.other e) => (c, some e)
    | .ok (.dict evt) => consumeObject env req evt c
    | .ok _ => (c, none)

def consumeLines (env : Interp) (req : Request) : List Str → Client → Client × Option Str
  | [], c => (c, none)
  | line :: lines, c =>
    match consumeLine env req line c with
    | (c, some e) => (c, some e)
    | (c, none) => consumeLines env req lines c

end Client

/-- What a payload is dispatched as: with a line feed in it, its lines that are not empty. -/
def payloadLines (payload : Str) : List Str :=
  if 10 ∈ payload then (payload.splitOn 10).filter (· ≠ []) else [payload]

namespace Client

/-- `_consume_event`. -/
def consumeEvent (env : Interp) (req : Request) (payload : Str) (c : Client) :
    Client × Option Str :=
  consumeLines env req (payloadLines payload) c

/-- The events of one read, until the end of the stream is seen. -/
def consumeEvents (env : Interp) (req : Request) : List Str → Client → Client × Option Str
  | [], c => (c, none)
  | payload :: payloads, c =>
    match consumeEvent env req payload c with
    | (c, some e) => (c, some e)
    | (c, none) => if c.res.sawDone then (c, none) else consumeEvents env req payloads c

end Client

/-! ## The response -/

/-- What the reads of a response bring: the payloads that each read completes, up to the end
or to what a read or the decoder raises, and what closing the decoder adds at the end. -/
structure Delivery where
  reads : List (Except Str (List Str))
  closing : Except Str (Option Str)

/-- The text of a refused character. -/
def refusalText (e : Utf8Error) : Str :=
  let digits := Nat.toDigits 16 e.first.toNat
  let byte := String.ofList (if digits.length < 2 then '0' :: digits else digits)
  let stop := e.position + e.length - 1
  if e.length = 1 then
    str s!"'utf-8' codec can't decode byte 0x{byte} in position {e.position}: {e.reason}"
  else
    str s!"'utf-8' codec can't decode bytes in position {e.position}-{stop}: {e.reason}"

/-- The decoder on the results of `resp.read`, where nothing read is the end. -/
def deliver (d : Decoder) : List (Except Str Bytes) → Delivery
  | [] => ⟨[], (d.close.mapError refusalText).map List.head?⟩
  | .error e :: _ => ⟨[.error e], .ok none⟩
  | .ok chunk :: reads =>
    if chunk = [] then ⟨[], (d.close.mapError refusalText).map List.head?⟩
    else
      match d.feed chunk with
      | .error e => ⟨[.error (refusalText e)], .ok none⟩
      | .ok (d, payloads) =>
        let rest := deliver d reads
        ⟨.ok payloads :: rest.reads, rest.closing⟩

namespace Client

/-- The end of the stream. -/
def consumeClosing (env : Interp) (req : Request) (closing : Except Str (Option Str))
    (c : Client) : Client × Option Str :=
  if c.res.sawDone then (c, none)
  else
    match closing with
    | .error e => (c, some e)
    | .ok none => (c, none)
    | .ok (some payload) => consumeEvent env req payload c

/-- The loop over the reads. -/
def consumeReads (env : Interp) (req : Request) (closing : Except Str (Option Str)) :
    List (Except Str (List Str)) → Client → Client × Option Str
  | [], c => consumeClosing env req closing c
  | .error e :: _, c => (c, some e)
  | .ok payloads :: reads, c =>
    match consumeEvents env req payloads c with
    | (c, some e) => (c, some e)
    | (c, none) => if c.res.sawDone then (c, none) else consumeReads env req closing reads c

/-- `_fail`. -/
def fail (env : Interp) (req : Request) (error : Failure) (detail : Str) (c : Client) :
    StreamResult :=
  { c.res with wallS := env.clock c.ticks - req.t0, error := some error, errorDetail := detail }

/-- What comes after the loop. -/
def conclude (env : Interp) (req : Request) : Client × Option Str → StreamResult
  | (c, some e) => c.fail env req .streamFormat (str "SSE read/decode failed: " ++ e)
  | (c, none) =>
    let c : Client := ⟨{ c.res with wallS := env.clock c.ticks - req.t0 }, c.ticks + 1⟩
    if c.res.sawDone = false then
      c.fail env req .missingDone
        (str "stream ended at EOF without [DONE]; partial content preserved")
    else if c.res.error = some .invalidUsage then
      c.fail env req .invalidUsage c.res.errorDetail
    else if c.res.usage = none then
      c.fail env req .missingUsage
        (str "stream completed but no final usage event was received")
    else c.res

end Client

/-- A response that was opened, with its status: the clock has been read once. -/
def streamResponse (env : Interp) (captureRaw : Bool) (status : Int) (delivery : Delivery) :
    StreamResult :=
  let req : Request := ⟨env.clock 0, captureRaw⟩
  Client.conclude env req (Client.consumeReads env req delivery.closing delivery.reads
    ⟨{ StreamResult.new with httpStatus := some status }, 1⟩)

/-- What `_open` does: an `HTTPError` with the code and the body, another exception (with
whether it is a timeout's), or a response. -/
inductive Opened where
  | httpError (code : Int) (body : Str)
  | raised (timeout : Bool) (detail : Str)
  | response (status : Int) (reads : List (Except Str Bytes))

/-- `str.lower` where it matters for a search of ASCII letters. -/
def lowerAscii (s : Str) : Str := s.map fun c => if 65 ≤ c ∧ c ≤ 90 then c + 32 else c

/-- `str(_classify_transport(exc))`. -/
def classifyTransport (timeout : Bool) (detail : Str) : Str :=
  (if timeout then str "timeout: " else str "transport: ") ++ detail

/-- `_stream_request`. -/
def streamRequest (env : Interp) (captureRaw : Bool) : Opened → StreamResult
  | .httpError code body =>
    { StreamResult.new with
      wallS := env.clock 1 - env.clock 0
      error := some (.httpStatus code)
      httpStatus := some code
      rawErrorBody := body.take 5000 }
  | .raised timeout detail =>
    let terr := classifyTransport timeout detail
    { StreamResult.new with
      wallS := env.clock 1 - env.clock 0
      error := some (if str "timeout" <:+: lowerAscii terr then .timeout else .transport)
      errorDetail := terr }
  | .response status reads =>
    streamResponse env captureRaw status (deliver Decoder.new reads)

end Http
end FlashNext
