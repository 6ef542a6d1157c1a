import FlashNext.Effect.Check
import FlashNext.Http.Stream
import FlashNext.Text.Utf8Lossy

/-!
# A request without streaming

`_json_request` reads a bounded body, keeps its text and then dereferences the document in it
field by field.  No handler stands around the dereferences, so a document of another shape
leaves the client as an exception, and the result that held its text is lost.

An exception is the text that `str` gives of it.
-/

namespace FlashNext
namespace Http

open Text Py Effect

/-- What a request asks for. -/
inductive Kind where
  | chat
  | completions
  deriving DecidableEq

/-- The classes of the `error` field. -/
inductive CompletionFailure where
  | httpStatus (code : Int)
  | transport
  | timeout
  | responseLimit
  | streamFormat
  | invalidUsage
  | missingUsage
  deriving DecidableEq

/-- The texts and the finish reason are whatever value the document has there. -/
structure CompletionResult where
  text : Value
  reasoning : Value
  finishReason : Value
  usage : Option Usage
  modelReported : Option Str
  httpStatus : Option Int
  error : Option CompletionFailure
  errorDetail : Str
  wallS : ℚ
  rawBody : Str
  deriving DecidableEq

def CompletionResult.new : CompletionResult :=
  ⟨.str [], .str [], .none, none, none, none, none, [], 0, []⟩

/-- The name of the type of a value. -/
def typeName : Value → String
  | .none => "NoneType"
  | .bool _ => "bool"
  | .int _ => "int"
  | .float _ => "float"
  | .nonfinite _ => "float"
  | .str _ => "str"
  | .list _ => "list"
  | .dict _ => "dict"

/-- `value.get(key)`. -/
def getField (value : Value) (key : String) : Except Str Value :=
  match value.asDict? with
  | some fs => .ok (Value.field fs key)
  | none => .error (str s!"'{typeName value}' object has no attribute 'get'")

/-! ## The document -/

/-- The texts of a chat's message. -/
def takeMessage (msg : Value) (res : CompletionResult) : Except Str CompletionResult := do
  let content ← getField msg "content"
  let reasoningContent ← getField msg "reasoning_content"
  let reasoning ← getField msg "reasoning"
  return { res with
    text := content.orElse (.str [])
    reasoning := (reasoningContent.orElse reasoning).orElse (.str []) }

/-- The finish reason and the texts of the first choice. -/
def takeChoice (kind : Kind) (choice : Value) (res : CompletionResult) :
    Except Str CompletionResult := do
  let finishReason ← getField choice "finish_reason"
  let res := { res with finishReason := finishReason }
  match kind with
  | .chat => do
    let msg ← getField choice "message"
    takeMessage (msg.orElse (.dict [])) res
  | .completions => do
    let text ← getField choice "text"
    return { res with text := text.orElse (.str []) }

/-- What the usage adds.  Only an `InvalidUsageError` is caught. -/
def addUsage (env : Interp) (usage : Value) (res : CompletionResult) :
    Except Str CompletionResult :=
  if usage.isNone then
    .ok { res with
      error := some .missingUsage
      errorDetail := str "non-stream response carried no usage object" }
  else
    match validateUsageObject env usage with
    | .ok usage => .ok { res with usage := some usage }
    | .error (.invalid detail) =>
      .ok { res with error := some .invalidUsage, errorDetail := detail }
    | .error (.raised e) => .error e

def takeUsage (env : Interp) (data : Value) (res : CompletionResult) :
    Except Str CompletionResult := do
  let usage ← getField data "usage"
  addUsage env usage res

def takeModel (data : Value) (res : CompletionResult) : Except Str CompletionResult := do
  let model ← getField data "model"
  return { res with modelReported := model.asStr?.or res.modelReported }

/-- What is taken from the document after its choices. -/
def takeChoices (env : Interp) (kind : Kind) (data choices : Value) (res : CompletionResult) :
    Except Str CompletionResult :=
  if choices.truthy = false then
    .ok { res with
      error := some .streamFormat
      errorDetail := str "response has no choices" }
  else do
    let choice ← choices.firstItem
    let res ← takeChoice kind choice res
    let res ← takeUsage env data res
    takeModel data res

/-- What is taken from the document. -/
def takeDocument (env : Interp) (kind : Kind) (data : Value) (res : CompletionResult) :
    Except Str CompletionResult := do
  let choices ← getField data "choices"
  takeChoices env kind data (choices.orElse (.list [])) res

/-! ## The response -/

/-- The body that is kept, in bytes. -/
def maxBody : Nat := 16 * 1024 * 1024

/-- What `_open` does: an `HTTPError`, another exception (with whether it is a timeout's) or a
response.  The body is what arrives up to the end, or the text of what reading it raises. -/
inductive Answer where
  | httpError (code : Int) (body : Except Str Bytes)
  | raised (timeout : Bool) (detail : Str)
  | response (status : Int) (body : Except Str Bytes)

/-- The body of a response, once it is read. -/
def readBody (env : Interp) (kind : Kind) (data : Bytes) (res : CompletionResult) :
    Except Str CompletionResult :=
  let body := decodeReplace data
  if maxBody < data.length then
    .ok { res with
      error := some .responseLimit
      errorDetail := str "response exceeded 16 MiB; raw_body is an incomplete bounded prefix"
      rawBody := body }
  else
    let res := { res with rawBody := body }
    match env.loads body with
    | .error (.decode detail) =>
      .ok { res with
        error := some .streamFormat
        errorDetail := str "response is not JSON: " ++ detail }
    | .error (.other e) => .error e
    | .ok data => takeDocument env kind data res

/-- `_json_request`. -/
def jsonRequest (env : Interp) (kind : Kind) : Answer → Except Str CompletionResult
  | .httpError code body => do
    -- this read stands in a handler, where nothing catches what it raises
    let data ← body
    return { CompletionResult.new with
      wallS := env.clock 1 - env.clock 0
      error := some (.httpStatus code)
      httpStatus := some code
      rawBody := (decodeReplace data).take 5000 }
  | .raised timeout detail =>
    let terr := classifyTransport timeout detail
    .ok { CompletionResult.new with
      wallS := env.clock 1 - env.clock 0
      error := some (if str "timeout" <:+: lowerAscii terr then .timeout else .transport)
      errorDetail := terr }
  | .response status body =>
    let res := { CompletionResult.new with
      httpStatus := some status
      wallS := env.clock 1 - env.clock 0 }
    match body with
    | .error detail =>
      .ok { res with
        error := some .transport
        errorDetail := str "body read failed: " ++ detail }
    -- one byte more is read than is kept
    | .ok body => readBody env kind (body.take (maxBody + 1)) res

end Http
end FlashNext
