import FlashNext.Niah.Run
import FlashNext.Effect.Check
import FlashNext.Spans.Tiling
import FlashNext.Py.Dump
import Mathlib.Data.Rat.Floor

/-!
# Building a case

`buildCase` writes a prompt of an exact number of tokens.  The template is rendered around a
placeholder; the tokens of the placeholder are replaced by a body of filler, and the tokens of
each needle are written over the filler at their depth.  What the tokenizer makes of a text is a
parameter: nothing is known of it.
-/

namespace FlashNext
namespace Niah

open Py (Str Value str)
open Text (Bytes)

/-- `TokenizerProtocol`.  A message is its role and its content. -/
structure Tokenizer where
  encode : Str → List Int
  decode : List Int → Str
  applyChatTemplate : List (Str × Str) → Value

/-- What a message is put together from. -/
inductive Part where
  | text (s : String)
  | name (s : Str)
  | repr (s : Str)
  | number (n : Int)
  | ratio (q : ℚ)
  | spans (spans : List (Nat × Nat))
  deriving DecidableEq

inductive BuildFault where
  | valueError (message : List Part)
  | runtimeError (message : List Part)
  | unicodeEncodeError
  deriving DecidableEq

abbrev Build := Except BuildFault

def requireValue (ok : Bool) (message : List Part) : Build Unit :=
  Effect.reject (!ok) (.valueError message)

def require (ok : Bool) (message : List Part) : Build Unit :=
  Effect.reject (!ok) (.runtimeError message)

/-- `int(value)`: towards zero. -/
def truncate (q : ℚ) : Int := if 0 ≤ q then ⌊q⌋ else ⌈q⌉

/-! ## The body -/

def fillerSentence : Str :=
  str "The old archive lists shipments of tea, paper, lantern oil and tools " ++
    str "across the district warehouses for each season of the year. "

/-- The sentence as often as it takes, cut to size. -/
def tile (one : List Int) (size : Nat) : List Int :=
  (List.replicate (size / one.length + 2) one).flatten.take size

/-- `_build_filler`. -/
def buildFiller (tokenizer : Tokenizer) (sentence : Str) (nTokens : Nat) : Build (List Int) := do
  let one := tokenizer.encode sentence
  require (!one.isEmpty) [.text "filler sentence encoded to zero tokens"]
  return tile one nTokens

/-- `ids[start:start + length]`. -/
def window (ids : List Int) (start length : Nat) : List Int := (ids.drop start).take length

/-- Where a list of tokens stands in another. -/
def occurrences (ids pattern : List Int) : List Nat :=
  (List.range (ids.length + 1 - pattern.length)).filter fun i =>
    window ids i pattern.length == pattern

/-- `body[start:stop] = ids`. -/
def setSlice (body : List Int) (start stop : Nat) (ids : List Int) : List Int :=
  body.take start ++ ids ++ body.drop stop

/-- The local variables of the loop over the needles. -/
structure Placed where
  body : List Int
  offsets : List Nat
  occupied : List (Nat × Nat)

/-- One round of the loop: the needle is written where its depth says. -/
def placeNeedle (front : Nat) (nTarget : Int) (placed : Placed) (spec : ℚ × List Int) :
    Build Placed := do
  let offset := truncate (spec.1 * nTarget)
  let bodyOffset := offset - front
  let stop := bodyOffset + spec.2.length
  require (decide (0 ≤ bodyOffset ∧ bodyOffset < stop ∧ stop ≤ placed.body.length))
    [.text "requested needle position is outside the template body"]
  require (!placed.occupied.any fun previous =>
      decide (bodyOffset < previous.2 ∧ previous.1 < stop))
    [.text "needle token ranges overlap"]
  return {
    body := setSlice placed.body bodyOffset.toNat stop.toNat spec.2
    offsets := placed.offsets ++ [offset.toNat]
    occupied := placed.occupied ++ [(bodyOffset.toNat, stop.toNat)] }

def slot : Str := [0]

/-- The messages that the template is rendered from. -/
def messages (system query : Str) : List (Str × Str) :=
  [(str "system", system), (str "user", str " " ++ slot ++ str " \n\n" ++ query)]

/-- `_encode_with_positions`: the prompt, where the needles start and the text of the prompt. -/
def encodeWithPositions (tokenizer : Tokenizer) (system : Str) (specs : List (ℚ × List Int))
    (query : Str) (nTarget : Int) : Build (List Int × List Nat × Str) := do
  let rendered ← Effect.orRaise (tokenizer.applyChatTemplate (messages system query)).asStr?
    (.runtimeError [.text "tokenize=False did not produce template text"])
  let templateIds := tokenizer.encode rendered
  let slotIds := tokenizer.encode slot
  require (!slotIds.isEmpty) [.text "template insertion slot encoded empty"]
  let starts := occurrences templateIds slotIds
  require (starts.length == 1) [.text "slot must be unique and contiguous in the actual template"]
  let start := starts.headD 0
  let front := templateIds.take start
  let back := templateIds.drop (start + slotIds.length)
  let bodySize := nTarget - front.length - back.length
  require (decide (0 < bodySize)) [.text "template/query consumes the entire prompt budget"]
  let body ← buildFiller tokenizer fillerSentence bodySize.toNat
  let placed ← specs.foldlM (placeNeedle front.length nTarget) ⟨body, [], []⟩
  let promptIds := front ++ placed.body ++ back
  require (decide (promptIds.length = nTarget))
    [.text "token-space construction violated its exact length"]
  return (promptIds, placed.offsets, tokenizer.decode promptIds)

/-! ## The case -/

structure Needle where
  code : Str
  text : Str
  tokenIds : List Int
  startOffset : Int

/-- `NiahCase`, with all its fields. -/
structure BuiltCase where
  caseId : Str
  nTokens : Int
  depths : List ℚ
  needles : List Needle
  promptIds : List Int
  renderedTextSha256 : Str
  promptSha256 : Str
  responseStartsInThinking : Bool

/-- `NEEDLE_TEMPLATE.format(code=code)`. -/
def needleText (code : Str) : Str := str "One of the special pass codes is " ++ code ++ str "."

/-- A needle before it has a place. -/
def encodeNeedle (tokenizer : Tokenizer) (caseId code : Str) : Build Needle := do
  let ids := tokenizer.encode (needleText code)
  require (!ids.isEmpty) [.name caseId, .text ": needle for ", .repr code, .text " encoded empty"]
  return ⟨code, needleText code, ids, -1⟩

/-- The spans of the needles, sorted. -/
def slotSpans (placed : List (Needle × Nat)) : List (Nat × Nat) :=
  (placed.map fun p => (p.2, p.2 + p.1.tokenIds.length)).mergeSort Spans.spanLe

def checkSpans (caseId : Str) (spans : List (Nat × Nat)) : Build Unit :=
  (spans.zip spans.tail).forM fun pair =>
    require (decide (pair.1.2 ≤ pair.2.1))
      [.name caseId, .text ": needle slots overlap: ", .spans spans]

/-- The needle stands at its offset and nowhere else. -/
def checkSlot (caseId : Str) (promptIds : List Int) (placed : Needle × Nat) : Build Unit := do
  require (window promptIds placed.2 placed.1.tokenIds.length == placed.1.tokenIds)
    [.name caseId, .text ": slot encoding mismatch for ", .repr placed.1.code, .text " at offset ",
      .number placed.2,
      .text ": fix the encoder/template root cause; never switch encoders silently"]
  require ((occurrences promptIds placed.1.tokenIds).length == 1)
    [.name caseId, .text ": needle ", .repr placed.1.code, .text " occurs ",
      .number (occurrences promptIds placed.1.tokenIds).length,
      .text " times in the rendered stream; must be exactly 1 (unique slot)"]

/-- `json.dumps` of a list of tokens. -/
def dumpIds (ids : List Int) : Str :=
  str "[" ++ (str ", ").intercalate (ids.map fun id => str (toString id)) ++ str "]"

/-- `build_case`.  The parameter `filler` of the source is not read. -/
def buildCase (sha256 : Bytes → Str) (tokenizer : Tokenizer) (caseId : Str) (nPromptTokens : Int)
    (depths : List ℚ) (codes : List Str) (query system : Str) : Build BuiltCase := do
  requireValue (!codes.isEmpty && codes.length == depths.length)
    [.text "codes and depths must be nonempty and equal length"]
  requireValue (decide codes.Nodup) [.text "codes must be unique within a case"]
  requireValue (decide (nPromptTokens ≤ maxPrompt))
    [.name caseId, .text ": requested ", .number nPromptTokens,
      .text " prompt tokens exceeds full-window budget ", .number maxPrompt,
      .text " (WINDOW 262144 - RESERVE 4096)"]
  depths.forM fun depth => requireValue (decide (0 < depth ∧ depth < 1))
    [.name caseId, .text ": depth ", .ratio depth, .text " outside (0,1)"]
  let needles ← codes.mapM (encodeNeedle tokenizer caseId)
  let specs := depths.zip (needles.map Needle.tokenIds)
  let (promptIds, offsets, rendered) ←
    encodeWithPositions tokenizer system specs query nPromptTokens
  let placed := needles.zip offsets
  checkSpans caseId (slotSpans placed)
  placed.forM (checkSlot caseId promptIds)
  Effect.reject (!Py.encodes rendered) .unicodeEncodeError
  requireValue (promptIds.all Py.fits)
    [.text "Exceeds the limit (4300 digits) for integer string conversion"]
  return {
    caseId := caseId
    nTokens := promptIds.length
    depths := depths
    needles := placed.map fun p => { p.1 with startOffset := p.2 }
    promptIds := promptIds
    renderedTextSha256 := sha256 (Py.encodeUtf8 rendered)
    promptSha256 := sha256 (Py.encodeUtf8 (dumpIds promptIds))
    responseStartsInThinking := decide (Py.rfind thinkClose rendered < Py.rfind thinkOpen rendered) }

/-- What the runner reads of a case. -/
def BuiltCase.toCase (case : BuiltCase) : NiahCase where
  caseId := case.caseId
  nTokens := case.nTokens
  codes := case.needles.map Needle.code
  promptSha256 := case.promptSha256
  responseStartsInThinking := case.responseStartsInThinking

end Niah
end FlashNext
