import FlashNext.Http.Stream

/-!
# Which streams are admitted

What one payload line does to the result does not depend on the lines before it
(`consumeLine_eq`), so the lines up to the first exception determine the result
(`consumeLines_eq`), and these are the lines of the payloads up to the one that ends the stream
(`consumeReads_eq`).  A result is ok exactly when that stream was complete and sound
(`streamResponse_ok_iff`).
-/

namespace FlashNext
namespace Http

open Text Py

/-! ## Up to the first -/

section Through

variable {α : Type} {p : α → Bool}

/-- The list up to its first element that satisfies `p`, that one included. -/
def through (p : α → Bool) : List α → List α
  | [] => []
  | x :: xs => if p x then [x] else x :: through p xs

theorem through_of_none {xs : List α} (h : ∀ x ∈ xs, p x = false) : through p xs = xs := by
  induction xs with
  | nil => rfl
  | cons x xs ih =>
    rw [List.forall_mem_cons] at h
    rw [through, h.1, ih h.2]
    rfl

theorem through_mono (p : α → Bool) (xs : List α) : through p xs <+: xs := by
  induction xs with
  | nil => exact List.prefix_refl _
  | cons x xs ih =>
    rw [through]
    split
    · exact List.cons_prefix_cons.mpr ⟨rfl, List.nil_prefix⟩
    · exact List.cons_prefix_cons.mpr ⟨rfl, ih⟩

end Through

/-! ## What a line does -/

section Line

variable (env : Interp) (captureRaw : Bool)

/-- The object that a line holds. -/
def objectOf (line : Str) : Option (List (Str × Value)) :=
  if line = doneSentinel then none
  else
    match env.loads line with
    | .ok (.dict evt) => some evt
    | _ => none

def Parses (line : Str) : Prop := ∃ value, env.loads line = .ok value

/-- The line is an object with a usage that `validate_usage_object` accepts. -/
def Reports (line : Str) (usage : Usage) : Prop :=
  ∃ evt, objectOf env line = some evt ∧
    validateUsageObject env (Value.field evt "usage") = .ok usage

/-- The line is an object with a usage that `validate_usage_object` does not accept. -/
def Misreports (line : Str) : Prop :=
  ∃ evt, objectOf env line = some evt ∧ Value.field evt "usage" ≠ .none ∧
    ∀ usage, validateUsageObject env (Value.field evt "usage") ≠ .ok usage

/-- The first choice of an object, if it has choices. -/
def choiceOf (evt : List (Str × Value)) : Except Str (Option (List (Str × Value))) :=
  let choices := (Value.field evt "choices").orElse (.list [])
  if choices.truthy then choices.firstItem.map fun item => some (fieldsOf item) else .ok none

/-- What the usage of an object raises; an invalid one raises nothing out of the event. -/
def usageRaise (evt : List (Str × Value)) : Option Str :=
  let usage := Value.field evt "usage"
  if usage.isNone then none
  else
    match validateUsageObject env usage with
    | .error (.raised e) => some e
    | _ => none

/-- What the text of a finish reason raises. -/
def finishRaise (choice : List (Str × Value)) : Option Str :=
  let finish := Value.field choice "finish_reason"
  if finish.truthy then
    match env.text finish with
    | .ok _ => none
    | .error e => some e
  else none

def choicesRaise (evt : List (Str × Value)) : Option Str :=
  match choiceOf evt with
  | .error e => some e
  | .ok none => none
  | .ok (some choice) => finishRaise env choice

/-- What processing a line raises. -/
def lineRaise (line : Str) : Option Str :=
  if line = doneSentinel then none
  else
    match env.loads line with
    | .error (.decode _) => none
    | .error (.other e) => some e
    | .ok (.dict evt) => (usageRaise env evt).or (choicesRaise env evt)
    | .ok _ => none

/-- Processing the line raises. -/
def raises (line : Str) : Bool := (lineRaise env line).isSome

/-- The delta of the first choice, which is not reached when something is raised before. -/
def choicesDelta (evt : List (Str × Value)) : List (Str × Value) :=
  match choiceOf evt with
  | .ok (some choice) => if (finishRaise env choice).isSome then [] else deltaOf choice
  | _ => []

def objectDelta (evt : List (Str × Value)) : List (Str × Value) :=
  if (usageRaise env evt).isSome then [] else choicesDelta env evt

def lineDelta (line : Str) : List (Str × Value) :=
  match objectOf env line with
  | none => []
  | some evt => objectDelta env evt

/-- The kind of the first fragment of a delta. -/
def kindOf (delta : List (Str × Value)) : Option FragmentKind :=
  if contentPiece delta ≠ [] then some .content
  else if reasoningPiece delta ≠ [] then some .reasoning
  else none

def lineContent (line : Str) : Str := contentPiece (lineDelta env line)

def lineReasoning (line : Str) : Str := reasoningPiece (lineDelta env line)

def lineKind (line : Str) : Option FragmentKind := kindOf (lineDelta env line)

/-- The usage that the line leaves. -/
def lineUsage (line : Str) : Option Usage :=
  (objectOf env line).bind fun evt =>
    (validateUsageObject env (Value.field evt "usage")).toOption

/-- `InvalidUsageError` is raised. -/
def invalidUsage (evt : List (Str × Value)) : Bool :=
  !(Value.field evt "usage").isNone &&
    match validateUsageObject env (Value.field evt "usage") with
    | .error (.invalid _) => true
    | _ => false

def lineInvalid (line : Str) : Bool := (objectOf env line).any (invalidUsage env)

def lineUnparseable (line : Str) : Bool :=
  line ≠ doneSentinel &&
    match env.loads line with
    | .error (.decode _) => true
    | _ => false

/-- The raw events that a line leaves. -/
def lineRaw (line : Str) : List Value :=
  if lineUnparseable env line then [.dict [(str "_unparseable", .str line)]]
  else if captureRaw then ((objectOf env line).map Value.dict).toList
  else []

end Line

/-- What the claims of a result rest on. -/
structure Summary where
  sawDone : Bool
  usage : Option Usage
  content : Str
  reasoning : Str
  rawEvents : List Value
  error : Option Failure
  firstFragmentKind : Option FragmentKind
  deriving DecidableEq

def StreamResult.summary (res : StreamResult) : Summary :=
  ⟨res.sawDone, res.usage, res.content, res.reasoning, res.rawEvents, res.error,
    res.firstFragmentKind⟩

/-- The error that is left after an invalid usage, an unparseable line or neither. -/
def errorAfter (invalid unparseable : Bool) (error : Option Failure) : Option Failure :=
  if invalid then some .invalidUsage
  else if unparseable then error.or (some .streamFormat)
  else error

/-- What the fragments of a delta add. -/
def Summary.addDelta (s : Summary) (delta : List (Str × Value)) : Summary :=
  { s with
    content := s.content ++ contentPiece delta
    reasoning := s.reasoning ++ reasoningPiece delta
    firstFragmentKind := s.firstFragmentKind.or (kindOf delta) }

theorem Summary.addDelta_nil (s : Summary) : s.addDelta [] = s := by
  have hk : kindOf [] = none := rfl
  have hc : contentPiece [] = [] := rfl
  have hr : reasoningPiece [] = [] := rfl
  rw [addDelta, hk, hc, hr, List.append_nil, List.append_nil, Option.or_none]

/-- What a line adds to a summary. -/
def Summary.add (env : Interp) (captureRaw : Bool) (s : Summary) (line : Str) : Summary :=
  ({ s with
    sawDone := s.sawDone || decide (line = doneSentinel)
    usage := (lineUsage env line).or s.usage
    rawEvents := s.rawEvents ++ lineRaw env captureRaw line
    error := errorAfter (lineInvalid env line) (lineUnparseable env line) s.error } :
      Summary).addDelta (lineDelta env line)

/-- The clock of the first fragment was read when there was one. -/
def StreamResult.Timed (res : StreamResult) : Prop :=
  res.ttftS.isSome = res.firstFragmentKind.isSome

theorem validateUsageObject_none (env : Interp) :
    (validateUsageObject env .none).toOption = none := by
  unfold validateUsageObject shown
  cases env.repr Value.none <;> rfl

namespace StreamResult

variable {res : StreamResult} (elapsed : ℚ)

theorem startTokens_eq (kind : FragmentKind) (h : res.Timed) :
    (Client.startTokens kind elapsed res).Timed ∧
      (Client.startTokens kind elapsed res).summary =
        { res.summary with firstFragmentKind := res.firstFragmentKind.or (some kind) } := by
  unfold Client.startTokens
  unfold Timed at h
  cases hk : res.firstFragmentKind with
  | none =>
    rw [hk, Option.isSome_none] at h
    have ht : res.ttftS.isNone = true := by
      rw [← Option.not_isSome, h]
      rfl
    rw [if_pos ht]
    exact ⟨rfl, rfl⟩
  | some k =>
    rw [hk, Option.isSome_some] at h
    have ht : ¬ res.ttftS.isNone = true := by
      rw [← Option.not_isSome, h]
      exact Bool.false_ne_true
    rw [if_neg ht]
    refine ⟨?_, ?_⟩
    · rw [Timed, hk]
      exact h
    · rw [summary, hk]
      rfl

theorem addContent_eq (piece : Str) (h : res.Timed) :
    (Client.addContent elapsed piece res).Timed ∧
      (Client.addContent elapsed piece res).summary =
        { res.summary with
          content := res.content ++ piece
          firstFragmentKind :=
            res.firstFragmentKind.or (if piece ≠ [] then some .content else none) } := by
  unfold Client.addContent
  by_cases hp : piece = []
  · rw [if_pos hp, if_neg (not_not_intro hp), hp, List.append_nil, Option.or_none]
    exact ⟨h, rfl⟩
  · rw [if_neg hp, if_pos hp]
    obtain ⟨ht, hs⟩ := startTokens_eq elapsed .content h
    refine ⟨ht, ?_⟩
    have hc : (Client.startTokens .content elapsed res).content = res.content :=
      congrArg Summary.content hs
    rw [← hc]
    exact congrArg (fun s : Summary =>
      { s with content := (Client.startTokens .content elapsed res).content ++ piece }) hs

theorem addReasoning_eq (piece : Str) (h : res.Timed) :
    (Client.addReasoning elapsed piece res).Timed ∧
      (Client.addReasoning elapsed piece res).summary =
        { res.summary with
          reasoning := res.reasoning ++ piece
          firstFragmentKind :=
            res.firstFragmentKind.or (if piece ≠ [] then some .reasoning else none) } := by
  unfold Client.addReasoning
  by_cases hp : piece = []
  · rw [if_pos hp, if_neg (not_not_intro hp), hp, List.append_nil, Option.or_none]
    exact ⟨h, rfl⟩
  · rw [if_neg hp, if_pos hp]
    obtain ⟨ht, hs⟩ := startTokens_eq elapsed .reasoning h
    refine ⟨ht, ?_⟩
    have hc : (Client.startTokens .reasoning elapsed res).reasoning = res.reasoning :=
      congrArg Summary.reasoning hs
    rw [← hc]
    exact congrArg (fun s : Summary =>
      { s with reasoning := (Client.startTokens .reasoning elapsed res).reasoning ++ piece }) hs

end StreamResult

namespace Client

variable (env : Interp) (req : Request) {c : Client} (evt : List (Str × Value))

/-- The fragments of a choice, content first. -/
theorem addFragments_eq (choice : List (Str × Value)) (h : c.res.Timed) :
    (addFragments env req choice c).res.Timed ∧
      (addFragments env req choice c).res.summary = c.res.summary.addDelta (deltaOf choice) := by
  unfold addFragments
  obtain ⟨ht, hs⟩ := StreamResult.addContent_eq (env.clock c.ticks - req.t0)
    (contentPiece (deltaOf choice)) h
  obtain ⟨ht', hs'⟩ := StreamResult.addReasoning_eq (env.clock c.ticks - req.t0)
    (reasoningPiece (deltaOf choice)) ht
  refine ⟨ht', hs'.trans ?_⟩
  have hr := congrArg Summary.reasoning hs
  have hk := congrArg Summary.firstFragmentKind hs
  simp only [StreamResult.summary] at hr hk
  rw [hs, hr, hk, Option.or_assoc, Summary.addDelta, kindOf]
  split <;> rfl

theorem noteFinish_eq (choice : List (Str × Value)) (h : c.res.Timed) :
    (noteFinish env choice c).2 = finishRaise env choice ∧
      (noteFinish env choice c).1.res.Timed ∧
      (noteFinish env choice c).1.res.summary = c.res.summary := by
  unfold noteFinish finishRaise
  by_cases hfinish : (Value.field choice "finish_reason").truthy = true
  · simp only [if_pos hfinish]
    cases env.text (Value.field choice "finish_reason") with
    | ok text => exact ⟨rfl, h, rfl⟩
    | error e => exact ⟨rfl, h, rfl⟩
  · simp only [if_neg hfinish]
    exact ⟨trivial, h, trivial⟩

theorem consumeChoices_eq (h : c.res.Timed) :
    (consumeChoices env req evt c).2 = choicesRaise env evt ∧
      (consumeChoices env req evt c).1.res.Timed ∧
      (consumeChoices env req evt c).1.res.summary =
        c.res.summary.addDelta (choicesDelta env evt) := by
  unfold consumeChoices choicesRaise choicesDelta choiceOf
  by_cases hchoices : ((Value.field evt "choices").orElse (.list [])).truthy = true
  · simp only [if_pos hchoices]
    cases ((Value.field evt "choices").orElse (.list [])).firstItem with
    | error e => exact ⟨rfl, h, (Summary.addDelta_nil _).symm⟩
    | ok item =>
      obtain ⟨hraise, ht, hs⟩ := noteFinish_eq env (fieldsOf item) h
      simp only [Except.map]
      rw [← hraise]
      cases hfinish : noteFinish env (fieldsOf item) c with
      | mk c' raised =>
        rw [hfinish] at ht hs
        cases raised with
        | some e => exact ⟨rfl, ht, hs.trans (Summary.addDelta_nil _).symm⟩
        | none =>
          obtain ⟨ht', hs'⟩ := addFragments_eq env req (fieldsOf item) ht
          exact ⟨rfl, ht', hs'.trans (congrArg (Summary.addDelta · _) hs)⟩
  · simp only [if_neg hchoices]
    exact ⟨trivial, h, (Summary.addDelta_nil _).symm⟩

theorem noteUsage_eq (h : c.res.Timed) :
    (noteUsage env evt c).2 = usageRaise env evt ∧
      (noteUsage env evt c).1.res.Timed ∧
      (noteUsage env evt c).1.res.summary =
        { c.res.summary with
          usage := (validateUsageObject env (Value.field evt "usage")).toOption.or c.res.usage
          error := errorAfter (invalidUsage env evt) false c.res.error } := by
  unfold noteUsage usageRaise invalidUsage
  cases hnone : (Value.field evt "usage").isNone with
  | true =>
    rw [Value.isNone_iff.mp hnone, validateUsageObject_none]
    exact ⟨rfl, h, rfl⟩
  | false =>
    simp only [hnone, Bool.false_eq_true, if_false, Bool.not_false, Bool.true_and]
    cases validateUsageObject env (Value.field evt "usage") with
    | ok usage => exact ⟨rfl, h, rfl⟩
    | error fault =>
      cases fault with
      | invalid detail => exact ⟨rfl, h, rfl⟩
      | raised e => exact ⟨rfl, h, rfl⟩

theorem consumeObject_eq (h : c.res.Timed) :
    (consumeObject env req evt c).2 = (usageRaise env evt).or (choicesRaise env evt) ∧
      (consumeObject env req evt c).1.res.Timed ∧
      (consumeObject env req evt c).1.res.summary =
        ({ c.res.summary with
          usage := (validateUsageObject env (Value.field evt "usage")).toOption.or c.res.usage
          rawEvents := c.res.rawEvents ++ if req.captureRaw then [.dict evt] else []
          error := errorAfter (invalidUsage env evt) false c.res.error } : Summary).addDelta
            (objectDelta env evt) := by
  have hobject : (noteObject req evt c).res.summary =
      { c.res.summary with
        rawEvents := c.res.rawEvents ++ if req.captureRaw then [.dict evt] else [] } := by
    unfold noteObject StreamResult.summary
    cases req.captureRaw with
    | true => rfl
    | false => simp only [Bool.false_eq_true, if_false, List.append_nil]
  have hobjectTimed : (noteObject req evt c).res.Timed := h
  obtain ⟨hraise, ht, hs⟩ := noteUsage_eq env evt hobjectTimed
  unfold consumeObject objectDelta
  rw [← hraise]
  cases hnote : noteUsage env evt (noteObject req evt c) with
  | mk c' raised =>
    rw [hnote] at ht hs
    rw [hobject] at hs
    cases raised with
    | some e => exact ⟨rfl, ht, hs.trans (Summary.addDelta_nil _).symm⟩
    | none =>
      obtain ⟨hraise', ht', hs'⟩ := consumeChoices_eq env req evt ht
      exact ⟨hraise', ht', hs'.trans (congrArg (Summary.addDelta · _) hs)⟩

theorem unparseable_eq (line detail : Str) (h : c.res.Timed) :
    (unparseable line detail c).res.Timed ∧
      (unparseable line detail c).res.summary =
        { c.res.summary with
          rawEvents := c.res.rawEvents ++ [.dict [(str "_unparseable", .str line)]]
          error := errorAfter false true c.res.error } := by
  unfold unparseable
  cases herror : c.res.error with
  | none => exact ⟨h, rfl⟩
  | some e =>
    refine ⟨h, ?_⟩
    simp [StreamResult.summary, errorAfter, herror]

end Client

namespace Summary

variable {env : Interp} {captureRaw : Bool} {s : Summary} {line : Str}

/-- A line that holds no object adds no usage and no fragments. -/
theorem add_of_none (h : objectOf env line = none) :
    s.add env captureRaw line =
      { s with
        sawDone := s.sawDone || decide (line = doneSentinel)
        rawEvents := s.rawEvents ++ lineRaw env captureRaw line
        error := errorAfter false (lineUnparseable env line) s.error } := by
  have hdelta : lineDelta env line = [] := by
    rw [lineDelta, h]
  have husage : lineUsage env line = none := by
    rw [lineUsage, h]
    rfl
  have hinvalid : lineInvalid env line = false := by
    rw [lineInvalid, h]
    rfl
  rw [add, hdelta, addDelta_nil, husage, hinvalid, Option.none_or]

theorem add_of_quiet (h : objectOf env line = none) (hline : lineUnparseable env line = false) :
    s.add env captureRaw line =
      { s with sawDone := s.sawDone || decide (line = doneSentinel) } := by
  have hraw : lineRaw env captureRaw line = [] := by
    rw [lineRaw, hline, h]
    exact ite_self _
  rw [add_of_none h, hraw, hline, List.append_nil]
  rfl

theorem add_of_object {evt : List (Str × Value)} (h : objectOf env line = some evt)
    (hdone : line ≠ doneSentinel) (hline : lineUnparseable env line = false) :
    s.add env captureRaw line =
      ({ s with
        usage := (validateUsageObject env (Value.field evt "usage")).toOption.or s.usage
        rawEvents := s.rawEvents ++ if captureRaw then [.dict evt] else []
        error := errorAfter (invalidUsage env evt) false s.error } : Summary).addDelta
          (objectDelta env evt) := by
  have hraw : lineRaw env captureRaw line = if captureRaw then [.dict evt] else [] := by
    rw [lineRaw, hline, h]
    rfl
  rw [add, lineDelta, lineUsage, lineInvalid, hraw, hline, h, decide_eq_false hdone,
    Bool.or_false]
  rfl

end Summary

namespace Client

variable (env : Interp) (req : Request) {c : Client}

/-- What one line does, whatever came before it. -/
theorem consumeLine_eq (line : Str) (h : c.res.Timed) :
    (consumeLine env req line c).2 = lineRaise env line ∧
      (consumeLine env req line c).1.res.Timed ∧
      (consumeLine env req line c).1.res.summary =
        c.res.summary.add env req.captureRaw line := by
  unfold consumeLine lineRaise
  by_cases hdone : line = doneSentinel
  · have hobject : objectOf env line = none := if_pos hdone
    have hline : lineUnparseable env line = false := by
      rw [lineUnparseable, decide_eq_false (not_not_intro hdone), Bool.false_and]
    rw [if_pos hdone, if_pos hdone, Summary.add_of_quiet hobject hline, decide_eq_true hdone,
      Bool.or_true]
    exact ⟨rfl, h, rfl⟩
  · rw [if_neg hdone, if_neg hdone]
    cases hload : env.loads line with
    | error fault =>
      have hobject : objectOf env line = none := by
        rw [objectOf, if_neg hdone, hload]
      cases fault with
      | decode detail =>
        obtain ⟨ht, hs⟩ := unparseable_eq line detail h
        have hline : lineUnparseable env line = true := by
          rw [lineUnparseable, decide_eq_true hdone, hload]
          rfl
        rw [Summary.add_of_none hobject, lineRaw, hline, decide_eq_false hdone, Bool.or_false]
        exact ⟨rfl, ht, hs⟩
      | other e =>
        have hline : lineUnparseable env line = false := by
          rw [lineUnparseable, hload, Bool.and_false]
        rw [Summary.add_of_quiet hobject hline, decide_eq_false hdone, Bool.or_false]
        exact ⟨rfl, h, rfl⟩
    | ok value =>
      have hline : lineUnparseable env line = false := by
        rw [lineUnparseable, hload, Bool.and_false]
      cases value with
      | dict evt =>
        have hobject : objectOf env line = some evt := by
          rw [objectOf, if_neg hdone, hload]
        rw [Summary.add_of_object hobject hdone hline]
        exact consumeObject_eq env req evt h
      | _ =>
        have hobject : objectOf env line = none := by
          rw [objectOf, if_neg hdone, hload]
        rw [Summary.add_of_quiet hobject hline, decide_eq_false hdone, Bool.or_false]
        exact ⟨rfl, h, rfl⟩

theorem consumeLines_eq (lines : List Str) (h : c.res.Timed) :
    (consumeLines env req lines c).2 = lines.findSome? (lineRaise env) ∧
      (consumeLines env req lines c).1.res.Timed ∧
      (consumeLines env req lines c).1.res.summary =
        (through (raises env) lines).foldl (Summary.add env req.captureRaw) c.res.summary := by
  induction lines generalizing c with
  | nil => exact ⟨rfl, h, rfl⟩
  | cons line lines ih =>
    obtain ⟨hraise, ht, hs⟩ := consumeLine_eq env req line h
    rw [consumeLines, List.findSome?_cons, through, raises, ← hraise]
    cases hline : consumeLine env req line c with
    | mk c' raised =>
      rw [hline] at ht hs
      cases raised with
      | some e => exact ⟨rfl, ht, hs⟩
      | none =>
        obtain ⟨hraise', ht', hs'⟩ := ih ht
        refine ⟨hraise', ht', ?_⟩
        rw [hs', hs]
        rfl

/-- A step that goes on when nothing was raised. -/
def andThen (r : Client × Option Str) (next : Client → Client × Option Str) :
    Client × Option Str :=
  match r with
  | (c, some e) => (c, some e)
  | (c, none) => next c

theorem consumeLines_append (first second : List Str) (c : Client) :
    consumeLines env req (first ++ second) c =
      andThen (consumeLines env req first c) (consumeLines env req second) := by
  induction first generalizing c with
  | nil => rfl
  | cons line first ih =>
    rw [List.cons_append, consumeLines, consumeLines]
    cases consumeLine env req line c with
    | mk c' raised =>
      cases raised with
      | some e => rfl
      | none => exact ih c'

end Client

/-! ## The lines of a stream -/

/-- The payload has a line that ends the stream. -/
def endsStream (payload : Str) : Bool := (payloadLines payload).contains doneSentinel

/-- The lines of the payloads, up to the first payload that ends the stream. -/
def streamLines (payloads : List Str) : List Str :=
  (through endsStream payloads).flatMap payloadLines

theorem streamLines_cons (payload : Str) (payloads : List Str) :
    streamLines (payload :: payloads) =
      payloadLines payload ++ if endsStream payload then [] else streamLines payloads := by
  rw [streamLines, through]
  cases endsStream payload with
  | true => exact List.flatMap_cons
  | false => exact List.flatMap_cons

theorem streamLines_contains (payloads : List Str) :
    (streamLines payloads).contains doneSentinel = payloads.any endsStream := by
  induction payloads with
  | nil => rfl
  | cons payload payloads ih =>
    rw [streamLines_cons, List.contains_append, List.any_cons]
    show (endsStream payload || _) = _
    cases endsStream payload with
    | true => rfl
    | false => exact ih

theorem streamLines_append (first second : List Str) :
    streamLines (first ++ second) =
      streamLines first ++ if first.any endsStream then [] else streamLines second := by
  induction first with
  | nil => rfl
  | cons payload first ih =>
    rw [List.cons_append, streamLines_cons, streamLines_cons, ih, List.any_cons,
      List.append_assoc]
    cases endsStream payload with
    | true => rfl
    | false => rfl

/-- All payloads that reads deliver, and what a read or the decoder raises after them. -/
def deliveredReads (closing : Except Str (Option Str)) :
    List (Except Str (List Str)) → List Str × Option Str
  | [] =>
    match closing with
    | .error e => ([], some e)
    | .ok payload => (payload.toList, none)
  | .error e :: _ => ([], some e)
  | .ok payloads :: reads =>
    (payloads ++ (deliveredReads closing reads).1, (deliveredReads closing reads).2)

def Delivery.payloads (delivery : Delivery) : List Str :=
  (deliveredReads delivery.closing delivery.reads).1

def Delivery.raised (delivery : Delivery) : Option Str :=
  (deliveredReads delivery.closing delivery.reads).2

namespace Client

theorem through_of_findSome? {env : Interp} {lines : List Str} (h : lines.findSome? (lineRaise env) = none) :
    through (raises env) lines = lines := by
  refine through_of_none fun line hline => ?_
  rw [raises, List.findSome?_eq_none_iff.mp h line hline]
  rfl

end Client

/-- What lines add to a summary, when none of them raises. -/
def Summary.addAll (env : Interp) (captureRaw : Bool) (s : Summary) (lines : List Str) :
    Summary where
  sawDone := s.sawDone || lines.contains doneSentinel
  usage := (lines.filterMap (lineUsage env)).getLast?.or s.usage
  content := s.content ++ lines.flatMap (lineContent env)
  reasoning := s.reasoning ++ lines.flatMap (lineReasoning env)
  rawEvents := s.rawEvents ++ lines.flatMap (lineRaw env captureRaw)
  error := errorAfter (lines.any (lineInvalid env)) (lines.any (lineUnparseable env)) s.error
  firstFragmentKind := s.firstFragmentKind.or (lines.findSome? (lineKind env))

theorem errorAfter_errorAfter (i u i' u' : Bool) (e : Option Failure) :
    errorAfter i' u' (errorAfter i u e) = errorAfter (i || i') (u || u') e := by
  cases e <;> cases i <;> cases u <;> cases i' <;> cases u' <;> rfl

theorem getLast?_filterMap_cons {α β : Type} (f : α → Option β) (x : α) (xs : List α)
    (last : Option β) :
    ((x :: xs).filterMap f).getLast?.or last =
      (xs.filterMap f).getLast?.or ((f x).or last) := by
  rw [List.filterMap_cons]
  cases f x with
  | none => rfl
  | some y =>
    cases hxs : xs.filterMap f with
    | nil => rfl
    | cons z zs => rw [List.getLast?_cons_cons, List.getLast?_cons]; rfl

theorem Summary.foldl_add (env : Interp) (captureRaw : Bool) (lines : List Str) (s : Summary) :
    lines.foldl (Summary.add env captureRaw) s = s.addAll env captureRaw lines := by
  induction lines generalizing s with
  | nil =>
    simp [addAll, errorAfter]
  | cons line lines ih =>
    have hdone : (doneSentinel == line) = decide (line = doneSentinel) := by
      rw [Bool.eq_iff_iff, beq_iff_eq, decide_eq_true_eq, eq_comm]
    have hkind : (line :: lines).findSome? (lineKind env) =
        (lineKind env line).or (lines.findSome? (lineKind env)) := by
      rw [List.findSome?_cons]
      cases lineKind env line <;> rfl
    rw [List.foldl_cons, ih, addAll, addAll, getLast?_filterMap_cons, hkind]
    simp only [add, addDelta, List.contains_cons, hdone, Bool.or_assoc, List.flatMap_cons,
      List.append_assoc, errorAfter_errorAfter, List.any_cons, Option.or_assoc, lineContent,
      lineReasoning, lineKind]

namespace Client

variable (env : Interp) (req : Request) {c : Client}

theorem consumeLines_sawDone (lines : List Str) (h : c.res.Timed) (hsaw : c.res.sawDone = false)
    (hraise : (consumeLines env req lines c).2 = none) :
    (consumeLines env req lines c).1.res.sawDone = lines.contains doneSentinel := by
  obtain ⟨hraise', -, hs⟩ := consumeLines_eq env req lines h
  rw [hraise'] at hraise
  rw [through_of_findSome? hraise, Summary.foldl_add] at hs
  have hdone := congrArg Summary.sawDone hs
  simp only [StreamResult.summary, Summary.addAll, hsaw, Bool.false_or] at hdone
  exact hdone

/-- The events of a read are the lines up to the payload that ends the stream. -/
theorem consumeEvents_eq (payloads : List Str) (h : c.res.Timed) (hsaw : c.res.sawDone = false) :
    consumeEvents env req payloads c = consumeLines env req (streamLines payloads) c := by
  induction payloads generalizing c with
  | nil => rfl
  | cons payload payloads ih =>
    obtain ⟨-, ht, -⟩ := consumeLines_eq env req (payloadLines payload) h
    have hdone := consumeLines_sawDone env req (payloadLines payload) h hsaw
    rw [consumeEvents, streamLines_cons, consumeLines_append, consumeEvent]
    cases hevent : consumeLines env req (payloadLines payload) c with
    | mk c' raised =>
      rw [hevent] at ht hdone
      cases raised with
      | some e => rfl
      | none =>
        have hsaw' : c'.res.sawDone = endsStream payload := hdone rfl
        show (if c'.res.sawDone then _ else _) = consumeLines env req _ c'
        cases hends : endsStream payload with
        | true =>
          rw [hsaw', hends]
          rfl
        | false =>
          rw [hsaw', hends]
          exact ih ht (hsaw'.trans hends)

/-- The loop over the reads is one pass over the lines; what a read raises comes after them. -/
theorem consumeReads_eq (closing : Except Str (Option Str))
    (reads : List (Except Str (List Str))) (h : c.res.Timed) (hsaw : c.res.sawDone = false) :
    consumeReads env req closing reads c =
      andThen (consumeLines env req (streamLines (deliveredReads closing reads).1) c) fun c =>
        if c.res.sawDone then (c, none) else (c, (deliveredReads closing reads).2) := by
  have hraised : ∀ e : Str, (if c.res.sawDone then (c, none) else (c, some e)) = (c, some e) := by
    intro e
    rw [hsaw]
    rfl
  induction reads generalizing c with
  | nil =>
    have hopen : ¬ c.res.sawDone = true := hsaw ▸ Bool.false_ne_true
    cases closing with
    | error e =>
      have hclosing : consumeReads env req (.error e) [] c = (c, some e) := if_neg hopen
      exact hclosing.trans (hraised e).symm
    | ok payload =>
      cases payload with
      | none =>
        have hclosing : consumeReads env req (.ok none) [] c = (c, none) := if_neg hopen
        exact hclosing.trans (ite_self _).symm
      | some payload =>
        have hclosing : consumeReads env req (.ok (some payload)) [] c =
            consumeEvent env req payload c := if_neg hopen
        have hlines : streamLines [payload] = payloadLines payload := by
          rw [streamLines_cons]
          exact (congrArg _ (ite_self _)).trans (List.append_nil _)
        rw [hclosing]
        show consumeEvent env req payload c =
          andThen (consumeLines env req (streamLines [payload]) c) fun c =>
            if c.res.sawDone then (c, none) else (c, none)
        rw [hlines, consumeEvent]
        cases consumeLines env req (payloadLines payload) c with
        | mk c' raised =>
          cases raised with
          | some e => rfl
          | none => exact (ite_self _).symm
  | cons read reads ih =>
    cases read with
    | error e => exact (hraised e).symm
    | ok payloads =>
      obtain ⟨-, ht, -⟩ := consumeLines_eq env req (streamLines payloads) h
      have hdone := consumeLines_sawDone env req (streamLines payloads) h hsaw
      rw [streamLines_contains] at hdone
      rw [consumeReads, consumeEvents_eq env req payloads h hsaw, deliveredReads, streamLines_append,
        consumeLines_append]
      cases hevents : consumeLines env req (streamLines payloads) c with
      | mk c' raised =>
        rw [hevents] at ht hdone
        cases raised with
        | some e => rfl
        | none =>
          have hsaw' : c'.res.sawDone = payloads.any endsStream := hdone rfl
          rw [← hsaw']
          show (if c'.res.sawDone then _ else _) =
            andThen (consumeLines env req _ c') _
          cases hends : c'.res.sawDone with
          | true =>
            show (c', none) = if c'.res.sawDone then _ else _
            rw [hends]
            rfl
          | false => exact ih ht hends fun e => by rw [hends]; rfl

/-! ## The result -/

/-- Concluding changes the wall time and the error only. -/
theorem conclude_kept (r : Client × Option Str) :
    (conclude env req r).summary = { r.1.res.summary with error := (conclude env req r).error } ∧
      (conclude env req r).ttftS = r.1.res.ttftS := by
  obtain ⟨c, raised⟩ := r
  cases raised with
  | some e => exact ⟨rfl, rfl⟩
  | none =>
    simp only [conclude]
    split
    · exact ⟨rfl, rfl⟩
    · split
      · exact ⟨rfl, rfl⟩
      · split <;> exact ⟨rfl, rfl⟩

theorem conclude_ok (r : Client × Option Str) :
    (conclude env req r).ok = true ↔
      r.2 = none ∧ r.1.res.sawDone = true ∧ r.1.res.error = none ∧ r.1.res.usage ≠ none := by
  obtain ⟨c, raised⟩ := r
  rw [StreamResult.ok, Option.isNone_iff_eq_none]
  cases raised with
  | some e => simp [conclude, fail]
  | none =>
    simp only [conclude]
    split
    · next h => simp [fail, h]
    · next h =>
      split
      · next herror => simp [fail, herror]
      · split
        · next husage => simp [fail, husage]
        · next husage =>
          rw [Bool.not_eq_false] at h
          simp [h, husage]

end Client

namespace Client

variable (env : Interp) (req : Request) {c : Client}

/-- The loop over the reads, from the lines up to the first one that raises. -/
theorem consumeReads_spec (closing : Except Str (Option Str))
    (reads : List (Except Str (List Str))) (h : c.res.Timed) (hsaw : c.res.sawDone = false) :
    (consumeReads env req closing reads c).2 =
        ((streamLines (deliveredReads closing reads).1).findSome? (lineRaise env)).or
          (if (deliveredReads closing reads).1.any endsStream then none
          else (deliveredReads closing reads).2) ∧
      (consumeReads env req closing reads c).1.res.Timed ∧
      (consumeReads env req closing reads c).1.res.summary =
        c.res.summary.addAll env req.captureRaw
          (through (raises env) (streamLines (deliveredReads closing reads).1)) := by
  obtain ⟨hraise, ht, hs⟩ := consumeLines_eq env req (streamLines (deliveredReads closing reads).1) h
  have hdone := consumeLines_sawDone env req
    (streamLines (deliveredReads closing reads).1) h hsaw
  rw [streamLines_contains] at hdone
  rw [consumeReads_eq env req closing reads h hsaw, ← hraise, ← Summary.foldl_add]
  cases hlines : consumeLines env req (streamLines (deliveredReads closing reads).1) c with
  | mk c' raised =>
    rw [hlines] at ht hs hdone
    cases raised with
    | some e => exact ⟨rfl, ht, hs⟩
    | none =>
      rw [← hdone rfl, andThen]
      cases hsaw' : c'.res.sawDone with
      | true => exact ⟨rfl, ht, hs⟩
      | false => exact ⟨rfl, ht, hs⟩

end Client

/-- The result before it is concluded. -/
def streamed (env : Interp) (captureRaw : Bool) (status : Int) (delivery : Delivery) :
    Client × Option Str :=
  Client.consumeReads env ⟨env.clock 0, captureRaw⟩ delivery.closing delivery.reads
    ⟨{ StreamResult.new with httpStatus := some status }, 1⟩

section Result

variable (env : Interp) (captureRaw : Bool) (status : Int) (delivery : Delivery)

/-- The lines that are consumed: the last one may raise. -/
def consumedLines : List Str :=
  through (raises env) (streamLines delivery.payloads)

theorem streamed_spec :
    (streamed env captureRaw status delivery).2 =
        ((streamLines delivery.payloads).findSome? (lineRaise env)).or
          (if delivery.payloads.any endsStream then none else delivery.raised) ∧
      (streamed env captureRaw status delivery).1.res.Timed ∧
      (streamed env captureRaw status delivery).1.res.summary =
        StreamResult.new.summary.addAll env captureRaw (consumedLines env delivery) :=
  Client.consumeReads_spec env ⟨env.clock 0, captureRaw⟩ delivery.closing delivery.reads rfl rfl

/-- What the result keeps of the consumed lines. -/
theorem streamResponse_kept :
    (streamResponse env captureRaw status delivery).usage =
        ((consumedLines env delivery).filterMap (lineUsage env)).getLast? ∧
      (streamResponse env captureRaw status delivery).content =
        (consumedLines env delivery).flatMap (lineContent env) ∧
      (streamResponse env captureRaw status delivery).reasoning =
        (consumedLines env delivery).flatMap (lineReasoning env) ∧
      (streamResponse env captureRaw status delivery).rawEvents =
        (consumedLines env delivery).flatMap (lineRaw env captureRaw) ∧
      (streamResponse env captureRaw status delivery).firstFragmentKind =
        (consumedLines env delivery).findSome? (lineKind env) ∧
      (streamResponse env captureRaw status delivery).Timed := by
  obtain ⟨-, ht, hs⟩ := streamed_spec env captureRaw status delivery
  obtain ⟨hkept, httft⟩ := Client.conclude_kept env ⟨env.clock 0, captureRaw⟩
    (streamed env captureRaw status delivery)
  rw [hs] at hkept
  refine ⟨?_, congrArg Summary.content hkept, congrArg Summary.reasoning hkept,
    congrArg Summary.rawEvents hkept, ?_, ?_⟩
  · exact (congrArg Summary.usage hkept).trans (Option.or_none)
  · exact (congrArg Summary.firstFragmentKind hkept).trans (Option.none_or)
  · have hkind : (streamResponse env captureRaw status delivery).firstFragmentKind =
        (streamed env captureRaw status delivery).1.res.firstFragmentKind :=
      (congrArg Summary.firstFragmentKind hkept).trans
        (congrArg Summary.firstFragmentKind hs).symm
    rw [StreamResult.Timed, hkind]
    exact (congrArg Option.isSome httft).trans ht

end Result

section Meaning

variable {env : Interp} {line : Str} {lines : List Str}

theorem any_endsStream {payloads : List Str} :
    payloads.any endsStream = true ↔
      ∃ payload ∈ payloads, doneSentinel ∈ payloadLines payload := by
  simp [endsStream]

theorem lineUsage_eq_some {usage : Usage} :
    lineUsage env line = some usage ↔ Reports env line usage := by
  unfold lineUsage Reports
  rw [Option.bind_eq_some_iff]
  have htoOption : ∀ x : Except UsageFault Usage, x.toOption = some usage ↔ x = .ok usage := by
    intro x
    cases x <;> simp [Except.toOption]
  simp only [htoOption]

theorem getLast?_filterMap_ne_none :
    (lines.filterMap (lineUsage env)).getLast? ≠ none ↔
      ∃ line ∈ lines, ∃ usage, Reports env line usage := by
  rw [Ne, List.getLast?_eq_none_iff, List.filterMap_eq_nil_iff]
  push Not
  simp only [Option.ne_none_iff_exists', lineUsage_eq_some]

theorem usageRaise_eq_none_of_lineRaise {evt : List (Str × Value)}
    (h : lineRaise env line = none) (hobject : objectOf env line = some evt) :
    usageRaise env evt = none := by
  unfold objectOf at hobject
  unfold lineRaise at h
  split at hobject
  · cases hobject
  · next hdone =>
    rw [if_neg hdone] at h
    split at hobject
    · next evt' hload =>
      rw [Option.some.injEq] at hobject
      subst hobject
      rw [hload] at h
      exact (Option.or_eq_none_iff.mp h).1
    · cases hobject

theorem lineInvalid_iff (h : lineRaise env line = none) :
    lineInvalid env line = true ↔ Misreports env line := by
  unfold lineInvalid Misreports
  cases hobject : objectOf env line with
  | none => simp
  | some evt =>
    have hraise := usageRaise_eq_none_of_lineRaise h hobject
    unfold usageRaise at hraise
    rw [Option.any_some, invalidUsage]
    cases hnone : (Value.field evt "usage").isNone with
    | true =>
      have hvalue := Value.isNone_iff.mp hnone
      simp [hvalue]
    | false =>
      have hvalue : Value.field evt "usage" ≠ .none := by
        intro hv
        rw [Value.isNone_iff.mpr hv] at hnone
        cases hnone
      simp only [hnone, Bool.false_eq_true, if_false] at hraise
      cases hvalid : validateUsageObject env (Value.field evt "usage") with
      | ok usage => simp [hvalid]
      | error fault =>
        cases fault with
        | invalid detail => simp [hvalid, hvalue]
        | raised e =>
          rw [hvalid] at hraise
          cases hraise

theorem lineUnparseable_eq_false_iff (h : lineRaise env line = none) :
    lineUnparseable env line = false ↔ line = doneSentinel ∨ Parses env line := by
  unfold lineUnparseable Parses
  unfold lineRaise at h
  by_cases hdone : line = doneSentinel
  · simp [hdone]
  · rw [if_neg hdone] at h
    cases hload : env.loads line with
    | ok value => simp
    | error fault =>
      cases fault with
      | decode detail => simp [hdone]
      | other e =>
        rw [hload] at h
        cases h

/-- No fragment came exactly when both texts are empty. -/
theorem findSome?_lineKind_eq_none :
    lines.findSome? (lineKind env) = none ↔
      lines.flatMap (lineContent env) = [] ∧ lines.flatMap (lineReasoning env) = [] := by
  rw [List.findSome?_eq_none_iff, List.flatMap_eq_nil_iff, List.flatMap_eq_nil_iff,
    ← forall₂_and]
  refine forall₂_congr fun line _ => ?_
  unfold lineKind kindOf lineContent lineReasoning
  split
  · next hc => simp [hc]
  · next hc =>
    rw [not_not] at hc
    split
    · next hr => simp [hr]
    · next hr =>
      rw [not_not] at hr
      simp [hc, hr]

theorem errorAfter_none (invalid unparseable : Bool) :
    errorAfter invalid unparseable none = none ↔ invalid = false ∧ unparseable = false := by
  cases invalid <;> cases unparseable <;> decide

end Meaning

/-- A result is ok exactly when the stream ended, all its lines were read without an exception
and the usage was there and valid; and what it holds comes from the lines that were consumed,
which are all when none raises. -/
theorem streamResponse_ok_iff (env : Interp) (captureRaw : Bool) (status : Int)
    (delivery : Delivery) :
    let res := streamResponse env captureRaw status delivery
    let lines := streamLines delivery.payloads
    let consumed := consumedLines env delivery
    (res.ok = true ↔
      (∃ payload ∈ delivery.payloads, doneSentinel ∈ payloadLines payload) ∧
        (∀ line ∈ lines, line = doneSentinel ∨ Parses env line) ∧
        (∀ line ∈ lines, lineRaise env line = none) ∧
        (∀ line ∈ lines, ¬ Misreports env line) ∧
        ∃ line ∈ lines, ∃ usage, Reports env line usage) ∧
      ((∀ line ∈ lines, lineRaise env line = none) → consumed = lines) ∧
      res.usage = (consumed.filterMap (lineUsage env)).getLast? ∧
      res.content = consumed.flatMap (lineContent env) ∧
      res.reasoning = consumed.flatMap (lineReasoning env) ∧
      (res.ttftS = none ↔ res.content = [] ∧ res.reasoning = []) ∧
      res.firstFragmentKind = consumed.findSome? (lineKind env) := by
  intro res lines consumed
  obtain ⟨hraise, -, hs⟩ := streamed_spec env captureRaw status delivery
  obtain ⟨husage, hcontent, hreasoning, -, hkind, ht⟩ :=
    streamResponse_kept env captureRaw status delivery
  have hconsumed : (∀ line ∈ lines, lineRaise env line = none) → consumed = lines := by
    intro h
    exact Client.through_of_findSome? (List.findSome?_eq_none_iff.mpr h)
  refine ⟨?_, hconsumed, husage, hcontent, hreasoning, ?_, hkind⟩
  · rw [show res.ok = (Client.conclude env ⟨env.clock 0, captureRaw⟩
        (streamed env captureRaw status delivery)).ok from rfl, Client.conclude_ok, hraise]
    have hdone : (streamed env captureRaw status delivery).1.res.sawDone =
        consumed.contains doneSentinel := congrArg Summary.sawDone hs
    have herror : (streamed env captureRaw status delivery).1.res.error =
        errorAfter (consumed.any (lineInvalid env)) (consumed.any (lineUnparseable env)) none :=
      congrArg Summary.error hs
    have husage' : (streamed env captureRaw status delivery).1.res.usage =
        (consumed.filterMap (lineUsage env)).getLast? :=
      (congrArg Summary.usage hs).trans Option.or_none
    rw [hdone, herror, husage', errorAfter_none, Option.or_eq_none_iff,
      List.findSome?_eq_none_iff, getLast?_filterMap_ne_none, List.any_eq_false,
      List.any_eq_false]
    constructor
    · rintro ⟨⟨hnone, -⟩, hsaw, ⟨hinvalid, hparse⟩, hreports⟩
      rw [hconsumed hnone] at hsaw hinvalid hparse hreports
      rw [streamLines_contains, any_endsStream] at hsaw
      refine ⟨hsaw, fun line hline => ?_, hnone, fun line hline => ?_, hreports⟩
      · exact (lineUnparseable_eq_false_iff (hnone line hline)).mp
          (Bool.eq_false_iff.mpr (hparse line hline))
      · rw [← lineInvalid_iff (hnone line hline)]
        exact hinvalid line hline
    · rintro ⟨hends, hparse, hnone, hinvalid, hreports⟩
      rw [hconsumed hnone]
      refine ⟨⟨hnone, ?_⟩, ?_, ⟨fun line hline => ?_, fun line hline => ?_⟩, hreports⟩
      · rw [any_endsStream.mpr hends]
        rfl
      · rw [streamLines_contains]
        exact any_endsStream.mpr hends
      · rw [lineInvalid_iff (hnone line hline)]
        exact hinvalid line hline
      · rw [(lineUnparseable_eq_false_iff (hnone line hline)).mpr (hparse line hline)]
        exact Bool.false_ne_true
  · have httft : res.ttftS = none ↔ res.firstFragmentKind = none := by
      rw [← Option.isNone_iff_eq_none, ← Option.isNone_iff_eq_none, ← Option.not_isSome,
        ← Option.not_isSome]
      exact Eq.congr (congrArg _ ht) rfl
    rw [httft, hkind, hcontent, hreasoning]
    exact findSome?_lineKind_eq_none

end Http
end FlashNext
