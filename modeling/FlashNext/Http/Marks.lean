import FlashNext.Http.Admission

/-!
# The marks that events overwrite

The model and the finish reason of a result are slots that every event may overwrite.  After
the stream each holds what the last of the consumed lines wrote to it.
-/

namespace FlashNext
namespace Http

open Text Py

/-- The slots that events overwrite. -/
structure Marks where
  modelReported : Option Str
  finishReason : Option Str
  deriving DecidableEq

def StreamResult.marks (res : StreamResult) : Marks := ⟨res.modelReported, res.finishReason⟩

section

variable (env : Interp)

/-- The model that a line names. -/
def lineModel (line : Str) : Option Str :=
  (objectOf env line).bind fun evt => (Value.field evt "model").asStr?

/-- The text of a finish reason. -/
def finishText (choice : List (Str × Value)) : Option Str :=
  let finish := Value.field choice "finish_reason"
  if finish.truthy then (env.text finish).toOption else none

/-- The finish reason of an object, which is not reached when something is raised before. -/
def objectFinish (evt : List (Str × Value)) : Option Str :=
  if (usageRaise env evt).isSome then none
  else
    match choiceOf evt with
    | .ok (some choice) => finishText env choice
    | _ => none

def lineFinish (line : Str) : Option Str := (objectOf env line).bind (objectFinish env)

end

/-- What a line writes to the slots. -/
def Marks.add (env : Interp) (m : Marks) (line : Str) : Marks :=
  ⟨(lineModel env line).or m.modelReported, (lineFinish env line).or m.finishReason⟩

namespace Client

section

variable {elapsed : ℚ} {piece : Str} {res : StreamResult}

theorem startTokens_marks {kind : FragmentKind} :
    (startTokens kind elapsed res).marks = res.marks := by
  unfold startTokens
  split <;> rfl

theorem addContent_marks : (addContent elapsed piece res).marks = res.marks := by
  unfold addContent
  split
  · rfl
  · exact startTokens_marks

theorem addReasoning_marks : (addReasoning elapsed piece res).marks = res.marks := by
  unfold addReasoning
  split
  · rfl
  · exact startTokens_marks

end

variable (env : Interp) (req : Request) {c : Client} (evt : List (Str × Value))

theorem noteFinish_marks (choice : List (Str × Value)) :
    (noteFinish env choice c).1.res.marks =
      ⟨c.res.modelReported, (finishText env choice).or c.res.finishReason⟩ := by
  unfold noteFinish finishText
  by_cases hfinish : (Value.field choice "finish_reason").truthy = true
  · simp only [if_pos hfinish]
    cases env.text (Value.field choice "finish_reason") with
    | ok text => rfl
    | error e => rfl
  · simp only [if_neg hfinish]
    rfl

/-- The choices of an event write the finish reason of the first one. -/
theorem consumeChoices_marks : (consumeChoices env req evt c).1.res.marks =
    ⟨c.res.modelReported, (match choiceOf evt with
      | .ok (some choice) => finishText env choice
      | _ => none).or c.res.finishReason⟩ := by
  unfold consumeChoices choiceOf
  by_cases hchoices : ((Value.field evt "choices").orElse (.list [])).truthy = true
  · simp only [if_pos hchoices]
    cases ((Value.field evt "choices").orElse (.list [])).firstItem with
    | error e => rfl
    | ok item =>
      have hfinish := noteFinish_marks env (c := c) (fieldsOf item)
      simp only [Except.map]
      cases hnote : noteFinish env (fieldsOf item) c with
      | mk c' raised =>
        rw [hnote] at hfinish
        cases raised with
        | some e => exact hfinish
        | none => exact (addReasoning_marks.trans addContent_marks).trans hfinish
  · simp only [if_neg hchoices]
    rfl

theorem noteUsage_marks : (noteUsage env evt c).1.res.marks = c.res.marks := by
  unfold noteUsage
  dsimp only
  split
  · rfl
  · split <;> rfl

theorem consumeObject_marks (h : c.res.Timed) : (consumeObject env req evt c).1.res.marks =
    ⟨(Value.field evt "model").asStr?.or c.res.modelReported,
      (objectFinish env evt).or c.res.finishReason⟩ := by
  have hmodel : (noteObject req evt c).res.marks =
      ⟨(Value.field evt "model").asStr?.or c.res.modelReported, c.res.finishReason⟩ := rfl
  obtain ⟨hraise, -, -⟩ := noteUsage_eq env evt (c := noteObject req evt c) h
  have husage := noteUsage_marks env (c := noteObject req evt c) evt
  rw [hmodel] at husage
  unfold consumeObject objectFinish
  rw [← hraise]
  cases hnote : noteUsage env evt (noteObject req evt c) with
  | mk c' raised =>
    rw [hnote] at husage
    cases raised with
    | some e => exact husage
    | none =>
      have hmodel' : c'.res.modelReported = _ := congrArg Marks.modelReported husage
      have hfinish' : c'.res.finishReason = _ := congrArg Marks.finishReason husage
      show (consumeChoices env req evt c').1.res.marks = _
      rw [consumeChoices_marks, hmodel', hfinish']
      rfl

/-- What one line writes to the slots, whatever came before it. -/
theorem consumeLine_marks (line : Str) (h : c.res.Timed) :
    (consumeLine env req line c).1.res.marks = c.res.marks.add env line := by
  have hquiet : objectOf env line = none → c.res.marks.add env line = c.res.marks := by
    intro hobject
    rw [Marks.add, lineModel, lineFinish, hobject]
    rfl
  unfold consumeLine
  by_cases hdone : line = doneSentinel
  · rw [if_pos hdone, hquiet (if_pos hdone)]
    rfl
  · rw [if_neg hdone]
    cases hload : env.loads line with
    | error fault =>
      rw [hquiet (by rw [objectOf, if_neg hdone, hload])]
      cases fault with
      | decode detail =>
        show (unparseable line detail c).res.marks = _
        unfold unparseable
        dsimp only
        split <;> rfl
      | other e => rfl
    | ok value =>
      cases value with
      | dict evt =>
        have hobject : objectOf env line = some evt := by
          rw [objectOf, if_neg hdone, hload]
        rw [Marks.add, lineModel, lineFinish, hobject]
        exact consumeObject_marks env req evt h
      | _ =>
        rw [hquiet (by rw [objectOf, if_neg hdone, hload])]

theorem consumeLines_marks (lines : List Str) (h : c.res.Timed) :
    (consumeLines env req lines c).1.res.marks =
      (through (raises env) lines).foldl (Marks.add env) c.res.marks := by
  induction lines generalizing c with
  | nil => rfl
  | cons line lines ih =>
    obtain ⟨hraise, ht, -⟩ := consumeLine_eq env req line h
    have hmarks := consumeLine_marks env req line h
    rw [consumeLines, through, raises, ← hraise]
    cases hline : consumeLine env req line c with
    | mk c' raised =>
      rw [hline] at ht hmarks
      cases raised with
      | some e => exact hmarks
      | none =>
        show (consumeLines env req lines c').1.res.marks = _
        rw [ih ht, hmarks]
        rfl

theorem consumeReads_marks (closing : Except Str (Option Str))
    (reads : List (Except Str (List Str))) (h : c.res.Timed) (hsaw : c.res.sawDone = false) :
    (consumeReads env req closing reads c).1.res.marks =
      (through (raises env) (streamLines (deliveredReads closing reads).1)).foldl (Marks.add env)
        c.res.marks := by
  have hlines := consumeLines_marks env req (streamLines (deliveredReads closing reads).1) h
  rw [consumeReads_eq env req closing reads h hsaw]
  cases hrun : consumeLines env req (streamLines (deliveredReads closing reads).1) c with
  | mk c' raised =>
    rw [hrun] at hlines
    cases raised with
    | some e => exact hlines
    | none =>
      refine Eq.trans ?_ hlines
      unfold andThen
      dsimp only
      split <;> rfl

end Client

/-- Each slot holds the last that was written. -/
theorem Marks.foldl_add (env : Interp) (lines : List Str) (m : Marks) :
    lines.foldl (Marks.add env) m =
      ⟨(lines.filterMap (lineModel env)).getLast?.or m.modelReported,
        (lines.filterMap (lineFinish env)).getLast?.or m.finishReason⟩ := by
  induction lines generalizing m with
  | nil => rfl
  | cons line lines ih =>
    rw [List.foldl_cons, ih, getLast?_filterMap_cons, getLast?_filterMap_cons]
    rfl

section Result

variable (env : Interp) (captureRaw : Bool) (status : Int) (delivery : Delivery)

theorem streamed_marks : (streamed env captureRaw status delivery).1.res.marks =
    ⟨((consumedLines env delivery).filterMap (lineModel env)).getLast?,
      ((consumedLines env delivery).filterMap (lineFinish env)).getLast?⟩ := by
  have hmarks : (streamed env captureRaw status delivery).1.res.marks =
      (consumedLines env delivery).foldl (Marks.add env) ⟨none, none⟩ :=
    Client.consumeReads_marks env ⟨env.clock 0, captureRaw⟩ delivery.closing delivery.reads rfl rfl
  rw [hmarks, Marks.foldl_add, Option.or_none, Option.or_none]

/-- Concluding leaves the slots alone. -/
theorem streamResponse_marks : (streamResponse env captureRaw status delivery).marks =
    ⟨((consumedLines env delivery).filterMap (lineModel env)).getLast?,
      ((consumedLines env delivery).filterMap (lineFinish env)).getLast?⟩ := by
  refine Eq.trans ?_ (streamed_marks env captureRaw status delivery)
  show (Client.conclude env ⟨env.clock 0, captureRaw⟩ (streamed env captureRaw status
    delivery)).marks = _
  cases streamed env captureRaw status delivery with
  | mk c raised =>
    cases raised with
    | some e => rfl
    | none =>
      unfold Client.conclude Client.fail
      dsimp only
      split_ifs <;> rfl

end Result

end Http
end FlashNext
