import FlashNext.Http.Completion

/-!
# What a request without streaming keeps of its response

The text of a body is kept exactly when the document in it has the shape at which the client
reads it: an object whose choices are missing or empty, or a list that begins with an object,
and for a chat an object for the message in that.  A stage of the reading raises or leaves the
kept text as it is.
-/

namespace FlashNext
namespace Http

open Text Py Effect

theorem getField_ok {value x : Value} {key : String} :
    getField value key = .ok x ↔ ∃ fs, value = .dict fs ∧ Value.field fs key = x := by
  unfold getField
  cases value with
  | dict fs =>
    show Except.ok (Value.field fs key) = .ok x ↔ _
    rw [Except.ok.injEq]
    constructor
    · intro h
      exact ⟨fs, rfl, h⟩
    · rintro ⟨gs, hgs, h⟩
      rw [Value.dict.injEq] at hgs
      exact hgs ▸ h
  | _ =>
    constructor
    · intro h
      cases h
    · rintro ⟨_, h, _⟩
      cases h

@[simp] theorem getField_dict (fs : List (Str × Value)) (key : String) :
    getField (.dict fs) key = .ok (Value.field fs key) := rfl

/-! ## The choice -/

/-- A value that `value or {}` makes a dictionary. -/
def DictOrFalsy (value : Value) : Prop := value.truthy = true → ∃ fs, value = .dict fs

theorem orElse_dict {value : Value} :
    (∃ fs, value.orElse (.dict []) = .dict fs) ↔ DictOrFalsy value := by
  unfold Value.orElse DictOrFalsy
  by_cases h : value.truthy = true
  · rw [if_pos h]
    exact ⟨fun hd _ => hd, fun hd => hd h⟩
  · rw [if_neg h]
    exact ⟨fun _ ht => absurd ht h, fun _ => ⟨[], rfl⟩⟩

/-- A choice that can be read. -/
def ChoiceReadable (kind : Kind) (choice : Value) : Prop :=
  ∃ fs, choice = .dict fs ∧ (kind = .chat → DictOrFalsy (Value.field fs "message"))

theorem takeMessage_keeps {msg : Value} {res res' : CompletionResult}
    (h : takeMessage msg res = .ok res') : res'.rawBody = res.rawBody := by
  simp only [takeMessage, bind_ok, pure_ok] at h
  obtain ⟨_, _, _, _, _, _, rfl⟩ := h
  rfl

theorem takeMessage_returns {msg : Value} {res : CompletionResult} :
    (∃ res', takeMessage msg res = .ok res') ↔ ∃ fs, msg = .dict fs := by
  constructor
  · rintro ⟨res', h⟩
    rw [takeMessage, bind_ok] at h
    obtain ⟨content, hcontent, -⟩ := h
    obtain ⟨fs, hfs, -⟩ := getField_ok.mp hcontent
    exact ⟨fs, hfs⟩
  · rintro ⟨fs, hfs⟩
    subst hfs
    exact ⟨_, rfl⟩

theorem takeChoice_keeps {kind : Kind} {choice : Value} {res res' : CompletionResult}
    (h : takeChoice kind choice res = .ok res') : res'.rawBody = res.rawBody := by
  rw [takeChoice, bind_ok] at h
  obtain ⟨finishReason, -, h⟩ := h
  cases kind with
  | chat =>
    obtain ⟨msg, -, h⟩ := bind_ok.mp h
    exact (takeMessage_keeps h).trans rfl
  | completions =>
    obtain ⟨text, -, h⟩ := bind_ok.mp h
    obtain rfl := pure_ok.mp h
    rfl

theorem takeChoice_returns {kind : Kind} {choice : Value} {res : CompletionResult} :
    (∃ res', takeChoice kind choice res = .ok res') ↔ ChoiceReadable kind choice := by
  constructor
  · rintro ⟨res', h⟩
    rw [takeChoice, bind_ok] at h
    obtain ⟨finishReason, hfinish, h⟩ := h
    obtain ⟨fs, rfl, -⟩ := getField_ok.mp hfinish
    refine ⟨fs, rfl, fun hkind => ?_⟩
    subst hkind
    exact orElse_dict.mp (takeMessage_returns.mp ⟨res', h⟩)
  · rintro ⟨fs, hfs, hmsg⟩
    subst hfs
    cases kind with
    | completions => exact ⟨_, rfl⟩
    | chat => exact takeMessage_returns.mpr (orElse_dict.mpr (hmsg rfl))

/-! ## The usage -/

/-- No exception but the expected one comes from the check of the usage. -/
def UsageReadable (env : Interp) (usage : Value) : Prop :=
  usage ≠ .none → ∀ e, validateUsageObject env usage ≠ .error (.raised e)

theorem addUsage_returns {env : Interp} {usage : Value} {res : CompletionResult} :
    (∃ res', addUsage env usage res = .ok res') ↔ UsageReadable env usage := by
  unfold addUsage UsageReadable
  by_cases hnone : usage = .none
  · subst hnone
    exact ⟨fun _ h => absurd rfl h, fun _ => ⟨_, rfl⟩⟩
  · rw [if_neg (mt Value.isNone_iff.mp hnone)]
    cases hcheck : validateUsageObject env usage with
    | ok u =>
      refine ⟨fun _ _ e he => ?_, fun _ => ⟨_, rfl⟩⟩
      cases he
    | error fault =>
      cases fault with
      | invalid detail =>
        refine ⟨fun _ _ e he => ?_, fun _ => ⟨_, rfl⟩⟩
        rw [Except.error.injEq] at he
        cases he
      | raised e =>
        constructor
        · rintro ⟨res', h⟩
          cases h
        · intro h
          exact absurd rfl (h hnone e)

/-- The text stays, and without an error the usage was accepted. -/
theorem addUsage_keeps {env : Interp} {usage : Value} {res res' : CompletionResult}
    (h : addUsage env usage res = .ok res') :
    res'.rawBody = res.rawBody ∧
      (res'.error = none → ∃ u, validateUsageObject env usage = .ok u) := by
  unfold addUsage at h
  by_cases hnone : usage.isNone = true
  · rw [if_pos hnone, Except.ok.injEq] at h
    subst h
    refine ⟨rfl, fun herror => ?_⟩
    cases herror
  · rw [if_neg hnone] at h
    cases hcheck : validateUsageObject env usage with
    | ok u =>
      rw [hcheck, Except.ok.injEq] at h
      subst h
      exact ⟨rfl, fun _ => ⟨u, rfl⟩⟩
    | error fault =>
      rw [hcheck] at h
      cases fault with
      | invalid detail =>
        rw [Except.ok.injEq] at h
        subst h
        refine ⟨rfl, fun herror => ?_⟩
        cases herror
      | raised e => cases h

/-! ## The document -/

/-- A document that can be read. -/
def DocumentReadable (env : Interp) (kind : Kind) (data : Value) : Prop :=
  ∃ fs, data = .dict fs ∧ ((Value.field fs "choices").truthy = true →
    (∃ choice rest, Value.field fs "choices" = .list (choice :: rest) ∧
      ChoiceReadable kind choice) ∧
    UsageReadable env (Value.field fs "usage"))

/-- A document with choices and an accepted usage. -/
def Accounted (env : Interp) (data : Value) : Prop :=
  ∃ fs choices u, data = .dict fs ∧ Value.field fs "choices" = .list choices ∧ choices ≠ [] ∧
    validateUsageObject env (Value.field fs "usage") = .ok u

theorem orElse_truthy {value : Value} (h : value.truthy = true) (default : Value) :
    value.orElse default = value := if_pos h

theorem orElse_falsy {value : Value} (h : value.truthy = false) (default : Value) :
    value.orElse default = default := by
  unfold Value.orElse
  rw [h]
  rfl

/-- Only a list has a first item that is a dictionary. -/
theorem firstItem_readable {kind : Kind} {choices : Value} :
    (∃ choice, choices.firstItem = .ok choice ∧ ChoiceReadable kind choice) ↔
      ∃ choice rest, choices = .list (choice :: rest) ∧ ChoiceReadable kind choice := by
  constructor
  · rintro ⟨choice, hfirst, hread⟩
    cases choices with
    | list items =>
      cases items with
      | nil => cases hfirst
      | cons item rest =>
        rw [Value.firstItem, Except.ok.injEq] at hfirst
        exact ⟨choice, rest, by rw [hfirst], hread⟩
    | str s =>
      cases s with
      | nil => cases hfirst
      | cons c s =>
        rw [Value.firstItem, Except.ok.injEq] at hfirst
        obtain ⟨fs, hfs, -⟩ := hread
        rw [← hfirst] at hfs
        cases hfs
    | _ => cases hfirst
  · rintro ⟨choice, rest, hchoices, hread⟩
    exact ⟨choice, by rw [hchoices, Value.firstItem], hread⟩

theorem takeModel_returns (fs : List (Str × Value)) (res : CompletionResult) :
    ∃ res', takeModel (.dict fs) res = .ok res' := ⟨_, rfl⟩

theorem takeDocument_returns {env : Interp} {kind : Kind} {data : Value}
    {res : CompletionResult} :
    (∃ res', takeDocument env kind data res = .ok res') ↔ DocumentReadable env kind data := by
  constructor
  · rintro ⟨res', h⟩
    rw [takeDocument, bind_ok] at h
    obtain ⟨choices, hchoices, h⟩ := h
    obtain ⟨fs, rfl, rfl⟩ := getField_ok.mp hchoices
    refine ⟨fs, rfl, fun htruthy => ?_⟩
    rw [orElse_truthy htruthy, takeChoices, htruthy, if_neg (by decide), bind_ok] at h
    obtain ⟨choice, hfirst, h⟩ := h
    rw [bind_ok] at h
    obtain ⟨res₁, hchoice, h⟩ := h
    rw [bind_ok] at h
    obtain ⟨res₂, husage, -⟩ := h
    rw [takeUsage, getField_dict] at husage
    exact ⟨firstItem_readable.mp ⟨choice, hfirst, takeChoice_returns.mp ⟨res₁, hchoice⟩⟩,
      addUsage_returns.mp ⟨res₂, husage⟩⟩
  · rintro ⟨fs, hfs, hread⟩
    subst hfs
    show ∃ res', takeChoices env kind (.dict fs) ((Value.field fs "choices").orElse (.list []))
      res = .ok res'
    by_cases htruthy : (Value.field fs "choices").truthy = true
    · obtain ⟨hchoice, husage⟩ := hread htruthy
      obtain ⟨choice, hfirst, hread⟩ := firstItem_readable.mpr hchoice
      obtain ⟨res₁, h₁⟩ := takeChoice_returns.mpr hread
      obtain ⟨res₂, h₂⟩ : ∃ res₂, addUsage env (Value.field fs "usage") res₁ = .ok res₂ :=
        addUsage_returns.mpr husage
      obtain ⟨res₃, h₃⟩ := takeModel_returns fs res₂
      rw [orElse_truthy htruthy, takeChoices, htruthy, if_neg (by decide)]
      refine ⟨res₃, bind_ok.mpr ⟨choice, hfirst, bind_ok.mpr ⟨res₁, h₁, ?_⟩⟩⟩
      exact bind_ok.mpr ⟨res₂, h₂, h₃⟩
    · rw [Bool.not_eq_true] at htruthy
      rw [orElse_falsy htruthy]
      exact ⟨_, rfl⟩

/-- The text stays, and without an error the document is accounted for. -/
theorem takeDocument_keeps {env : Interp} {kind : Kind} {data : Value}
    {res res' : CompletionResult} (h : takeDocument env kind data res = .ok res') :
    res'.rawBody = res.rawBody ∧ (res'.error = none → Accounted env data) := by
  obtain ⟨fs, rfl, hread⟩ := takeDocument_returns.mp ⟨res', h⟩
  have hchoices : takeChoices env kind (.dict fs)
      ((Value.field fs "choices").orElse (.list [])) res = .ok res' := h
  clear h
  by_cases htruthy : (Value.field fs "choices").truthy = true
  · obtain ⟨⟨choice, rest, hlist, -⟩, -⟩ := hread htruthy
    rw [orElse_truthy htruthy, takeChoices, htruthy, if_neg (by decide), bind_ok] at hchoices
    obtain ⟨_, -, h⟩ := hchoices
    rw [bind_ok] at h
    obtain ⟨res₁, h₁, h⟩ := h
    rw [bind_ok] at h
    obtain ⟨res₂, h₂, h⟩ := h
    have hraw₁ := takeChoice_keeps h₁
    obtain ⟨hraw₂, haccepted⟩ := addUsage_keeps h₂
    rw [takeModel, getField_dict, bind_ok] at h
    obtain ⟨model, -, h⟩ := h
    rw [pure_ok] at h
    subst h
    refine ⟨hraw₂.trans hraw₁, fun herror => ?_⟩
    obtain ⟨u, hu⟩ := haccepted herror
    exact ⟨fs, choice :: rest, u, rfl, hlist, List.cons_ne_nil choice rest, hu⟩
  · rw [Bool.not_eq_true] at htruthy
    rw [orElse_falsy htruthy] at hchoices
    obtain rfl := Except.ok.inj hchoices
    refine ⟨rfl, fun herror => ?_⟩
    cases herror

/-! ## The response -/

/-- The body that an answer delivers. -/
def Answer.body? : Answer → Option Bytes
  | .httpError _ body => body.toOption
  | .raised _ _ => none
  | .response _ body => body.toOption

/-- The answer can be read: the text of an error's body is short, and another body is no JSON
or a document that can be read. -/
def Answer.Readable (env : Interp) (kind : Kind) (body : Bytes) : Answer → Prop
  | .httpError _ _ => (decodeReplace body).length ≤ 5000
  | .raised _ _ => True
  | .response _ _ =>
    (∃ detail, env.loads (decodeReplace body) = .error (.decode detail)) ∨
      ∃ data, env.loads (decodeReplace body) = .ok data ∧ DocumentReadable env kind data

/-- A result that keeps the text of the body, and reports an error unless the document is
accounted for. -/
def KeepsBody (env : Interp) (kind : Kind) (answer : Answer) (body : Bytes) : Prop :=
  ∃ res, jsonRequest env kind answer = .ok res ∧ res.rawBody = decodeReplace body ∧
    (res.error = none → ∃ data, env.loads (decodeReplace body) = .ok data ∧ Accounted env data)

theorem keepsBody_httpError (env : Interp) (kind : Kind) (code : Int) (body : Bytes) :
    KeepsBody env kind (.httpError code (.ok body)) body ↔
      (decodeReplace body).length ≤ 5000 := by
  have hreturns : jsonRequest env kind (.httpError code (.ok body)) =
      .ok { CompletionResult.new with
        wallS := env.clock 1 - env.clock 0
        error := some (.httpStatus code)
        httpStatus := some code
        rawBody := (decodeReplace body).take 5000 } := rfl
  unfold KeepsBody
  rw [hreturns, ← List.take_eq_self_iff]
  constructor
  · rintro ⟨res, hres, hraw, _⟩
    obtain rfl := Except.ok.inj hres
    exact hraw
  · intro htake
    refine ⟨_, rfl, htake, fun herror => ?_⟩
    cases herror

theorem keepsBody_response (env : Interp) (kind : Kind) (status : Int) {body : Bytes}
    (hlen : body.length ≤ maxBody) :
    KeepsBody env kind (.response status (.ok body)) body ↔
      Answer.Readable env kind body (.response status (.ok body)) := by
  unfold KeepsBody Answer.Readable
  have htake : body.take (maxBody + 1) = body := by
    apply List.take_of_length_le
    omega
  simp only [jsonRequest, htake, readBody, if_neg (Nat.not_lt.mpr hlen)]
  cases hloads : env.loads (decodeReplace body) with
  | error fault =>
    cases fault with
    | decode detail =>
      refine ⟨fun _ => .inl ⟨detail, rfl⟩, fun _ => ⟨_, rfl, rfl, fun herror => ?_⟩⟩
      cases herror
    | other e =>
      constructor
      · rintro ⟨res, hres, _⟩
        cases hres
      · intro h
        rcases h with ⟨detail, h⟩ | ⟨data, h, -⟩
        · rw [Except.error.injEq] at h
          cases h
        · cases h
  | ok data =>
    constructor
    · rintro ⟨res, hres, _⟩
      exact .inr ⟨data, rfl, takeDocument_returns.mp ⟨res, hres⟩⟩
    · intro h
      rcases h with ⟨detail, h⟩ | ⟨data', h, hread⟩
      · cases h
      · rw [Except.ok.injEq] at h
        subst h
        obtain ⟨res, hres⟩ := takeDocument_returns.mpr hread
        obtain ⟨hraw, haccounted⟩ := takeDocument_keeps hres
        exact ⟨res, hres, hraw, fun herror => ⟨data, rfl, haccounted herror⟩⟩

/-- A body within the bound is kept exactly when it can be read. -/
theorem body_kept_iff (env : Interp) (kind : Kind) (answer : Answer) (body : Bytes)
    (hbody : answer.body? = some body) (hlen : body.length ≤ maxBody) :
    KeepsBody env kind answer body ↔ answer.Readable env kind body := by
  cases answer with
  | httpError code delivered =>
    cases delivered with
    | error e => cases hbody
    | ok data =>
      rw [Answer.body?, Except.toOption, Option.some.injEq] at hbody
      subst hbody
      exact keepsBody_httpError env kind code data
  | raised timeout detail => cases hbody
  | response status delivered =>
    cases delivered with
    | error e => cases hbody
    | ok data =>
      rw [Answer.body?, Except.toOption, Option.some.injEq] at hbody
      subst hbody
      exact keepsBody_response env kind status hlen

/-- `json.loads` on an empty object, an empty array and texts that are no JSON. -/
def sampleReader : Interp where
  loads line :=
    if line = str "\x7b\x7d" then .ok (.dict [])
    else if line = str "[]" then .ok (.list [])
    else .error (.decode (str "Expecting value: line 1 column 1 (char 0)"))
  text _ := .ok []
  repr _ := .ok []
  clock n := n

def sampleBody (text : String) : Bytes := (str text).map UInt8.ofNat

/-- An object without choices is kept. -/
theorem body_kept_object :
    KeepsBody sampleReader .chat (.response 200 (.ok (sampleBody "\x7b\x7d")))
      (sampleBody "\x7b\x7d") := by
  refine (body_kept_iff sampleReader .chat _ (sampleBody "\x7b\x7d") rfl (by decide)).mpr ?_
  have hbody : decodeReplace (sampleBody "\x7b\x7d") = str "\x7b\x7d" := by decide
  refine .inr ⟨.dict [], ?_, [], rfl, fun htruthy => ?_⟩
  · rw [hbody]
    rfl
  · cases htruthy

/-- An array is lost: the client raises. -/
theorem body_lost_array :
    ¬ ∀ (env : Interp) (kind : Kind) (answer : Answer) (body : Bytes),
      answer.body? = some body → body.length ≤ maxBody → KeepsBody env kind answer body := by
  intro h
  obtain ⟨res, hres, -⟩ := h sampleReader .completions
    (.response 200 (.ok (sampleBody "[]"))) (sampleBody "[]") rfl (by decide)
  have hraises : jsonRequest sampleReader .completions
      (.response 200 (.ok (sampleBody "[]"))) =
      .error (str "'list' object has no attribute 'get'") := by
    decide
  rw [hraises] at hres
  cases hres

end Http
end FlashNext
