import FlashNext.Compare.Prose
import Mathlib.Data.List.Dedup

/-!
# The upstream rounds

`upstreamRate` checks one round of a lane against the lane's fixed protocol and recomputes its
rate; `upstreamMedianRate` asks for five ordered rounds that are different artifacts.
-/

namespace FlashNext
namespace Compare

open Py (Str Value str)

inductive Lane where
  | prose
  | short
  | medium
  | vision
  deriving DecidableEq

def Lane.name : Lane → String
  | .prose => "prose"
  | .short => "short"
  | .medium => "medium"
  | .vision => "vision"

/-- `re.fullmatch(r"[0-9a-f]{n}", value)` of a string. -/
def isHex (n : Nat) : Value → Bool
  | .str s => s.length == n && s.all fun c => (48 ≤ c && c ≤ 57) || (97 ≤ c && c ≤ 102)
  | _ => false

/-- `type(value) is int and value == n`. -/
def isInt (v : Value) (n : Int) : Bool := v.asInt? == some n

/-- A list of `n` values that all pass. -/
def listOf (v : Value) (n : Nat) (p : Value → Bool) : Bool :=
  v.asList?.any fun xs => xs.length == n && xs.all p

/-- The keys of a round, sorted. -/
def upstreamKeys : List String :=
  ["backend", "completed", "duration", "errors", "generated_texts", "input_lens",
    "max_concurrency", "output_lens", "output_throughput", "random_input_len",
    "random_output_len", "total_input_tokens", "total_output_tokens", "ttfts"]

/-- The input and output tokens of each request of a lane. -/
def laneTokens (lane : Lane) : Int × Int :=
  if lane = .short then (512, 256) else (2048, 512)

def checkObserved (lane : Lane) (fields : Fields) : Check Unit := do
  rejectIf (!isText (Value.field fields "usage_source") "observed_oai_sse" ||
      !isText (Value.field fields "finish_source") "observed_oai_sse")
    [.text "upstream rows require observed wire usage and finish evidence"]
  rejectIf (!(Value.field fields "finish_reasons").eqv
      (.list (List.replicate 8 (.str (str "length")))))
    [.text "upstream fixed-output finish reasons are not all length"]
  rejectIf (!listOf (Value.field fields "observed_usage") 8 fun _ => true)
    [.text "upstream observed usage is missing"]
  rejectIf (!listOf (Value.field fields "observed_usage") 8 fun usage =>
      usage.asDict?.any fun usage =>
        isInt (Value.field usage "prompt_tokens") (laneTokens lane).1 &&
          isInt (Value.field usage "completion_tokens") (laneTokens lane).2 &&
          isInt (Value.field usage "total_tokens") ((laneTokens lane).1 + (laneTokens lane).2))
    [.text "upstream observed usage differs from the exact input/output protocol"]
  rejectIf (!listOf (Value.field fields "cached_tokens") 8 (isInt · 0))
    [.text "upstream cold-cache observations are missing or nonzero"]
  rejectIf (!listOf (Value.field fields "request_hashes") 8 (isHex 64))
    [.text "upstream observed request hashes are missing"]

def laneProtocol (lane : Lane) : List (String × Int) :=
  [("random_input_len", (laneTokens lane).1), ("random_output_len", (laneTokens lane).2),
    ("max_concurrency", 1), ("total_input_tokens", 8 * (laneTokens lane).1),
    ("total_output_tokens", 8 * (laneTokens lane).2)]

def checkProtocol (variant : String) (lane : Lane) (fields : Fields) : Check Unit := do
  (laneProtocol lane).forM fun (key, expected) =>
    rejectIf (!isInt (Value.field fields key) expected)
      [.text variant, .text ": ", .text lane.name, .text " protocol mismatch in ", .text key]
  rejectIf (!isText (Value.field fields "backend") "sglang-oai")
    [.text "upstream backend is not the frozen sglang-oai protocol"]
  [("input_lens", (laneTokens lane).1), ("output_lens", (laneTokens lane).2)].forM
    fun (key, value) => rejectIf (!listOf (Value.field fields key) 8 (isInt · value))
      [.text variant, .text ": per-request ", .text key, .text " mismatch"]

def checkRequests (variant : String) (fields : Fields) : Check Unit := do
  rejectIf (!(Value.field fields "errors").eqv (.list (List.replicate 8 (.str []))) ||
      !listOf (Value.field fields "generated_texts") 8 fun text =>
        text.asStr?.any fun s => !s.isEmpty)
    [.text variant, .text ": incomplete or failed upstream requests"]
  rejectIf (!listOf (Value.field fields "ttfts") 8 fun _ => true)
    [.text "upstream request timing count mismatch"]
  ((Value.field fields "ttfts").asList?.getD []).forM fun ttft => do
    let _ ← requireFinitePositive ttft [.text "upstream ttft"]

/-- Tokens for each second, which the stated throughput has to agree with. -/
def checkRate (fields : Fields) : Check ℚ := do
  let duration ← requireFinitePositive (Value.field fields "duration") [.text "duration"]
  let rate := intOf (Value.field fields "total_output_tokens") / duration
  let stated ← requireFinitePositive (Value.field fields "output_throughput")
    [.text "output_throughput"]
  rejectIf (disagrees (2 / 100) rate (.finite stated))
    [.text "upstream output_throughput disagrees with tokens/duration"]
  return rate

/-- `_upstream_rate`. -/
def upstreamRate (variant : String) (lane : Lane) (row : Value) : Check ℚ := do
  rejectIf (lane != .short && lane != .medium) [.text "unknown upstream lane or malformed row"]
  let fields ← orReject row.asDict? [.text "unknown upstream lane or malformed row"]
  rejectIf (!(missingKeys fields upstreamKeys).isEmpty)
    [.text variant, .text ": missing keys ", .keys (missingKeys fields upstreamKeys)]
  rejectIf (!isInt (Value.field fields "completed") 8)
    [.text variant, .text ": completed=", .value (Value.field fields "completed"),
      .text ", expected 8"]
  checkObserved lane fields
  checkProtocol variant lane fields
  checkRequests variant fields
  checkRate fields

/-- `item["row"]`. -/
def detailRow (detail : Value) : Check Value := do
  let fields ← Effect.orRaise detail.asDict? (.raised "TypeError")
  item fields "row"

def upstreamMedianRate (variant : String) (lane : Lane) (rounds : Nat) (detail : List Value) :
    Check ℚ := do
  rejectIf (detail.length != rounds)
    [.text variant, .text ": upstream has ", .number detail.length,
      .text " measured rounds, expected ", .number rounds]
  let rows ← detail.mapM detailRow
  let fields ← rows.mapM dictOf
  let repeats := fields.map fun fields => Value.field fields "repeat"
  rejectIf (repeats != (List.range rounds).map fun n : Nat => .int n)
    [.text variant, .text ": ", .text lane.name,
      .text " repeat identities must be ordered unique 0..", .number ((rounds : ℚ) - 1)]
  let identities := fields.map fun fields => Value.field fields "native_result_sha256"
  rejectIf (!identities.all (isHex 64))
    [.text variant, .text ": ", .text lane.name,
      .text " native result identities are missing or malformed"]
  rejectIf (identities.dedup.length != rounds)
    [.text variant, .text ": ", .text lane.name, .text " reuses the same native result artifact"]
  let rates ← rows.mapM (upstreamRate variant lane)
  median rates

/-! ## What the checks establish -/

/-- Output tokens for each second of the round. -/
def upstreamRateOf (row : Value) : ℚ :=
  intOf (Value.field (fieldsOf row) "total_output_tokens") /
    (number? (Value.field (fieldsOf row) "duration")).getD 0

/-- The row of a round's detail. -/
def detailRowOf (detail : Value) : Value := Value.field (fieldsOf detail) "row"

/-- The rounds are the repeats in their order and no two are one artifact. -/
structure UpstreamEvidence (rounds : Nat) (detail : List Value) : Prop where
  repeats : (detail.map fun d => Value.field (fieldsOf (detailRowOf d)) "repeat") =
    (List.range rounds).map fun n : Nat => .int n
  identities : ∀ d ∈ detail,
    isHex 64 (Value.field (fieldsOf (detailRowOf d)) "native_result_sha256") = true
  distinct : (detail.map fun d =>
    Value.field (fieldsOf (detailRowOf d)) "native_result_sha256").Nodup

theorem isInt_iff {v : Value} {n : Int} : isInt v n = true ↔ v = .int n := by
  rw [isInt, beq_iff_eq, Value.asInt?_eq_some]

theorem laneTokens_pos (lane : Lane) : 0 < 8 * (laneTokens lane).2 := by
  unfold laneTokens
  split <;> decide

theorem upstreamRate_ok {variant : String} {lane : Lane} {row : Value} {rate : ℚ}
    (h : upstreamRate variant lane row = .ok rate) : rate = upstreamRateOf row ∧ 0 < rate := by
  simp only [upstreamRate, Effect.bind_ok, rejectIf_ok, orReject_ok, Value.asDict?_eq_some] at h
  obtain ⟨-, -, fields, rfl, -, -, -, -, -, -, _, hprotocol, -, -, hrate⟩ := h
  simp only [checkProtocol, Effect.bind_ok] at hprotocol
  obtain ⟨_, hfields, -⟩ := hprotocol
  have htotal := Effect.forM_ok.mp hfields ("total_output_tokens", 8 * (laneTokens lane).2)
    (by simp [laneProtocol])
  rw [rejectIf_ok, Bool.not_eq_false', isInt_iff] at htotal
  simp only [checkRate, Effect.bind_ok, requireFinitePositive_ok, rejectIf_ok, Effect.pure_ok,
    htotal] at hrate
  obtain ⟨duration, ⟨⟨hduration, hpos⟩, -⟩, -, -, -, -, rfl⟩ := hrate
  refine ⟨?_, ?_⟩
  · show (intOf (.int _) : ℚ) / duration =
      intOf (Value.field fields "total_output_tokens") /
        (number? (Value.field fields "duration")).getD 0
    rw [htotal, hduration]
    rfl
  · have htokens : (0 : ℚ) < intOf (.int (8 * (laneTokens lane).2)) := by
      show (0 : ℚ) < ((8 * (laneTokens lane).2 : Int) : ℚ)
      exact_mod_cast laneTokens_pos lane
    exact div_pos htokens hpos

theorem detailRow_ok {detail row : Value} (h : detailRow detail = .ok row) :
    row = detailRowOf detail := by
  simp only [detailRow, Effect.bind_ok, Effect.orRaise_ok, Value.asDict?_eq_some, item_ok] at h
  obtain ⟨fields, rfl, hrow⟩ := h
  exact (field_of_lookup hrow).symm

theorem nodup_of_dedup {xs : List Value} (h : xs.dedup.length = xs.length) : xs.Nodup :=
  List.dedup_eq_self.mp ((List.dedup_sublist xs).eq_of_length h)

theorem upstreamMedianRate_ok {variant : String} {lane : Lane} {rounds : Nat}
    {detail : List Value} {m : ℚ}
    (h : upstreamMedianRate variant lane rounds detail = .ok m) :
    UpstreamEvidence rounds detail ∧
      m = medianOf (detail.map fun d => upstreamRateOf (detailRowOf d)) ∧ 0 < m := by
  simp only [upstreamMedianRate, Effect.bind_ok, rejectIf_ok] at h
  obtain ⟨-, hlength, rows, hrows, fields, hfields, -, hrepeats, -, hhex, -, hdedup, rates, hrates,
    hmedian⟩ := h
  rw [bne_eq_false_iff_eq] at hlength hrepeats hdedup
  rw [Bool.not_eq_false', List.all_eq_true] at hhex
  obtain rfl := Effect.mapM_eq_map (fun _ _ => detailRow_ok) hrows
  have hdict (row : Value) (fs : Fields) (hrow : dictOf row = .ok fs) : fs = fieldsOf row := by
    rw [dictOf_ok.mp hrow]
    rfl
  obtain rfl := Effect.mapM_eq_map hdict hfields
  have hpositive : ∀ rate ∈ rates, 0 < rate := by
    intro rate hrate
    obtain ⟨row, -, hrow⟩ := Effect.forall₂_exists_left (Effect.mapM_ok.mp hrates) rate hrate
    exact (upstreamRate_ok hrow).2
  obtain rfl := Effect.mapM_eq_map (fun _ _ hrow => (upstreamRate_ok hrow).1) hrates
  rw [List.map_map, List.map_map] at hrepeats hhex hdedup
  have hnodup := nodup_of_dedup (hdedup.trans (by rw [List.length_map, hlength]))
  have hm := median_ok hmedian
  refine ⟨⟨hrepeats, fun d hd => ?_, hnodup⟩, ?_, ?_⟩
  · exact hhex _ (List.mem_map.mpr ⟨d, hd, rfl⟩)
  · rw [hm, List.map_map]
    rfl
  · rw [hm]
    refine medianOf_pos (fun hnil => ?_) hpositive
    rw [hnil] at hmedian
    cases hmedian

end Compare
end FlashNext
