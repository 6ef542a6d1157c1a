import FlashNext.Compare.ProseHandled

/-!
# The lanes that the reducer handles

The upstream rounds, the vision rows and the metric of a vision lever up to the first refusal, and
what the checks need of them.
-/

namespace FlashNext
namespace Compare

open Py (Str Value str)

/-! ## The upstream rounds -/

theorem closed_checkObserved {lane : Lane} {fields : Fields} :
    Closed (checkObserved lane fields) := by
  simp [checkObserved, closed_seq]

theorem closed_checkProtocol {variant : String} {lane : Lane} {fields : Fields} :
    Closed (checkProtocol variant lane fields) := by
  rw [checkProtocol, closed_seq, closed_forM]
  refine ⟨?_, fun _ => ?_⟩
  · simp [laneProtocol, UpTo]
  · rw [closed_seq, closed_forM]
    simp [UpTo]

/-- The eight requests of the round succeeded with a text, and there are eight timings. -/
def answered (fields : Fields) : Bool :=
  ((Value.field fields "errors").eqv (.list (List.replicate 8 (.str []))) &&
    listOf (Value.field fields "generated_texts") 8 fun text => text.asStr?.any fun s => !s.isEmpty) &&
    listOf (Value.field fields "ttfts") 8 fun _ => true

def ttftsOf (fields : Fields) : List Value := (Value.field fields "ttfts").asList?.getD []

theorem closed_checkRequests {variant : String} {fields : Fields} :
    Closed (checkRequests variant fields) ↔
      (answered fields = true → UpTo positive (fun ttft => usable ttft = true) (ttftsOf fields)) := by
  have httft : ([.text "upstream ttft"] : List Piece).all Piece.prints = true := rfl
  have hloop : Closed ((ttftsOf fields).forM fun ttft => do
      let _ ← requireFinitePositive ttft [.text "upstream ttft"]) ↔
      UpTo positive (fun ttft => usable ttft = true) (ttftsOf fields) := by
    rw [closed_forM]
    refine UpTo.congr (fun ttft _ => ?_) fun ttft _ husable => ?_
    · rw [closed_bind, closed_requireFinitePositive httft]
      exact and_iff_left fun _ _ => closed_pure _
    · rw [usable, Bool.and_eq_true] at husable
      rw [← and_iff_left (a := positive ttft) husable.1,
        ← passes_requireFinitePositive ttft [.text "upstream ttft"]]
      constructor
      · rintro ⟨u, hu⟩
        obtain ⟨q, hq, -⟩ := Effect.bind_ok.mp hu
        exact ⟨q, hq⟩
      · rintro ⟨q, hq⟩
        exact ⟨(), Effect.bind_ok.mpr ⟨q, hq, rfl⟩⟩
  rw [checkRequests, closed_seq, closed_rejectIf, passes_rejectIf, closed_seq, closed_rejectIf,
    passes_rejectIf, ← ttftsOf, hloop, ← Bool.not_and, Bool.not_eq_false', Bool.not_eq_false',
    answered, Bool.and_eq_true, and_imp]
  simp

theorem closed_checkRate {fields : Fields} : Closed (checkRate fields) ↔
    usable (Value.field fields "duration") = true ∧
      (positive (Value.field fields "duration") →
        usable (Value.field fields "output_throughput") = true) := by
  have hduration : ([.text "duration"] : List Piece).all Piece.prints = true := rfl
  have hthroughput : ([.text "output_throughput"] : List Piece).all Piece.prints = true := rfl
  rw [checkRate, closed_bind, closed_requireFinitePositive hduration]
  refine and_congr_right fun husable => ?_
  rw [usable, Bool.and_eq_true] at husable
  constructor
  · intro h hpositive
    obtain ⟨duration, hok⟩ := (passes_requireFinitePositive _ _).mpr ⟨hpositive, husable.1⟩
    exact (closed_requireFinitePositive hthroughput).mp (closed_bind.mp (h duration hok)).1
  · intro h duration hok
    have hpositive := ((passes_requireFinitePositive _ _).mp ⟨duration, hok⟩).1
    refine closed_bind.mpr ⟨(closed_requireFinitePositive hthroughput).mpr (h hpositive), ?_⟩
    intro stated _
    exact closed_seq.mpr ⟨closed_rejectIf.mpr fun _ => rfl, fun _ => closed_pure _⟩

/-- The values of a complete round that its checks reach are ones they can use. -/
structure CompletedUsable (variant : String) (fields : Fields) : Prop where
  ttfts : answered fields = true → UpTo positive (fun ttft => usable ttft = true) (ttftsOf fields)
  duration : Passes (checkRequests variant fields) → usable (Value.field fields "duration") = true
  throughput : Passes (checkRequests variant fields) → positive (Value.field fields "duration") →
    usable (Value.field fields "output_throughput") = true

structure RoundUsable (variant : String) (lane : Lane) (fields : Fields) : Prop where
  completed : isInt (Value.field fields "completed") 8 = false →
    (Value.field fields "completed").prints = true
  measured : isInt (Value.field fields "completed") 8 = true → Passes (checkObserved lane fields) →
    Passes (checkProtocol variant lane fields) → CompletedUsable variant fields

theorem closed_upstreamRate {variant : String} {lane : Lane} {fields : Fields} :
    Closed (upstreamRate variant lane (.dict fields)) ↔ (lane = .short ∨ lane = .medium →
      (missingKeys fields upstreamKeys).isEmpty = true → RoundUsable variant lane fields) := by
  have hlane : (lane != .short && lane != .medium) = false ↔ lane = .short ∨ lane = .medium := by
    cases lane <;> decide
  rw [upstreamRate, closed_seq, closed_rejectIf, passes_rejectIf, hlane]
  refine (and_iff_right fun _ => rfl).trans (imp_congr_right fun _ => ?_)
  rw [closed_bind]
  simp only [Value.asDict?, orReject, Effect.orRaise, closed_ok, true_and, Except.ok.injEq,
    forall_eq']
  rw [closed_seq, closed_rejectIf, passes_rejectIf, Bool.not_eq_false']
  refine (and_iff_right fun _ => rfl).trans (imp_congr_right fun _ => ?_)
  rw [closed_seq, closed_rejectIf, passes_rejectIf, Bool.not_eq_false', Bool.not_eq_true',
    closed_seq, closed_seq, closed_seq, closed_checkRequests, closed_checkRate]
  constructor
  · rintro ⟨hcompleted, hrest⟩
    refine ⟨fun h => by simpa using hcompleted h, fun h hobserved hprotocol => ?_⟩
    obtain ⟨httfts, hrate⟩ := ((hrest h).2 hobserved).2 hprotocol
    exact ⟨httfts, fun h => (hrate h).1, fun h => (hrate h).2⟩
  · rintro ⟨hcompleted, hmeasured⟩
    refine ⟨fun h => by simpa using hcompleted h, fun h => ⟨closed_checkObserved, fun hobserved =>
      ⟨closed_checkProtocol, fun hprotocol => ?_⟩⟩⟩
    obtain ⟨httfts, hduration, hthroughput⟩ := hmeasured h hobserved hprotocol
    exact ⟨httfts, fun h => ⟨hduration h, hthroughput h⟩⟩

/-- The detail is an object that has the round's row, an object too. -/
def hasRow (detail : Value) : Bool := (detailRowOf detail).asDict?.isSome

/-- The rounds are the repeats in their order, and no two are one artifact. -/
def identifiedRounds (rounds : Nat) (rows : List Fields) : Bool :=
  let identities := rows.map fun fields => Value.field fields "native_result_sha256"
  (rows.map fun fields => Value.field fields "repeat") ==
      ((List.range rounds).map fun n : Nat => Value.int n) &&
    identities.all (isHex 64) && identities.dedup.length == rounds

/-- The rounds of a lane that the checks reach are ones they can use. -/
structure RoundsUsable (variant : String) (lane : Lane) (rounds : Nat) (detail : List Value) :
    Prop where
  rows : detail.length = rounds → ∀ d ∈ detail, hasRow d = true
  measured : detail.length = rounds →
    identifiedRounds rounds (detail.map fun d => fieldsOf (detailRowOf d)) = true →
    UpTo (fun d => Passes (upstreamRate variant lane (detailRowOf d)))
      (fun d => lane = .short ∨ lane = .medium →
        (missingKeys (fieldsOf (detailRowOf d)) upstreamKeys).isEmpty = true →
          RoundUsable variant lane (fieldsOf (detailRowOf d))) detail

theorem hasRow_lookup {d : Value} (h : hasRow d = true) :
    (Value.lookup (fieldsOf d) "row").isSome = true := by
  rw [hasRow, detailRowOf, Value.field] at h
  cases hrow : Value.lookup (fieldsOf d) "row" with
  | none =>
    rw [hrow] at h
    cases h
  | some row => rfl

theorem closed_detailRows {detail : List Value} {β : Type}
    {f : List Value → List Fields → Check β} :
    Closed (do
      let rows ← detail.mapM detailRow
      let fields ← rows.mapM dictOf
      f rows fields) ↔ (∀ d ∈ detail, hasRow d = true) ∧
        ((∀ d ∈ detail, hasRow d = true) → Closed (f (detail.map detailRowOf)
          (detail.map fun d => fieldsOf (detailRowOf d)))) := by
  have hok : ∀ d, (Value.lookup (fieldsOf d) "row").isSome = true →
      detailRow d = .ok (detailRowOf d) := by
    intro d hd
    obtain ⟨row, hrow⟩ := Option.isSome_iff_exists.mp hd
    rw [detailRow, detailRowOf, field_of_lookup hrow]
    cases d with
    | dict fields => exact Effect.bind_ok.mpr ⟨fields, rfl, item_ok.mpr hrow⟩
    | _ => cases hrow
  have hraised : ∀ d, (Value.lookup (fieldsOf d) "row").isSome = false →
      ¬ Closed (detailRow d) := by
    intro d hd
    rw [detailRow, closed_bind]
    rintro ⟨hdict, hitem⟩
    rw [closed_orRaise] at hdict
    obtain ⟨fields, hfields⟩ := Option.isSome_iff_exists.mp hdict
    have hrow := hitem fields (Effect.orRaise_ok.mpr hfields)
    rw [item, closed_orRaise] at hrow
    rw [fieldsOf, hfields, Option.getD_some, hrow] at hd
    cases hd
  rw [closed_mapM_bind hok hraised, closed_mapM_bind (fun _ => dictOf_eq) fun _ => not_closed_dictOf,
    List.forall_mem_map, List.map_map]
  constructor
  · rintro ⟨hlookup, h⟩
    exact ⟨(h hlookup).1, (h hlookup).2⟩
  · rintro ⟨hrows, h⟩
    exact ⟨fun d hd => hasRow_lookup (hrows d hd), fun _ => ⟨hrows, h⟩⟩

theorem closed_upstreamMedianRate {variant : String} {lane : Lane} {rounds : Nat}
    {detail : List Value} (hrounds : 0 < rounds) :
    Closed (upstreamMedianRate variant lane rounds detail) ↔
      RoundsUsable variant lane rounds detail := by
  have hrates : (∀ d ∈ detail, hasRow d = true) → (Closed ((detail.map detailRowOf).mapM
      (upstreamRate variant lane)) ↔
      UpTo (fun d => Passes (upstreamRate variant lane (detailRowOf d)))
      (fun d => lane = .short ∨ lane = .medium →
        (missingKeys (fieldsOf (detailRowOf d)) upstreamKeys).isEmpty = true →
          RoundUsable variant lane (fieldsOf (detailRowOf d))) detail) := by
    intro hrows
    rw [closed_mapM, upTo_map]
    refine UpTo.congr (fun d hd => ?_) fun d _ _ => Iff.rfl
    obtain ⟨fields, hfields⟩ := Option.isSome_iff_exists.mp (hrows d hd)
    rw [fieldsOf, hfields, Option.getD_some, Value.asDict?_eq_some.mp hfields]
    exact closed_upstreamRate
  rw [upstreamMedianRate, closed_seq, closed_rejectIf, passes_rejectIf, bne_eq_false_iff_eq,
    closed_detailRows]
  refine (and_iff_right fun _ => rfl).trans ?_
  have hmedian : detail.length = rounds → ∀ rates,
      (detail.map detailRowOf).mapM (upstreamRate variant lane) = .ok rates →
        Closed (median rates) := by
    intro hlength rates hrates
    have hsame := (Effect.mapM_ok.mp hrates).length_eq
    rw [List.length_map, hlength] at hsame
    rw [passes_median (List.length_pos_iff.mp (by omega))]
    exact closed_ok _
  have hbody : detail.length = rounds → (Closed (do
      let repeats := (detail.map fun d => fieldsOf (detailRowOf d)).map fun fields =>
        Value.field fields "repeat"
      rejectIf (repeats != (List.range rounds).map fun n : Nat => .int n)
        [.text variant, .text ": ", .text lane.name,
          .text " repeat identities must be ordered unique 0..", .number ((rounds : ℚ) - 1)]
      let identities := (detail.map fun d => fieldsOf (detailRowOf d)).map fun fields =>
        Value.field fields "native_result_sha256"
      rejectIf (!identities.all (isHex 64))
        [.text variant, .text ": ", .text lane.name,
          .text " native result identities are missing or malformed"]
      rejectIf (identities.dedup.length != rounds)
        [.text variant, .text ": ", .text lane.name,
          .text " reuses the same native result artifact"]
      let rates ← (detail.map detailRowOf).mapM (upstreamRate variant lane)
      median rates) ↔
      (identifiedRounds rounds (detail.map fun d => fieldsOf (detailRowOf d)) = true →
        Closed ((detail.map detailRowOf).mapM (upstreamRate variant lane)))) := by
    intro hlength
    dsimp only
    rw [identifiedRounds, Bool.and_eq_true, Bool.and_eq_true, and_imp, and_imp, beq_iff_eq,
      beq_iff_eq]
    simp only [closed_seq, closed_rejectIf, passes_rejectIf, bne_eq_false_iff_eq,
      Bool.not_eq_false', List.all_cons, List.all_nil, Piece.prints_text, Piece.prints_number,
      Bool.and_true, implies_true, true_and]
    refine imp_congr_right fun _ => imp_congr_right fun _ => imp_congr_right fun _ => ?_
    rw [closed_bind]
    exact and_iff_left (hmedian hlength)
  constructor
  · intro h
    refine ⟨fun hlength => (h hlength).1, fun hlength hidentified => ?_⟩
    obtain ⟨hrows, hclosed⟩ := h hlength
    exact (hrates hrows).mp ((hbody hlength).mp (hclosed hrows) hidentified)
  · intro h hlength
    refine ⟨h.rows hlength, fun hrows => (hbody hlength).mpr fun hidentified => ?_⟩
    exact (hrates hrows).mpr (h.measured hlength hidentified)

/-- The rounds of both sides, the candidate's where the baseline's pass. -/
def RoundsPairUsable (baseVariant candVariant : String) (lane : Lane)
    (base cand : Option (List Value)) : Prop :=
  ∀ b ∈ base, ∀ c ∈ cand, RoundsUsable baseVariant lane 5 b ∧
    (Passes (upstreamMedianRate baseVariant lane 5 b) → RoundsUsable candVariant lane 5 c)

theorem closed_shortStage {base cand : Option (List Value)} {gates : Gates} :
    Closed (shortStage base cand gates) ↔
      RoundsPairUsable "baseline" "candidate" .short base cand := by
  have hfive : 0 < 5 := by decide
  cases base with
  | none => cases cand <;> simp [shortStage, RoundsPairUsable]
  | some b =>
    cases cand with
    | none => simp [shortStage, RoundsPairUsable]
    | some c =>
      rw [shortStage, closed_bind, closed_caught, shortGain, closed_bind,
        closed_upstreamMedianRate hfive]
      simp only [RoundsPairUsable, Option.mem_def, Option.some.injEq, forall_eq']
      refine (and_iff_left fun _ _ => closed_pure _).trans (and_congr_right fun _ => ?_)
      have hrest : ∀ rate, Closed (do
          let c ← upstreamMedianRate "candidate" .short 5 c
          rejectIf (!(gainOf rate c).pass)
            [.text "short: median improvement ", .number (gainOf rate c).improvement,
              .text " < 0.05"]
          return gainOf rate c) ↔ RoundsUsable "candidate" .short 5 c := by
        intro rate
        rw [closed_bind, closed_upstreamMedianRate hfive]
        refine and_iff_left fun rate' _ => closed_seq.mpr ⟨closed_rejectIf.mpr fun _ => rfl, ?_⟩
        exact fun _ => closed_pure _
      exact forall_iff_of_exists fun rate _ => hrest rate

theorem closed_mediumStage {base cand : Option (List Value)} {gates : Gates} :
    Closed (mediumStage base cand gates) ↔
      RoundsPairUsable "baseline medium" "candidate medium" .medium base cand := by
  have hfive : 0 < 5 := by decide
  cases base with
  | none => cases cand <;> simp [mediumStage, RoundsPairUsable]
  | some b =>
    cases cand with
    | none => simp [mediumStage, RoundsPairUsable]
    | some c =>
      rw [mediumStage, closed_bind, closed_upstreamMedianRate hfive]
      simp only [RoundsPairUsable, Option.mem_def, Option.some.injEq, forall_eq']
      refine and_congr_right fun _ => ?_
      have hrest : ∀ rate, Closed (do
          let c ← upstreamMedianRate "candidate medium" .medium 5 c
          return ({ gates with upstreamMedium := some (gainOf rate c) }, (gainOf rate c).pass)) ↔
          RoundsUsable "candidate medium" .medium 5 c := by
        intro rate
        rw [closed_bind, closed_upstreamMedianRate hfive]
        exact and_iff_left fun _ _ => closed_pure _
      exact forall_iff_of_exists fun rate _ => hrest rate

/-! ## The vision rows -/

/-- The row succeeded and states a time. -/
def timed (fields : Fields) : Bool :=
  ((Value.field fields "valid").isTrue && isText (Value.field fields "finish_reason") "stop") &&
    !(Value.field fields "ttft_s").isNone

/-- The values of a gated row that its checks reach are ones they can use. -/
structure VisionRowUsable (fields : Fields) : Prop where
  error : (Value.field fields "error").isNone = false → (Value.field fields "error").prints = true
  ttft : (Value.field fields "error").isNone = true → timed fields = true →
    usable (Value.field fields "ttft_s") = true

theorem closed_visionTtft {variant : String} {i : Nat} {fields : Fields} :
    Closed (visionTtft variant i fields) ↔ VisionRowUsable fields := by
  have httft : ([.text variant, .text " vision row ", .number i, .text " ttft_s"] :
      List Piece).all Piece.prints = true := rfl
  have htimed : timed fields = true ↔ ((Value.field fields "valid").isTrue = true ∧
      isText (Value.field fields "finish_reason") "stop" = true) ∧
      (Value.field fields "ttft_s").isNone = false := by
    rw [timed, Bool.and_eq_true, Bool.and_eq_true, Bool.not_eq_true']
  have hclosed : Closed (visionTtft variant i fields) ↔
      ((Value.field fields "error").isNone = false →
        (Value.field fields "error").prints = true) ∧
      ((Value.field fields "error").isNone = true → timed fields = true →
        usable (Value.field fields "ttft_s") = true) := by
    rw [visionTtft, closed_seq, closed_seq, closed_seq, closed_requireFinitePositive httft, htimed]
    simp
  rw [hclosed]
  exact ⟨fun h => ⟨h.1, h.2⟩, fun h => ⟨h.1, h.2⟩⟩

/-- Every vision row that the gate reaches is an object whose values it can use. -/
def VisionUsable (variant : String) : Nat → List Value → Prop
  | _, [] => True
  | i, row :: rows =>
    row.asDict?.isSome = true ∧
      (isGated (fieldsOf row) = true → VisionRowUsable (fieldsOf row) ∧
        (Passes (visionTtft variant i (fieldsOf row)) → VisionUsable variant (i + 1) rows)) ∧
      (isGated (fieldsOf row) = false → VisionUsable variant (i + 1) rows)

theorem closed_ttftsFrom {variant : String} {i : Nat} {rows : List Value} :
    Closed (ttftsFrom variant i rows) ↔ VisionUsable variant i rows := by
  induction rows generalizing i with
  | nil => exact iff_of_true (closed_ok []) trivial
  | cons row rows ih =>
    rw [ttftsFrom, closed_bind, dictOf, closed_orRaise, VisionUsable]
    refine and_congr_right fun hdict => ?_
    obtain ⟨fields, hfields⟩ := Option.isSome_iff_exists.mp hdict
    have hrow : fieldsOf row = fields := by rw [fieldsOf, hfields, Option.getD_some]
    rw [hfields, hrow]
    simp only [Effect.orRaise, Except.ok.injEq, forall_eq']
    cases hgated : isGated fields with
    | false => simp [ih]
    | true =>
      simp only [if_true, closed_bind, closed_visionTtft, closed_pure, implies_true, and_true, ih,
        true_implies, Bool.true_eq_false, false_implies]
      refine and_congr_right fun _ => ?_
      exact exists_imp.symm

theorem closed_ttfts {variant : String} {rows : List Value} :
    Closed (ttfts variant rows) ↔ VisionUsable variant 0 rows := by
  rw [ttfts, closed_bind, closed_ttftsFrom]
  refine and_iff_left fun out _ => closed_seq.mpr ⟨closed_rejectIf.mpr fun _ => rfl, ?_⟩
  exact fun _ => closed_pure _

/-- What the gate has read is objects, and at least two of them are gated. -/
structure GatedRows (rows : List Value) : Prop where
  objects : ∀ row ∈ rows, row.asDict?.isSome = true
  gated : (rows.map fieldsOf).filter isGated ≠ []

theorem ttftsFrom_objects {variant : String} {i : Nat} {rows : List Value} {out : List ℚ}
    (h : ttftsFrom variant i rows = .ok out) : (∀ row ∈ rows, row.asDict?.isSome = true) ∧
      out.length = ((rows.map fieldsOf).filter isGated).length := by
  induction rows generalizing i out with
  | nil =>
    obtain rfl := Except.ok.inj h
    exact ⟨fun row hrow => absurd hrow List.not_mem_nil, rfl⟩
  | cons row rows ih =>
    rw [ttftsFrom, Effect.bind_ok] at h
    obtain ⟨fields, hfields, h⟩ := h
    obtain rfl := dictOf_ok.mp hfields
    have hrow : fieldsOf (.dict fields) = fields := rfl
    rw [List.map_cons, List.filter_cons, hrow, List.forall_mem_cons]
    cases hgated : isGated fields with
    | false =>
      rw [if_neg (by rw [hgated]; exact Bool.false_ne_true)] at h
      obtain ⟨hobjects, hlength⟩ := ih h
      exact ⟨⟨rfl, hobjects⟩, hlength⟩
    | true =>
      rw [if_pos hgated] at h
      simp only [Effect.bind_ok, Effect.pure_ok] at h
      obtain ⟨ttft, -, out', hout, rfl⟩ := h
      obtain ⟨hobjects, hlength⟩ := ih hout
      refine ⟨⟨rfl, hobjects⟩, ?_⟩
      rw [List.length_cons, hlength]
      rfl

theorem ttfts_gated {variant : String} {rows : List Value} {out : List ℚ}
    (h : ttfts variant rows = .ok out) : out ≠ [] ∧ GatedRows rows := by
  simp only [ttfts, Effect.bind_ok, rejectIf_ok, Effect.pure_ok, decide_eq_false_iff_not,
    not_lt] at h
  obtain ⟨out', hout, -, htwo, rfl⟩ := h
  obtain ⟨hobjects, hlength⟩ := ttftsFrom_objects hout
  refine ⟨List.length_pos_iff.mp (by omega), hobjects, List.length_pos_iff.mp ?_⟩
  omega

theorem closed_identitiesFrom (seen : List Identity) (rows : List Fields) :
    Closed (identitiesFrom seen rows) := by
  induction rows generalizing seen with
  | nil => exact closed_ok seen
  | cons fields rows ih =>
    refine closed_bind.mpr ⟨?_, fun identity _ => ih _⟩
    refine closed_bind.mpr ⟨closed_orReject.mpr fun _ => rfl, fun case _ => ?_⟩
    refine closed_bind.mpr ⟨closed_orReject.mpr fun _ => rfl, fun rep _ => ?_⟩
    refine closed_seq.mpr ⟨closed_rejectIf.mpr fun _ => rfl, fun _ => ?_⟩
    exact closed_bind.mpr ⟨closed_orReject.mpr fun _ => rfl, fun _ _ => closed_pure _⟩

theorem closed_identities {rows : List Value} (h : ∀ row ∈ rows, row.asDict?.isSome = true) :
    Closed (identities rows) := by
  rw [identities, closed_mapM_bind (fun _ => dictOf_eq) fun _ => not_closed_dictOf]
  exact ⟨h, fun _ => closed_identitiesFrom _ _⟩

/-- The vision rows of both sides, the candidate's where the baseline's pass. -/
def VisionPairUsable (base cand : Option (List Value)) : Prop :=
  ∀ b ∈ base, ∀ c ∈ cand, VisionUsable "baseline" 0 b ∧
    (Passes (ttfts "baseline" b) → VisionUsable "candidate" 0 c)

theorem closed_visionTtftGate {base cand : Option (List Value)} :
    Closed (visionTtftGate base cand) ↔ VisionPairUsable base cand := by
  cases base with
  | none => cases cand <;> simp [visionTtftGate, VisionPairUsable]
  | some b =>
    cases cand with
    | none => simp [visionTtftGate, VisionPairUsable]
    | some c =>
      rw [visionTtftGate, closed_bind, closed_ttfts]
      simp only [VisionPairUsable, Option.mem_def, Option.some.injEq, forall_eq']
      refine and_congr_right fun _ => ?_
      have hrest : ∀ bs, ttfts "baseline" b = .ok bs → (Closed (do
          let cs ← ttfts "candidate" c
          let baseIdentities ← identities b
          let candIdentities ← identities c
          rejectIf (baseIdentities.length != candIdentities.length ||
              !baseIdentities.all candIdentities.contains)
            [.text "vision case/input pairing mismatch"]
          let b95 ← percentile bs (95 / 100)
          let c95 ← percentile cs (95 / 100)
          let regression := (c95 - b95) / b95
          return (⟨b95, c95, regression, decide (regression ≤ threshold)⟩ : VisionGate)) ↔
          VisionUsable "candidate" 0 c) := by
        intro bs hbs
        rw [closed_bind, closed_ttfts]
        refine and_iff_left fun cs hcs => ?_
        obtain ⟨hbne, hbrows⟩ := ttfts_gated hbs
        obtain ⟨hcne, hcrows⟩ := ttfts_gated hcs
        refine closed_bind.mpr ⟨closed_identities hbrows.objects, fun _ _ => ?_⟩
        refine closed_bind.mpr ⟨closed_identities hcrows.objects, fun _ _ => ?_⟩
        refine closed_seq.mpr ⟨closed_rejectIf.mpr fun _ => rfl, fun _ => ?_⟩
        rw [passes_percentile hbne, passes_percentile hcne]
        exact closed_bind.mpr ⟨closed_ok _, fun _ _ => closed_bind.mpr ⟨closed_ok _,
          fun _ _ => closed_pure _⟩⟩
      exact forall_iff_of_exists hrest

theorem closed_visionStage {base cand : Option (List Value)} {gates : Gates} :
    Closed (visionStage base cand gates) ↔ VisionPairUsable base cand := by
  rw [visionStage]
  split
  · next hnone =>
    rw [Bool.and_eq_true, Option.isNone_iff_eq_none, Option.isNone_iff_eq_none] at hnone
    rw [hnone.1]
    simp [VisionPairUsable]
  · rw [closed_bind, closed_caught, closed_visionTtftGate]
    exact and_iff_left fun _ _ => closed_pure _

/-! ## The vision lever -/

/-- The row has the metric and the check can use it. -/
def metricUsable (metric : String) (fields : Fields) : Bool :=
  (Value.lookup fields metric).isSome && usable (Value.field fields metric)

/-- The gated rows that the gain of the lever reaches have the metric. -/
def GainsUsable (metric : String) (rows : List Value) : Prop :=
  UpTo (fun fields => positive (Value.field fields metric))
    (fun fields => metricUsable metric fields = true) ((rows.map fieldsOf).filter isGated)

theorem closed_metric {metric : String} {fields : Fields} :
    Closed (do
      let value ← item fields metric
      requireFinitePositive value [.text metric]) ↔ metricUsable metric fields = true := by
  have hmetric : ([.text metric] : List Piece).all Piece.prints = true := rfl
  rw [closed_bind, item, closed_orRaise, metricUsable, Bool.and_eq_true]
  refine and_congr_right fun hsome => ?_
  obtain ⟨value, hvalue⟩ := Option.isSome_iff_exists.mp hsome
  rw [hvalue, field_of_lookup hvalue, ← closed_requireFinitePositive hmetric]
  simp [Effect.orRaise]

theorem passes_metric {metric : String} {fields : Fields} (h : metricUsable metric fields = true) :
    Passes (do
      let value ← item fields metric
      requireFinitePositive value [.text metric]) ↔ positive (Value.field fields metric) := by
  rw [metricUsable, usable, Bool.and_eq_true, Bool.and_eq_true] at h
  obtain ⟨value, hvalue⟩ := Option.isSome_iff_exists.mp h.1
  rw [field_of_lookup hvalue] at h ⊢
  rw [← and_iff_left (a := positive value) h.2.1,
    ← passes_requireFinitePositive value [.text metric]]
  constructor
  · rintro ⟨q, hq⟩
    obtain ⟨v, hv, hq⟩ := Effect.bind_ok.mp hq
    rw [item_ok, hvalue, Option.some.injEq] at hv
    exact ⟨q, hv ▸ hq⟩
  · rintro ⟨q, hq⟩
    exact ⟨q, Effect.bind_ok.mpr ⟨value, item_ok.mpr hvalue, hq⟩⟩

theorem closed_gainMetrics {metric : String} {rows : List Value} (hrows : GatedRows rows) :
    Closed (gainMetrics metric rows) ↔ GainsUsable metric rows := by
  rw [gainMetrics, closed_mapM_bind (fun _ => dictOf_eq) fun _ => not_closed_dictOf, closed_mapM,
    GainsUsable]
  refine (and_iff_right hrows.objects).trans ((forall_prop_of_true hrows.objects).trans ?_)
  exact UpTo.congr (fun _ _ => closed_metric) fun _ _ h => passes_metric h

theorem gainMetrics_ne_nil {metric : String} {rows : List Value} {out : List ℚ}
    (hrows : GatedRows rows) (h : gainMetrics metric rows = .ok out) : out ≠ [] := by
  simp only [gainMetrics, Effect.bind_ok] at h
  obtain ⟨fields, hfields, hout⟩ := h
  have hdict (row : Value) (fs : Fields) (hrow : dictOf row = .ok fs) : fs = fieldsOf row := by
    rw [dictOf_ok.mp hrow]
    rfl
  obtain rfl := Effect.mapM_eq_map hdict hfields
  have hlength := (Effect.mapM_ok.mp hout).length_eq
  have hpos := List.length_pos_iff.mpr hrows.gated
  exact List.length_pos_iff.mp (by omega)

/-- The rows of a vision lever have its metric. -/
def LeverUsable (manifest : Fields) (base cand : List Value) : Prop :=
  isVisionLever manifest = true → ∀ metric ∈ visionMetric manifest, GainsUsable metric base ∧
    (Passes (gainMetrics metric base) → GainsUsable metric cand)

theorem closed_leverStage {manifest : Fields} {base cand : List Value} {gates : Gates}
    (hbase : GatedRows base) (hcand : GatedRows cand) :
    Closed (leverStage manifest base cand gates) ↔ LeverUsable manifest base cand := by
  rw [leverStage, LeverUsable]
  cases hlever : isVisionLever manifest with
  | false => simp
  | true =>
    rw [if_pos rfl, closed_bind]
    cases hmetric : visionMetric manifest with
    | none => simp [orReject, Effect.orRaise, refusal]
    | some metric =>
      simp only [orReject, Effect.orRaise, closed_ok, true_and, Except.ok.injEq, forall_eq',
        Option.mem_def, Option.some.injEq, true_implies, closed_bind, closed_gainMetrics hbase,
        closed_gainMetrics hcand]
      refine and_congr_right fun _ => ?_
      constructor
      · rintro h ⟨bs, hbs⟩
        exact ((h bs hbs).2 _ (passes_median (gainMetrics_ne_nil hbase hbs))).1
      · intro h bs hbs
        rw [passes_median (gainMetrics_ne_nil hbase hbs)]
        refine ⟨closed_ok _, fun _ _ => ⟨h ⟨bs, hbs⟩, fun cs hcs => ?_⟩⟩
        rw [passes_median (gainMetrics_ne_nil hcand hcs)]
        exact ⟨closed_ok _, fun _ _ => closed_pure _⟩

end Compare
end FlashNext
