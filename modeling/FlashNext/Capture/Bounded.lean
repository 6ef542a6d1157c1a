import FlashNext.Capture.Sound

/-!
# The wire file is bounded

Whatever is called on a record, in whatever order and whether or not calls raised before, the
wire file holds the first bytes that arrived up to the limit, and the counters say so.
-/

namespace FlashNext
namespace Capture

open Text Py Effect

namespace CaptureRecord

variable {env : Digests} {r r' : CaptureRecord}

/-- What the record knows of the bytes that arrived. -/
structure Stores (r : CaptureRecord) (bytes : Bytes) : Prop where
  arrived : r.bytesReceived = bytes.length
  wire : r.wire = bytes.take maxWireBytes
  stored : r.storedBytes = r.wire.length

/-- Nothing was done to the wire file. -/
structure SameWire (r r' : CaptureRecord) : Prop where
  arrived : r'.bytesReceived = r.bytesReceived
  wire : r'.wire = r.wire
  stored : r'.storedBytes = r.storedBytes

theorem SameWire.refl (r : CaptureRecord) : r.SameWire r := ⟨rfl, rfl, rfl⟩

theorem SameWire.trans {r'' : CaptureRecord} (h : r.SameWire r') (h' : r'.SameWire r'') :
    r.SameWire r'' :=
  ⟨h'.arrived.trans h.arrived, h'.wire.trans h.wire, h'.stored.trans h.stored⟩

theorem Stores.keep {bytes : Bytes} (h : r.Stores bytes) (hsame : r.SameWire r') :
    r'.Stores bytes := by
  constructor
  · rw [hsame.arrived, h.arrived]
  · rw [hsame.wire, h.wire]
  · rw [hsame.stored, hsame.wire, h.stored]

/-! ## Calls that are no chunks -/

theorem request_wire (payload : Value) : r.SameWire (r.request env payload).1 := by
  rcases request_cases (r := r) env payload with hr | ⟨hr, _⟩
  · rw [hr]
    exact SameWire.refl r
  · rw [hr]
    exact ⟨rfl, rfl, rfl⟩

theorem noteModel_wire (data : List (Str × Value)) : r.SameWire (r.noteModel data) := by
  unfold noteModel
  split
  · exact SameWire.refl r
  · exact ⟨rfl, rfl, rfl⟩

theorem noteUsage_wire (data : List (Str × Value)) : r.SameWire (r.noteUsage data) := by
  unfold noteUsage
  dsimp only
  split
  · exact SameWire.refl r
  split
  · exact ⟨rfl, rfl, rfl⟩
  split
  · exact ⟨rfl, rfl, rfl⟩
  · -- a usage that decreases is objected to and kept all the same
    split
    · exact ⟨rfl, rfl, rfl⟩
    · exact ⟨rfl, rfl, rfl⟩

theorem noteCache_wire (data : List (Str × Value)) : r.SameWire (r.noteCache data) := by
  unfold noteCache
  dsimp only
  split
  · exact SameWire.refl r
  split
  · exact ⟨rfl, rfl, rfl⟩
  split
  · exact SameWire.refl r
  · split
    · exact ⟨rfl, rfl, rfl⟩
    · exact ⟨rfl, rfl, rfl⟩

theorem event_wire (value : Value) : r.SameWire (r.event value).1 := by
  unfold event
  split
  · exact ⟨rfl, rfl, rfl⟩
  · next data _ =>
    have hnoted : r.SameWire (noteUsage data (noteModel data r)) :=
      (noteModel_wire data).trans (noteUsage_wire data)
    dsimp only
    split
    · exact hnoted
    · next reason _ =>
      let noted := noteUsage data (noteModel data r)
      have hfinish : r.SameWire { noted with
          finishReason := reason.getD noted.finishReason } :=
        ⟨hnoted.arrived, hnoted.wire, hnoted.stored⟩
      exact hfinish.trans (noteCache_wire data)

/-! ## Chunks -/

/-- What is left below the limit after the bytes before is what the limit leaves of all. -/
theorem take_append_limit (bytes raw : Bytes) (limit : Nat) :
    bytes.take limit ++ raw.take (limit - (bytes.take limit).length) = (bytes ++ raw).take limit := by
  rw [List.take_append, List.length_take]
  congr 2
  omega

theorem Stores.snoc {bytes : Bytes} (h : r.Stores bytes) (raw : Bytes) :
    (r.chunk (some raw)).1.Stores (bytes ++ raw) := by
  have hwire : r.wire ++ raw.take (maxWireBytes - r.storedBytes) =
      (bytes ++ raw).take maxWireBytes := by
    rw [h.stored, h.wire]
    exact take_append_limit bytes raw maxWireBytes
  have harrived : r.bytesReceived + raw.length = (bytes ++ raw).length := by
    rw [h.arrived, List.length_append]
  have hstored : r.storedBytes + (raw.take (maxWireBytes - r.storedBytes)).length =
      (r.wire ++ raw.take (maxWireBytes - r.storedBytes)).length := by
    rw [List.length_append, h.stored]
  unfold CaptureRecord.chunk
  dsimp only
  split
  · exact ⟨harrived, hwire, hstored⟩
  · exact ⟨harrived, hwire, hstored⟩

/-- A chunk raises when the limit is passed. -/
theorem Stores.raises_iff {bytes : Bytes} (h : r.Stores bytes) (raw : Bytes) :
    (r.chunk (some raw)).2.isSome = true ↔ maxWireBytes < (bytes ++ raw).length := by
  rw [List.length_append, ← h.arrived]
  unfold CaptureRecord.chunk
  dsimp only
  by_cases hlimit : maxWireBytes < r.bytesReceived + raw.length
  · simp [hlimit]
  · simp [hlimit]

/-! ## Runs -/

/-- What one call adds to the bytes that arrived. -/
theorem Stores.run {bytes : Bytes} (h : r.Stores bytes) (call : Call) :
    (call.run env r).1.Stores (bytes ++ received [call]) := by
  cases call with
  | request payload =>
    show (r.request env payload).1.Stores (bytes ++ [])
    rw [List.append_nil]
    exact h.keep (request_wire payload)
  | chunk raw =>
    cases raw with
    | none =>
      show r.Stores (bytes ++ [])
      rw [List.append_nil]
      exact h
    | some raw =>
      show (r.chunk (some raw)).1.Stores (bytes ++ (raw ++ []))
      rw [List.append_nil]
      exact h.snoc raw
  | event value =>
    show (r.event value).1.Stores (bytes ++ [])
    rw [List.append_nil]
    exact h.keep (event_wire value)
  | done =>
    show r.done.Stores (bytes ++ [])
    rw [List.append_nil]
    exact ⟨h.arrived, h.wire, h.stored⟩

theorem Stores.runCalls {bytes : Bytes} (h : r.Stores bytes) (calls : List Call) :
    (runCalls env r calls).Stores (bytes ++ received calls) := by
  induction calls generalizing r bytes with
  | nil =>
    show r.Stores (bytes ++ [])
    rw [List.append_nil]
    exact h
  | cons call calls ih =>
    have hstep : (call.run env r).1.Stores (bytes ++ received [call]) := h.run call
    have hrest := ih hstep
    have hbytes : bytes ++ received [call] ++ received calls = bytes ++ received (call :: calls) := by
      simp [received]
    rw [hbytes] at hrest
    exact hrest

theorem new_stores {expected : List (Str × Value)} {index : Nat} {warmup : Bool} {sequence : Nat}
    {contract : Option Value} (h : new env expected index warmup sequence contract = .ok r) :
    r.Stores [] := by
  obtain ⟨zero, frozen, _, rfl⟩ := new_ok h
  exact ⟨rfl, rfl, rfl⟩

/-! ## The document -/

/-- What the document says of the wire file. -/
structure Tells (env : Digests) (r : CaptureRecord) (document : Document) : Prop where
  hash : document.wireSha256 = env.sha256 r.wire
  bytes : document.wireBytes = r.storedBytes
  truncated : document.wireTruncated = decide (maxWireBytes < r.bytesReceived)

theorem document_tells {errors : List CaptureError} {observation : Option (Nat × CacheSource)}
    {output : Output} {document : Document}
    (h : r.document env errors observation output = .ok document) : Tells env r document := by
  unfold CaptureRecord.document at h
  dsimp only at h
  split at h
  · simp only [bind_ok, pure_ok] at h
    obtain ⟨_, _, _, _, rfl⟩ := h
    exact ⟨rfl, rfl, rfl⟩
  · split at h
    · simp only [bind_ok, pure_ok] at h
      obtain ⟨_, _, _, _, rfl⟩ := h
      exact ⟨rfl, rfl, rfl⟩
    · simp only [bind_ok, pure_ok] at h
      obtain ⟨_, _, _, _, rfl⟩ := h
      exact ⟨rfl, rfl, rfl⟩

theorem finalize_tells {save : Document → Option Str} {output : Output} {document : Document}
    (h : (r.finalize env save output).2 = .ok document) : Tells env r document := by
  unfold finalize at h
  split at h
  · cases h
  · rw [bind_ok] at h
    obtain ⟨written, hwritten, h⟩ := h
    split at h
    · cases h
    · obtain rfl := Except.ok.inj h
      exact document_tells hwritten

end CaptureRecord

open CaptureRecord

/-- Bytes are dropped when more arrived than the limit. -/
theorem take_ne_self_iff {bytes : Bytes} {limit : Nat} :
    bytes.take limit ≠ bytes ↔ limit < bytes.length := by
  constructor
  · intro hne
    by_cases hle : bytes.length ≤ limit
    · exact absurd (List.take_of_length_le hle) hne
    · omega
  · intro hlt heq
    have hlength := congrArg List.length heq
    rw [List.length_take] at hlength
    omega

/-- The wire file holds the first bytes that arrived up to the limit, is counted and hashed as it
is, and a chunk raises and the document says so when bytes are dropped. -/
theorem capture_bounded (env : Digests) (save : Document → Option Str)
    {expected : List (Str × Value)} {index : Nat} {warmup : Bool} {sequence : Nat}
    {contract : Option Value} {start : CaptureRecord}
    (hnew : CaptureRecord.new env expected index warmup sequence contract = .ok start)
    (calls : List Call) :
    (runCalls env start calls).wire =
        (received calls).take (min (received calls).length maxWireBytes) ∧
      (runCalls env start calls).storedBytes = (runCalls env start calls).wire.length ∧
      (∀ raw, ((runCalls env start calls).chunk (some raw)).2.isSome = true ↔
        maxWireBytes < (received calls ++ raw).length) ∧
      ∀ output document,
        ((runCalls env start calls).finalize env save output).2 = .ok document →
          document.wireSha256 = env.sha256 (runCalls env start calls).wire ∧
          document.wireBytes = (runCalls env start calls).wire.length ∧
          (document.wireTruncated = true ↔ (runCalls env start calls).wire ≠ received calls) := by
  have hstores : (runCalls env start calls).Stores ([] ++ received calls) :=
    (new_stores hnew).runCalls calls
  rw [List.nil_append] at hstores
  refine ⟨?_, hstores.stored, hstores.raises_iff, ?_⟩
  · rw [hstores.wire, List.take_eq_take_iff]
    omega
  · intro output document hfinal
    have htells := finalize_tells hfinal
    refine ⟨htells.hash, by rw [htells.bytes, hstores.stored], ?_⟩
    rw [htells.truncated, decide_eq_true_eq, hstores.wire, hstores.arrived, take_ne_self_iff]

theorem capture_bounded_sample :
    (runCalls sampleDigests sampleStart [.chunk (some sampleWire)]).wire =
      (received [.chunk (some sampleWire)]).take
        (min (received [.chunk (some sampleWire)]).length maxWireBytes) :=
  (@capture_bounded sampleDigests (fun _ => none) sampleExpected 0 false 0 none sampleStart rfl
    [.chunk (some sampleWire)]).1

end Capture
end FlashNext
