import FlashNext.Audit.Sound
import FlashNext.Spans.Tiling
import Mathlib.Data.List.Perm.Basic

/-!
# The data region

The spans of an accepted shard tile what follows its header, and it does not matter in which order
the header names its tensors.
-/

namespace FlashNext
namespace Audit

open Py (Str Value str)
open Spans (Tiles covers)

/-! ## The sweep -/

/-- The sweep runs through when each span starts where the one before it ends. -/
theorem checkTiles_ok {shard : Str} {cursor stop : Nat} {spans : List (Nat × Nat)}
    (hspans : ∀ span ∈ spans, span.1 ≤ span.2) :
    checkTiles shard cursor spans = .ok stop ↔ Tiles cursor spans stop := by
  induction spans generalizing cursor with
  | nil => rw [checkTiles, Except.ok.injEq, Tiles]
  | cons span spans ih =>
    obtain ⟨hspan, htail⟩ := List.forall_mem_cons.mp hspans
    simp only [checkTiles, Effect.bind_ok, rejectIf_ok, bne_eq_false_iff_eq, ih htail, Tiles]
    constructor
    · rintro ⟨_, hstart, htiles⟩
      exact ⟨hstart, hspan, htiles⟩
    · rintro ⟨hstart, _, htiles⟩
      exact ⟨(), hstart, htiles⟩

/-- The span of a tensor. -/
def spanOf (entry : Str × Tensor) : Nat × Nat := (entry.2.start, entry.2.stop)

/-- The bytes are those of the tensor. -/
def holds (byte : Nat) (entry : Str × Tensor) : Bool := covers byte (spanOf entry)

def sortedSpans (header : Header) : List (Nat × Nat) := (header.map spanOf).mergeSort spanLe

theorem sortedSpans_perm (header : Header) : (sortedSpans header).Perm (header.map spanOf) :=
  List.mergeSort_perm _ _

theorem sortedSpans_le (header : Header) : ∀ span ∈ sortedSpans header, span.1 ≤ span.2 := by
  intro span hspan
  obtain ⟨entry, _, rfl⟩ := List.mem_map.mp ((sortedSpans_perm header).mem_iff.mp hspan)
  exact entry.2.span.1

/-- What the checks of the layout decide. -/
theorem checkLayout_ok {shard : Str} {dataSize : Nat} {header : Header} {u : Unit} :
    checkLayout shard dataSize header = .ok u ↔
      (∀ entry ∈ header, entry.2.stop ≤ dataSize) ∧
      (∃ stop, Tiles 0 (sortedSpans header) stop) ∧
      (header.map fun entry => entry.2.stop - entry.2.start).sum = dataSize ∧
      (header.map fun entry => entry.2.stop).foldl max 0 = dataSize := by
  simp only [checkLayout, Effect.bind_ok, Effect.forM_ok, checkInside, rejectIf_ok,
    decide_eq_false_iff_not, Nat.not_lt, Bool.or_eq_false_iff, bne_eq_false_iff_eq]
  constructor
  · rintro ⟨_, hinside, stop, htiles, hsum, hmax⟩
    exact ⟨hinside, ⟨stop, (checkTiles_ok (sortedSpans_le header)).mp htiles⟩, hsum, hmax⟩
  · rintro ⟨hinside, ⟨stop, htiles⟩, hsum, hmax⟩
    exact ⟨u, hinside, stop, (checkTiles_ok (sortedSpans_le header)).mpr htiles, hsum, hmax⟩

/-- Every byte of the region is one tensor's. -/
theorem checkLayout_holds {shard : Str} {dataSize : Nat} {header : Header} {u : Unit}
    (h : checkLayout shard dataSize header = .ok u) {byte : Nat} (hbyte : byte < dataSize) :
    header.countP (holds byte) = 1 := by
  obtain ⟨_, ⟨stop, htiles⟩, hsum, _⟩ := checkLayout_ok.mp h
  have hperm := sortedSpans_perm header
  have hlengths : ((sortedSpans header).map fun span => span.2 - span.1).sum = dataSize := by
    rw [(hperm.map _).sum_nat, List.map_map]
    exact hsum
  have hstop : stop = dataSize := by
    have := htiles.sum
    omega
  rw [hstop] at htiles
  have hcount := htiles.countP (Nat.zero_le byte) hbyte
  rw [hperm.countP_eq, List.countP_map] at hcount
  exact hcount

/-! ## The order of the tensors -/

theorem sortedSpans_eq {header header' : Header} (h : header.Perm header') :
    sortedSpans header = sortedSpans header' :=
  Spans.mergeSort_eq ((h.map spanOf).trans (sortedSpans_perm header').symm)
    (List.pairwise_mergeSort Spans.spanLe_trans Spans.spanLe_total _)

theorem checkLayout_perm {shard : Str} {dataSize : Nat} {header header' : Header} {u : Unit}
    (h : header.Perm header') (hok : checkLayout shard dataSize header = .ok u) :
    checkLayout shard dataSize header' = .ok u := by
  rw [checkLayout_ok] at hok ⊢
  obtain ⟨hinside, htiles, hsum, hmax⟩ := hok
  refine ⟨fun entry hentry => hinside entry (h.mem_iff.mpr hentry), ?_, ?_, ?_⟩
  · rw [← sortedSpans_eq h]
    exact htiles
  · rw [← hsum]
    exact ((h.map _).sum_nat).symm
  · rw [← hmax]
    exact ((h.map _).foldl_eq 0).symm

/-! ## The order of the keys -/

/-- Two checks accept rearranged values and give rearranged results. -/
theorem mapM_perm {α β : Type} {f : α → Check β} {xs xs' : List α} {ys : List β}
    (h : xs.Perm xs') (hok : xs.mapM f = .ok ys) :
    ∃ ys', xs'.mapM f = .ok ys' ∧ ys.Perm ys' := by
  obtain ⟨ys', hall, hperm⟩ := List.perm_comp_forall₂ h.symm (Effect.mapM_ok.mp hok)
  exact ⟨ys', Effect.mapM_ok.mpr hall, hperm.symm⟩

theorem hookedFields_ok {items : List (Str × Raw)} {fields : Fields} :
    hookedFields items = .ok fields ↔
      List.Forall₂ (fun item f => item.1 = f.1 ∧ hooked item.2 = .ok f.2) items fields := by
  induction items generalizing fields with
  | nil =>
    rw [hookedFields, Except.ok.injEq, List.forall₂_nil_left_iff]
    exact eq_comm
  | cons item items ih =>
    obtain ⟨key, raw⟩ := item
    simp only [hookedFields, Effect.bind_ok, Effect.pure_ok, List.forall₂_cons_left_iff, ih]
    constructor
    · rintro ⟨value, hvalue, values, hvalues, heq⟩
      exact ⟨(key, value), values, ⟨rfl, hvalue⟩, hvalues, heq.symm⟩
    · rintro ⟨⟨key', value⟩, values, ⟨hkey, hvalue⟩, hvalues, heq⟩
      subst hkey
      exact ⟨value, hvalue, values, hvalues, heq.symm⟩

theorem hookedFields_keys {items : List (Str × Raw)} {fields : Fields}
    (h : hookedFields items = .ok fields) : fields.map (·.1) = items.map (·.1) := by
  have hall := hookedFields_ok.mp h
  clear h
  induction hall with
  | nil => rfl
  | cons hitem _ ih => rw [List.map_cons, List.map_cons, ih, hitem.1]

theorem noDuplicateKeys_of_nodup {seen pairs : Fields}
    (h : ((seen ++ pairs).map (·.1)).Nodup) : noDuplicateKeys seen pairs = .ok (seen ++ pairs) := by
  induction pairs generalizing seen with
  | nil => rw [noDuplicateKeys, List.append_nil]
  | cons pair pairs ih =>
    obtain ⟨key, value⟩ := pair
    have hnew : ¬ (seen.any fun f => f.1 == key) = true := by
      intro hany
      obtain ⟨f, hf, hkey⟩ := List.any_eq_true.mp hany
      rw [List.map_append, List.nodup_append] at h
      exact h.2.2 f.1 (List.mem_map_of_mem hf) key List.mem_cons_self (eq_of_beq hkey)
    have hcons : seen ++ (key, value) :: pairs = seen ++ [(key, value)] ++ pairs := by
      rw [List.append_assoc, List.singleton_append]
    rw [noDuplicateKeys, if_neg hnew, hcons]
    exact ih (hcons ▸ h)

/-- An object with its fields in another order is accepted too. -/
theorem hooked_perm {items items' : List (Str × Raw)} {fields : Fields}
    (h : items.Perm items') (hok : hooked (.obj items) = .ok (.dict fields)) :
    ∃ fields', hooked (.obj items') = .ok (.dict fields') ∧ fields.Perm fields' := by
  obtain ⟨_, heq, hfields, hnodup⟩ := hooked_dict hok
  obtain rfl := Raw.obj.inj heq
  obtain ⟨fields', hall, hperm⟩ := List.perm_comp_forall₂ h.symm (hookedFields_ok.mp hfields)
  have hnodup' : ((([] : Fields) ++ fields').map (·.1)).Nodup :=
    (hperm.symm.map _).nodup_iff.mp hnodup
  refine ⟨fields', ?_, hperm.symm⟩
  simp only [hooked, Effect.bind_ok, Effect.pure_ok]
  exact ⟨fields', hookedFields_ok.mpr hall, fields', noDuplicateKeys_of_nodup hnodup', rfl⟩

theorem strictJsonLoads_perm {items items' : List (Str × Raw)} {label : List Part}
    {fields : Fields} (h : items.Perm items')
    (hok : strictJsonLoads (some (.obj items)) label = .ok (.dict fields)) :
    ∃ fields', strictJsonLoads (some (.obj items')) label = .ok (.dict fields') ∧
      fields.Perm fields' :=
  hooked_perm h hok

/-- The shard with a header of these fields. -/
def Shard.withHeader (shard : Shard) (items : List (Str × Raw)) : Shard :=
  { shard with scan := some (.obj items) }

theorem auditShard_perm {shard : Shard} {items items' : List (Str × Raw)}
    {out : ShardReport × Header} (h : items.Perm items')
    (hok : auditShard (shard.withHeader items) = .ok out) :
    ∃ out', auditShard (shard.withHeader items') = .ok out' := by
  simp only [auditShard, Effect.bind_ok, orReject_ok, Effect.pure_ok, Value.asDict?_eq_some] at hok
  obtain ⟨_, hname, _, hlinked, _, hinside, _, hregular, _, hsize, _, hlimit, _, hlength, _,
    hdecodes, _, hloads, fields, rfl, header, hheader, _, hlayout, _⟩ := hok
  obtain ⟨fields', hloads', hfields⟩ := strictJsonLoads_perm h hloads
  obtain ⟨header', hheader', hperm⟩ := mapM_perm (hfields.filter _) hheader
  refine ⟨(⟨shard.name, shard.size, shard.headerLen, header'.length, shard.inode, shard.mtimeNs,
    shard.ctimeNs⟩, header'), ?_⟩
  simp only [auditShard, Effect.bind_ok, orReject_ok, Effect.pure_ok, Value.asDict?_eq_some]
  exact ⟨_, hname, _, hlinked, _, hinside, _, hregular, _, hsize, _, hlimit, _, hlength, _,
    hdecodes, _, hloads', fields', rfl, header', hheader', _, checkLayout_perm hperm hlayout, rfl⟩

/-! ## Accepted shards -/

/-- The bytes after the header. -/
def Shard.dataSize (shard : Shard) : Nat := shard.size - 8 - shard.headerLen

/-- The tensors of an accepted shard are those that its header names. -/
theorem auditShard_names {shard : Shard} {out : ShardReport × Header}
    (h : auditShard shard = .ok out) :
    ∃ items, shard.scan = some (.obj items) ∧
      out.2.map (·.1) = (items.map (·.1)).filter fun name => name != str metadataKey := by
  simp only [auditShard, Effect.bind_ok, orReject_ok, Effect.pure_ok, Value.asDict?_eq_some,
    strictJsonLoads] at h
  obtain ⟨_, _, _, _, _, _, _, _, _, _, _, _, _, _, _, _, _, ⟨raw, hscan, hraw⟩, fields, rfl,
    header, hheader, _, _, rfl⟩ := h
  obtain ⟨items, rfl, hfields, _⟩ := hooked_dict hraw
  refine ⟨items, hscan, ?_⟩
  show header.map (·.1) = _
  rw [Effect.mapM_map_eq (fun _ _ hentry => tensorEntry_ok hentry) hheader,
    ← hookedFields_keys hfields, List.filter_map]
  rfl

theorem auditShard_layout {shard : Shard} {out : ShardReport × Header}
    (h : auditShard shard = .ok out) :
    ∃ u, checkLayout shard.name shard.dataSize out.2 = .ok u := by
  simp only [auditShard, Effect.bind_ok, Effect.pure_ok] at h
  obtain ⟨_, _, _, _, _, _, _, _, _, _, _, _, _, _, _, _, _, _, _, _, header, _, u, hlayout,
    rfl⟩ := h
  exact ⟨u, hlayout⟩

/-- The tensors of an accepted shard have spans of the length of their shape and dtype, inside the
data region, and every byte of the region is one tensor's.  Whether a shard is accepted does not
depend on the order of its header's keys. -/
theorem shard_tiled (shard : Shard) :
    (∀ report header, auditShard shard = .ok (report, header) →
      (∃ items, shard.scan = some (.obj items) ∧
        header.map (·.1) = (items.map (·.1)).filter fun name => name != str metadataKey) ∧
      (header.map (·.1)).Nodup ∧
      (∀ entry ∈ header, entry.2.start ≤ entry.2.stop ∧ entry.2.stop ≤ shard.dataSize ∧
        entry.2.stop - entry.2.start = entry.2.shape.prod * entry.2.dtype.bytes) ∧
      ∀ byte, byte < shard.dataSize → header.countP (holds byte) = 1) ∧
    ∀ items items', items.Perm items' →
      (auditShard (shard.withHeader items)).isOk =
        (auditShard (shard.withHeader items')).isOk := by
  constructor
  · intro report header h
    obtain ⟨u, hlayout⟩ := auditShard_layout h
    refine ⟨auditShard_names h, (auditShard_ok h).2, ?_, ?_⟩
    · intro entry hentry
      obtain ⟨hle, hlength⟩ := entry.2.span
      exact ⟨hle, (checkLayout_ok.mp hlayout).1 entry hentry, hlength⟩
    · intro byte hbyte
      exact checkLayout_holds hlayout hbyte
  · intro items items' hperm
    have hiff : ∀ {xs ys : List (Str × Raw)}, xs.Perm ys →
        (auditShard (shard.withHeader xs)).isOk = true →
        (auditShard (shard.withHeader ys)).isOk = true := by
      intro xs ys hxy hok
      cases hx : auditShard (shard.withHeader xs) with
      | error e =>
        rw [hx] at hok
        cases hok
      | ok out =>
        obtain ⟨out', hy⟩ := auditShard_perm hxy hx
        rw [hy]
        rfl
    exact Bool.eq_iff_iff.mpr ⟨hiff hperm, hiff hperm.symm⟩

/-- An entry of a header as it is read. -/
def rawEntry (dtype : String) (shape : List Raw) (start stop : Int) : Raw :=
  .obj [(str "dtype", .str (str dtype)), (str "shape", .arr shape),
    (str "data_offsets", .arr [.int start, .int stop])]

/-- Two tensors with an empty one between them, and metadata. -/
def threeTensors : Shard where
  name := str "m.safetensors"
  linked := false
  inside := true
  regular := true
  inode := 0
  mtimeNs := 0
  ctimeNs := 0
  size := 113
  headerLen := 100
  decodes := true
  scan := some (.obj [(str "y", rawEntry "BF16" [.int 1] 3 5), (str metadataKey, .obj []),
    (str "z", rawEntry "U8" [.int 0] 3 3), (str "x", rawEntry "U8" [.int 3] 0 3)])

def threeTensorsHeader : Header :=
  [(str "y", ⟨.bf16, [1], 3, 5, by decide⟩), (str "z", ⟨.u8, [0], 3, 3, by decide⟩),
    (str "x", ⟨.u8, [3], 0, 3, by decide⟩)]

theorem threeTensorsHeader_layout (shard : Str) :
    checkLayout shard 5 threeTensorsHeader = .ok () := by
  have hsorted : sortedSpans threeTensorsHeader = [(0, 3), (3, 3), (3, 5)] :=
    Spans.mergeSort_eq (by decide) (by decide)
  rw [checkLayout_ok, hsorted]
  exact ⟨by decide, ⟨5, rfl, by decide, rfl, by decide, rfl, by decide, rfl⟩, rfl, rfl⟩

theorem auditShard_threeTensors :
    auditShard threeTensors =
      .ok (⟨str "m.safetensors", 113, 100, 3, 0, 0, 0⟩, threeTensorsHeader) := by
  have hlayout := threeTensorsHeader_layout threeTensors.name
  simp only [auditShard, Effect.bind_ok, orReject_ok, Effect.pure_ok, Value.asDict?_eq_some]
  exact ⟨(), rfl, (), rfl, (), rfl, (), rfl, (), rfl, (), rfl, (), rfl, (), rfl, _, rfl, _, rfl,
    threeTensorsHeader, rfl, (), hlayout, rfl⟩

/-- The byte where the second tensor begins is not the empty one's. -/
theorem shard_tiled_three : threeTensorsHeader.countP (holds 3) = 1 :=
  ((shard_tiled threeTensors).1 _ _ auditShard_threeTensors).2.2.2 3 (by decide)

end Audit
end FlashNext
