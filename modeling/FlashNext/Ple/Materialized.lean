import FlashNext.Effect.Triple
import FlashNext.Ple.Copy
import FlashNext.Posix.Overwrite

/-!
# What the copy loop writes

On a disk that moves some bytes with every read and write, however few, the copy loop ends and
has written every byte of the table once, each from its place in the source
(`copyShards_meets`).  A read that brings nothing ends `_materialize` with an exception before
it publishes, on whatever system (`materialize_meets`).
-/

namespace FlashNext
namespace Ple

open Effect
open Py (Str Value str)
open Text (Bytes)
open Posix

/-! ## A disk with short reads and writes -/

/-- What the open files hold. -/
abbrev Disk := Fd → Bytes

/-- A read brings some of what is there, a write moves some of what it is given. -/
def Disk.Allowed (d : Disk) : (op : Op) → Ans op → Prop
  | .pread fd count offset, a =>
    ∃ chunk, a = .ok chunk ∧ chunk ≠ [] ∧ chunk <+: ((d fd).drop offset).take count
  | .pwrite _ data _, a => ∃ n, a = .ok n ∧ 0 < n ∧ n ≤ data.length
  | .ftruncate _ _, a => a = .ok ()
  | .fdatasync _, a => a = .ok ()
  | _, _ => True

def Disk.after (d : Disk) : (op : Op) → Ans op → Disk
  | .pwrite fd data offset, .ok n =>
    Function.update d fd (overwrite 0 (d fd) (data.take n) offset)
  | .ftruncate fd size, .ok _ => Function.update d fd (resize 0 (d fd) size)
  | _, _ => d

def disk : Sem Op Ans Disk where
  In := Ans
  allowed op a d := d.Allowed op a
  step op a d := (a, d.after op a)

/-- The system, with a trace of all calls. -/
def recorded {W : Type} (D : Sem Op Ans W) : Sem Op Ans (Traced Op Ans W) :=
  traced D fun _ => false

/-- The places of the file that an event wrote, in order. -/
def placesOf (fd : Fd) : Event Op Ans → List Nat
  | ⟨.pwrite fd' _ offset, .ok n⟩ => if fd' = fd then List.range' offset n else []
  | _ => []

/-- The places of the file that a run wrote, in order. -/
def placesWritten (fd : Fd) (log : List (Event Op Ans)) : List Nat := log.flatMap (placesOf fd)

theorem placesWritten_snoc (fd : Fd) (log : List (Event Op Ans)) (e : Event Op Ans) :
    placesWritten fd (log ++ [e]) = placesWritten fd log ++ placesOf fd e := by
  rw [placesWritten, List.flatMap_append, List.flatMap_singleton]
  rfl

/-! ## Single calls -/

section Calls

variable {W α β : Type} {S : Sem Op Ans W} {Pre : Op → W → Prop} {V : α → W → Prop}
  {R : Exc → W → Prop} {w : W}

theorem Meets.orOs {x : CacheM (Except OsError α)}
    (h : Meets S Pre (fun a v => match a with
      | .ok a => V a v
      | .error e => R (.os e) v) R x w) : Meets S Pre V R (orOs x) w := by
  refine Meets.seq h fun a v hv => ?_
  cases a with
  | ok a => exact hv
  | error e => exact hv

theorem Meets.orCache {what : Str} {x : CacheM (Except OsError α)}
    (h : Meets S Pre (fun a v => match a with
      | .ok a => V a v
      | .error e => R (.cache (what ++ e.text)) v) R x w) :
    Meets S Pre V R (orCache what x) w := by
  refine Meets.seq h fun a v hv => ?_
  cases a with
  | ok a => exact hv
  | error e => exact hv

theorem Meets.suppress {V : Unit → W → Prop} {x : CacheM (Except OsError α)}
    (h : Meets S Pre (fun _ v => V () v) R x w) : Meets S Pre V R (suppress x) w :=
  Meets.seq h fun _ _ hv => hv

end Calls

section Disk

abbrev DiskWorld := Traced Op Ans Disk

/-- Every run of the program ends with a value, and no call of it finds the disk stuck. -/
abbrev Succeeds {α : Type} (V : α → DiskWorld → Prop) (p : CacheM α) (w : DiskWorld) : Prop :=
  Meets (recorded disk) (Answered (recorded disk)) V (fun _ _ => False) p w

variable {V : Unit → DiskWorld → Prop} {w : DiskWorld} {src dst fd : Fd}

/-- The run changed the file to this and wrote these places of it. -/
structure Wrote (fd : Fd) (content : Bytes) (places : List Nat) (w w' : DiskWorld) : Prop where
  content : w'.st = Function.update w.st fd content
  places : placesWritten fd w'.log = placesWritten fd w.log ++ places

theorem Wrote.refl : Wrote fd (w.st fd) [] w w :=
  ⟨(Function.update_eq_self fd w.st).symm, (List.append_nil _).symm⟩

theorem Wrote.trans {c c' : Bytes} {ps ps' : List Nat} {w' w'' : DiskWorld}
    (h : Wrote fd c ps w w') (h' : Wrote fd c' ps' w' w'') :
    Wrote fd c' (ps ++ ps') w w'' := by
  constructor
  · rw [h'.content, h.content, Function.update_idem]
  · rw [h'.places, h.places, List.append_assoc]

theorem Wrote.self {c : Bytes} {ps : List Nat} {w' : DiskWorld} (h : Wrote fd c ps w w') :
    w'.st fd = c := by
  rw [h.content, Function.update_self]

theorem Wrote.other {c : Bytes} {ps : List Nat} {w' : DiskWorld} (h : Wrote fd c ps w w')
    {fd' : Fd} (hne : fd' ≠ fd) : w'.st fd' = w.st fd' := by
  rw [h.content, Function.update_of_ne hne]

/-- The run wrote nothing to the file and left the disk as it was. -/
abbrev Idle (fd : Fd) (w w' : DiskWorld) : Prop := Wrote fd (w.st fd) [] w w'

theorem pread_succeeds {V : Bytes → DiskWorld → Prop} {count offset : Nat} (hcount : 0 < count)
    (hin : offset < (w.st src).length)
    (h : ∀ chunk w', chunk ≠ [] → chunk <+: ((w.st src).drop offset).take count →
      Idle dst w w' → V chunk w') :
    Succeeds V (orOs (ask (.pread src count offset))) w := by
  refine Meets.orOs (Meets.perform ?_ ?_)
  · refine ⟨.ok (((w.st src).drop offset).take count), _, rfl, ?_, List.prefix_rfl⟩
    rw [← List.length_pos_iff, List.length_take, List.length_drop]
    omega
  · rintro _ ⟨chunk, rfl, hne, hfront⟩
    refine h chunk _ hne hfront ⟨(Function.update_eq_self dst w.st).symm, ?_⟩
    exact (placesWritten_snoc dst w.log _).trans rfl

theorem fdatasync_succeeds (h : ∀ w', Idle dst w w' → V () w') :
    Succeeds V (orOs (ask (.fdatasync fd))) w := by
  refine Meets.orOs (Meets.perform ⟨.ok (), rfl⟩ ?_)
  intro a ha
  obtain rfl : a = .ok () := ha
  refine h _ ⟨(Function.update_eq_self dst w.st).symm, ?_⟩
  exact (placesWritten_snoc dst w.log _).trans rfl

theorem fadviseDontneed_succeeds {offset count : Nat} (h : ∀ w', Idle dst w w' → V () w') :
    Succeeds V (fadviseDontneed fd offset count) w := by
  refine Meets.suppress (Meets.perform ⟨.ok (), trivial⟩ fun a _ => ?_)
  refine h _ ⟨(Function.update_eq_self dst w.st).symm, ?_⟩
  exact (placesWritten_snoc dst w.log _).trans rfl

theorem ftruncate_succeeds {size : Nat}
    (h : ∀ w', Wrote fd (resize 0 (w.st fd) size) [] w w' → V () w') :
    Succeeds V (orOs (ask (.ftruncate fd size))) w := by
  refine Meets.orOs (Meets.perform ⟨.ok (), rfl⟩ ?_)
  intro a ha
  obtain rfl : a = .ok () := ha
  refine h _ ⟨rfl, ?_⟩
  exact (placesWritten_snoc fd w.log _).trans rfl

theorem pwrite_succeeds {V : Nat → DiskWorld → Prop} {what : Str} {data : Bytes} {offset : Nat}
    (hdata : data ≠ [])
    (h : ∀ n w', 0 < n → n ≤ data.length →
      Wrote fd (overwrite 0 (w.st fd) (data.take n) offset) (List.range' offset n) w w' → V n w') :
    Succeeds V (orCache what (ask (.pwrite fd data offset))) w := by
  have hpos := List.length_pos_iff.mpr hdata
  refine Meets.orCache (Meets.perform ⟨.ok data.length, _, rfl, hpos, Nat.le_refl _⟩ ?_)
  rintro _ ⟨n, rfl, hn, hle⟩
  refine h n _ hn hle ⟨rfl, ?_⟩
  refine (placesWritten_snoc fd w.log _).trans ?_
  show placesWritten fd w.log ++ (if fd = fd then List.range' offset n else []) = _
  rw [if_pos rfl]

/-! ## Loops -/

/-- Whatever each write moves, all of the data ends up at its place. -/
theorem pwriteAll_succeeds {what : Str} {data : Bytes} {offset : Nat}
    (hoffset : offset ≤ (w.st fd).length)
    (h : ∀ w', Wrote fd (overwrite 0 (w.st fd) data offset) (List.range' offset data.length) w w' →
      V () w') :
    Succeeds V (pwriteAll fd what data offset) w := by
  induction hlen : data.length using Nat.strong_induction_on generalizing data offset w with
  | _ size ih =>
    rw [pwriteAll]
    by_cases hdata : data = []
    · rw [if_pos hdata]
      refine h w ?_
      rw [hdata, overwrite_nil hoffset]
      exact Wrote.refl
    rw [if_neg hdata]
    refine Meets.bind (pwrite_succeeds hdata fun n v hn hle hv => ?_)
    rw [if_neg (by omega)]
    have htake : (data.take n).length = n := by
      rw [List.length_take]
      omega
    have hself := hv.self
    have hlength : (v.st fd).length = max (w.st fd).length (offset + n) := by
      rw [hself, length_overwrite hoffset, htake]
    refine ih (data.drop n).length (by rw [List.length_drop]; omega) (by omega)
      (fun w' hw' => h w' ?_) rfl
    have hall := hv.trans hw'
    rw [hself, List.length_drop, List.range'_append_1, Nat.add_sub_cancel' hle] at hall
    rw [← List.take_append_drop n data, ← overwrite_append hoffset, htake,
      List.take_append_drop]
    exact hall

/-- The bytes of a range of a file. -/
def slice (file : Bytes) (offset size : Nat) : Bytes := (file.drop offset).take size

theorem length_slice {file : Bytes} {offset size : Nat} (h : offset + size ≤ file.length) :
    (slice file offset size).length = size := by
  rw [slice, List.length_take, List.length_drop]
  omega

/-- What a read at the front of a range leaves of it. -/
theorem slice_of_prefix {file chunk : Bytes} {offset count size : Nat} (hcount : count ≤ size)
    (h : chunk <+: (file.drop offset).take count) :
    slice file offset size = chunk ++ slice file (offset + chunk.length) (size - chunk.length) := by
  have hfront : chunk <+: file.drop offset := h.trans (List.take_prefix _ _)
  have hlength : chunk.length ≤ size := by
    have := h.length_le
    rw [List.length_take] at this
    omega
  obtain ⟨rest, hrest⟩ := hfront
  rw [slice, slice, ← List.drop_drop, ← hrest, List.drop_left, List.take_append,
    List.take_of_length_le hlength]

theorem copyRest_succeeds {what : Str} {srcOffset dstOffset size remaining sinceSync : Nat}
    (hne : src ≠ dst) (hr : remaining ≤ size) (hsrc : srcOffset + size ≤ (w.st src).length)
    (hdst : dstOffset + (size - remaining) ≤ (w.st dst).length)
    (h : ∀ w', Wrote dst
      (overwrite 0 (w.st dst) (slice (w.st src) (srcOffset + (size - remaining)) remaining)
        (dstOffset + (size - remaining)))
      (List.range' (dstOffset + (size - remaining)) remaining) w w' → V () w') :
    Succeeds V (copyRest src dst srcOffset dstOffset size what remaining sinceSync) w := by
  induction remaining using Nat.strong_induction_on generalizing sinceSync w with
  | _ remaining ih =>
    rw [copyRest]
    by_cases hpos : 0 < remaining
    · rw [if_pos hpos]
      have hbuffer : 0 < ioBufferBytes := by decide
      refine Meets.bind (pread_succeeds (by omega) (by omega)
        fun chunk w₁ hchunk hfront (hw₁ : Idle dst w w₁) => ?_)
      rw [if_neg hchunk]
      have hchunkpos := List.length_pos_iff.mpr hchunk
      have hchunkle : chunk.length ≤ remaining := by
        have := hfront.length_le
        rw [List.length_take] at this
        omega
      have hslice := slice_of_prefix (Nat.min_le_right ioBufferBytes remaining) hfront
      have hself₁ := hw₁.self
      refine Meets.bind (pwriteAll_succeeds (by rw [hself₁]; exact hdst) fun w₂ hw₂ => ?_)
      have hboth := hw₁.trans hw₂
      rw [hself₁, List.nil_append] at hboth
      -- what is left of the range, after whatever the round does for the cache
      have hrest : ∀ sinceSync w₃, Idle dst w₂ w₃ →
          Succeeds V (copyRest src dst srcOffset dstOffset size what (remaining - chunk.length)
            sinceSync) w₃ := by
        intro sinceSync w₃ hw₃
        have hthree := hboth.trans hw₃
        rw [hboth.self, List.append_nil] at hthree
        have hdone : size - (remaining - chunk.length) = size - remaining + chunk.length := by
          omega
        refine ih (remaining - chunk.length) (by omega) (by omega)
          (by rw [hthree.other hne]; exact hsrc) ?_ fun w' hw' => h w' ?_
        · rw [hthree.self, length_overwrite hdst]
          omega
        · have hall := hthree.trans hw'
          rw [hthree.self, hthree.other hne, hdone, ← Nat.add_assoc, ← Nat.add_assoc,
            overwrite_append hdst, ← hslice, List.range'_append_1,
            Nat.add_sub_cancel' hchunkle] at hall
          exact hall
      by_cases hsync : fadviseIntervalBytes ≤ sinceSync + chunk.length
      · rw [if_pos hsync]
        refine Meets.bind (fdatasync_succeeds fun w₃ (hw₃ : Idle dst _ w₃) => ?_)
        refine Meets.bind (fadviseDontneed_succeeds fun w₄ (hw₄ : Idle dst _ w₄) => ?_)
        refine Meets.bind (fadviseDontneed_succeeds fun w₅ (hw₅ : Idle dst _ w₅) => ?_)
        refine hrest 0 w₅ ?_
        have hidle := (hw₃.trans hw₄).trans hw₅
        rw [hw₄.self, hw₃.self] at hidle
        exact hidle
      · rw [if_neg hsync]
        exact hrest _ w₂ Wrote.refl
    · rw [if_neg hpos]
      obtain rfl : remaining = 0 := by omega
      refine h w ?_
      rw [show slice (w.st src) (srcOffset + (size - 0)) 0 = [] from List.take_zero,
        overwrite_nil hdst]
      exact Wrote.refl

theorem copyRange_succeeds {what : Str} {srcOffset dstOffset size : Nat} (hne : src ≠ dst)
    (hsrc : srcOffset + size ≤ (w.st src).length) (hdst : dstOffset ≤ (w.st dst).length)
    (h : ∀ w', Wrote dst (overwrite 0 (w.st dst) (slice (w.st src) srcOffset size) dstOffset)
      (List.range' dstOffset size) w w' → V () w') :
    Succeeds V (copyRange src dst srcOffset dstOffset size what) w := by
  refine Meets.bind (copyRest_succeeds hne (Nat.le_refl size) hsrc (by omega) fun w₁ hw₁ => ?_)
  rw [Nat.sub_self, Nat.add_zero, Nat.add_zero] at hw₁
  refine Meets.bind (fdatasync_succeeds fun w₂ (hw₂ : Idle dst _ w₂) => ?_)
  refine Meets.bind (fadviseDontneed_succeeds fun w₃ (hw₃ : Idle dst _ w₃) => ?_)
  refine fadviseDontneed_succeeds fun w₄ (hw₄ : Idle dst _ w₄) => h w₄ ?_
  have hall := ((hw₁.trans hw₂).trans hw₃).trans hw₄
  rw [hw₃.self, hw₂.self, hw₁.self, List.append_nil, List.append_nil, List.append_nil] at hall
  exact hall

/-! ## The table -/

/-- The table after the copies of these shards, one after the other. -/
def laid (size : Nat) (source : Bytes) (shards : List Shard) (table : Bytes) : Bytes :=
  shards.foldl
    (fun table shard => overwrite 0 table (slice source shard.offset size) (shard.id * size)) table

/-- The places that these copies write. -/
def laidPlaces (size : Nat) (shards : List Shard) : List Nat :=
  shards.flatMap fun shard => List.range' (shard.id * size) size

/-- The shards fit the source and the table. -/
structure Fitting (size : Nat) (source table : Bytes) (shards : List Shard) : Prop where
  size_eq : ∀ shard ∈ shards, shard.size = size
  source_le : ∀ shard ∈ shards, shard.offset + size ≤ source.length
  table_le : ∀ shard ∈ shards, shard.id * size + size ≤ table.length

theorem Fitting.tail {size : Nat} {source table table' : Bytes} {shard : Shard}
    {shards : List Shard} (h : Fitting size source table (shard :: shards))
    (hlength : table'.length = table.length) : Fitting size source table' shards where
  size_eq s hs := h.size_eq s (List.mem_cons_of_mem _ hs)
  source_le s hs := h.source_le s (List.mem_cons_of_mem _ hs)
  table_le s hs := hlength ▸ h.table_le s (List.mem_cons_of_mem _ hs)

theorem Fitting.length_first {size : Nat} {source table : Bytes} {shard : Shard}
    {shards : List Shard} (h : Fitting size source table (shard :: shards)) :
    (overwrite 0 table (slice source shard.offset size) (shard.id * size)).length =
      table.length := by
  have hsource := h.source_le shard List.mem_cons_self
  have htable := h.table_le shard List.mem_cons_self
  rw [length_overwrite (by omega), length_slice hsource]
  omega

theorem length_laid {size : Nat} {source table : Bytes} {shards : List Shard}
    (h : Fitting size source table shards) : (laid size source shards table).length =
      table.length := by
  induction shards generalizing table with
  | nil => rfl
  | cons shard shards ih =>
    have hfirst := h.length_first
    rw [laid, List.foldl_cons, ← laid, ih (h.tail hfirst), hfirst]

/-- The copies leave the block of every other shard alone. -/
theorem getElem?_laid_of_ne {size i x : Nat} {source table : Bytes} {shards : List Shard}
    (h : Fitting size source table shards) (hne : ∀ shard ∈ shards, shard.id ≠ i)
    (hx : i * size ≤ x) (hx' : x < i * size + size) :
    (laid size source shards table)[x]? = table[x]? := by
  induction shards generalizing table with
  | nil => rfl
  | cons shard shards ih =>
    have hsource := h.source_le shard List.mem_cons_self
    have htable := h.table_le shard List.mem_cons_self
    rw [laid, List.foldl_cons, ← laid, ih (h.tail h.length_first) fun s hs =>
      hne s (List.mem_cons_of_mem _ hs), getElem?_overwrite (by omega), length_slice hsource,
      if_neg (block_apart (hne shard List.mem_cons_self).symm hx hx')]

/-- Each shard stands in its own block, whatever the order of the copies. -/
theorem getElem?_laid {size j : Nat} {source table : Bytes} {shards : List Shard}
    (h : Fitting size source table shards) (hnodup : (shards.map (·.id)).Nodup) {shard : Shard}
    (hshard : shard ∈ shards) (hj : j < size) :
    (laid size source shards table)[shard.id * size + j]? = source[shard.offset + j]? := by
  induction shards generalizing table with
  | nil => cases hshard
  | cons s shards ih =>
    rw [List.map_cons, List.nodup_cons] at hnodup
    rw [laid, List.foldl_cons, ← laid]
    rcases List.mem_cons.mp hshard with rfl | hshard
    · have hsource := h.source_le shard List.mem_cons_self
      have htable := h.table_le shard List.mem_cons_self
      rw [getElem?_laid_of_ne (h.tail h.length_first) (i := shard.id) ?_ (by omega) (by omega),
        getElem?_overwrite (by omega), length_slice hsource, if_pos (by omega), slice,
        List.getElem?_take_of_lt (by omega), List.getElem?_drop]
      · congr 1
        omega
      · intro s hs heq
        exact hnodup.1 (List.mem_map.mpr ⟨s, hs, heq⟩)
    · exact ih (h.tail h.length_first) hnodup.2 hshard

theorem copyEach_succeeds {size : Nat} {shards : List Shard} (hne : src ≠ dst)
    (hfit : Fitting size (w.st src) (w.st dst) shards)
    (h : ∀ w', Wrote dst (laid size (w.st src) shards (w.st dst)) (laidPlaces size shards) w w' →
      V () w') : Succeeds V (copyEach src dst shards) w := by
  induction shards generalizing w with
  | nil => exact h w Wrote.refl
  | cons shard shards ih =>
    have hsize := hfit.size_eq shard List.mem_cons_self
    have htable := hfit.table_le shard List.mem_cons_self
    refine Meets.bind (copyRange_succeeds hne
      (by rw [hsize]; exact hfit.source_le shard List.mem_cons_self) (by rw [hsize]; omega)
      fun w₁ hw₁ => ?_)
    rw [hsize] at hw₁
    refine ih ?_ fun w' hw' => h w' ?_
    · rw [hw₁.self, hw₁.other hne]
      exact hfit.tail hfit.length_first
    · have hall := hw₁.trans hw'
      rw [hw₁.self, hw₁.other hne] at hall
      exact hall

end Disk

/-! ## The shards of a plan -/

theorem physicalOrder_perm (shards : List Shard) : (physicalOrder shards).Perm shards :=
  List.mergeSort_perm shards _

theorem Plan.Valid.map_id {plan : Plan} (h : plan.Valid) :
    plan.shards.map (·.id) = List.range plan.shardCount := by
  refine List.ext_getElem ?_ fun i hi hi' => ?_
  · rw [List.length_map, h.length_shards, List.length_range]
  · rw [List.getElem_map, List.getElem_range]
    exact h.shard_id i (by rwa [List.length_map] at hi)

/-- The blocks of all shards are the table, each place once. -/
theorem Plan.Valid.places_perm {plan : Plan} (h : plan.Valid) :
    (laidPlaces (plan.rowsPerShard * plan.rowWidth) (physicalOrder plan.shards)).Perm
      (List.range plan.table.size) := by
  refine ((physicalOrder_perm plan.shards).flatMap_right _).trans ?_
  have hblocks : (plan.shards.flatMap fun shard =>
      List.range' (shard.id * (plan.rowsPerShard * plan.rowWidth))
        (plan.rowsPerShard * plan.rowWidth)) = List.range plan.table.size := by
    rw [h.table_size, ← flatMap_blocks, ← h.map_id, List.flatMap_map]
  rw [hblocks]

theorem Plan.Valid.fitting {plan : Plan} (h : plan.Valid) {source table : Bytes}
    (hsource : plan.source.size ≤ source.length) (htable : table.length = plan.table.size) :
    Fitting (plan.rowsPerShard * plan.rowWidth) source table (physicalOrder plan.shards) := by
  have hmem : ∀ shard ∈ physicalOrder plan.shards, shard ∈ plan.shards := fun shard hshard =>
    (physicalOrder_perm plan.shards).mem_iff.mp hshard
  refine ⟨fun shard hs => h.shard_size shard (hmem shard hs), fun shard hs => ?_,
    fun shard hs => ?_⟩
  · have := h.shard_end shard (hmem shard hs)
    rw [h.shard_size shard (hmem shard hs)] at this
    omega
  · have hid : shard.id ∈ plan.shards.map (·.id) := List.mem_map_of_mem (hmem shard hs)
    rw [h.map_id, List.mem_range] at hid
    rw [htable, h.table_size, ← Nat.succ_mul]
    exact Nat.mul_le_mul_right _ hid

/-- The table holds the shards of the source, each at the place of its id. -/
structure Placed (plan : Plan) (source table : Bytes) : Prop where
  length_table : table.length = plan.table.size
  getElem : ∀ shard ∈ plan.shards, ∀ j < shard.size,
    table[shard.id * shard.size + j]? = source[shard.offset + j]?

theorem Plan.Valid.placed {plan : Plan} (h : plan.Valid) {source table : Bytes}
    (hsource : plan.source.size ≤ source.length) (htable : table.length = plan.table.size) :
    Placed plan source
      (laid (plan.rowsPerShard * plan.rowWidth) source (physicalOrder plan.shards) table) := by
  have hfit := h.fitting hsource htable
  refine ⟨(length_laid hfit).trans htable, fun shard hshard j hj => ?_⟩
  rw [h.shard_size shard hshard] at hj ⊢
  refine getElem?_laid hfit ?_ ((physicalOrder_perm plan.shards).mem_iff.mpr hshard) hj
  have hids := (physicalOrder_perm plan.shards).map (·.id)
  rw [h.map_id] at hids
  exact hids.nodup_iff.mpr List.nodup_range

theorem copyShards_succeeds {plan : Plan} (hplan : plan.Valid) {src tmp : Fd} (hne : src ≠ tmp)
    {w : DiskWorld} (hsource : plan.source.size ≤ (w.st src).length) :
    Succeeds (fun _ w' => ∃ table places, Wrote tmp table places w w' ∧
      Placed plan (w.st src) table ∧ places.Perm (List.range plan.table.size))
      (copyShards src tmp plan) w := by
  refine Meets.bind (ftruncate_succeeds fun w₁ hw₁ => ?_)
  have hlength : (w₁.st tmp).length = plan.table.size := by
    rw [hw₁.self, length_resize]
  have hsource₁ : plan.source.size ≤ (w₁.st src).length := by rwa [hw₁.other hne]
  refine copyEach_succeeds hne (hplan.fitting hsource₁ hlength) fun w' hw' => ?_
  refine ⟨_, _, hw₁.trans hw', ?_, hplan.places_perm⟩
  rw [← hw₁.other hne]
  exact hplan.placed hsource₁ hlength

/-! ## A read that brings nothing -/

def isEmptyRead : Event Op Ans → Bool
  | ⟨.pread _ _ _, .ok []⟩ => true
  | _ => false

/-- The call moves a file to a public name. -/
def isPublish : Op → Bool
  | .replace _ _ _ => true
  | _ => false

section Steady

variable {W α β : Type} {D : Sem Op Ans W}

/-- The run added only such events to the trace. -/
def Since (P : Event Op Ans → Prop) (w w' : Traced Op Ans W) : Prop :=
  ∃ evs, w'.log = w.log ++ evs ∧ ∀ e ∈ evs, P e

theorem Since.refl {P : Event Op Ans → Prop} (w : Traced Op Ans W) : Since P w w :=
  ⟨[], (List.append_nil _).symm, fun _ he => absurd he List.not_mem_nil⟩

theorem Since.trans {P : Event Op Ans → Prop} {w w' w'' : Traced Op Ans W} (h : Since P w w')
    (h' : Since P w' w'') : Since P w w'' := by
  obtain ⟨evs, hlog, hall⟩ := h
  obtain ⟨evs', hlog', hall'⟩ := h'
  refine ⟨evs ++ evs', by rw [hlog', hlog, List.append_assoc], fun e he => ?_⟩
  rcases List.mem_append.mp he with he | he
  · exact hall e he
  · exact hall' e he

theorem Since.mono {P Q : Event Op Ans → Prop} {w w' : Traced Op Ans W} (h : Since P w w')
    (hPQ : ∀ e, P e → Q e) : Since Q w w' := by
  obtain ⟨evs, hlog, hall⟩ := h
  exact ⟨evs, hlog, fun e he => hPQ e (hall e he)⟩

/-- The events of a run that gives a value are of one kind, and those of a run that raises of
another. -/
def Leaves (D : Sem Op Ans W) (P Q : Event Op Ans → Prop) (p : CacheM α) : Prop :=
  ∀ w, Meets (recorded D) (fun _ _ => True) (fun _ w' => Since P w w') (fun _ w' => Since Q w w')
    p w

section Leaves

variable {P Q : Event Op Ans → Prop}

theorem Leaves.ret (a : α) : Leaves D P Q (.ret a : CacheM α) := fun w => Since.refl w

theorem Leaves.throw (e : Exc) : Leaves D P Q (.throw e : CacheM α) := fun w => Since.refl w

theorem Leaves.bind (hPQ : ∀ e, P e → Q e) {p : CacheM α} {f : α → CacheM β}
    (hp : Leaves D P Q p) (hf : ∀ a, Leaves D P Q (f a)) : Leaves D P Q (p >>= f) := by
  refine fun w => Meets.bind ((hp w).mono (fun a v hv => ?_) fun _ _ hv => hv)
  exact (hf a v).mono (fun _ _ hv' => hv.trans hv') fun _ _ hv' => (hv.mono hPQ).trans hv'

theorem Leaves.onRaise (hPQ : ∀ e, P e → Q e) {p : CacheM α} {fin : CacheM Unit}
    (hp : Leaves D P Q p) (hfin : Leaves D P Q fin) : Leaves D P Q (onRaise p fin) := by
  refine fun w => Meets.handle ((hp w).mono (fun _ _ hv => hv) fun e v hv => ?_)
  refine Meets.bind ((hfin v).mono (fun _ v' hv' => ?_) fun _ _ hv' => hv.trans hv')
  exact hv.trans (hv'.mono hPQ)

theorem Leaves.ofExcept (r : Except Exc α) : Leaves D P Q (Prog.ofExcept r) := by
  cases r with
  | ok a => exact Leaves.ret a
  | error e => exact Leaves.throw e

theorem Leaves.ite {c : Prop} [Decidable c] {p q : CacheM α} (hp : c → Leaves D P Q p)
    (hq : ¬ c → Leaves D P Q q) : Leaves D P Q (if c then p else q) := by
  split
  · exact hp ‹_›
  · exact hq ‹_›

theorem since_call {op : Op} {w : Traced Op Ans W} {i : D.In op}
    (h : P ⟨op, (D.step op i w.st).1⟩) : Since P w ((recorded D).step op i w).2 := by
  refine ⟨[⟨op, (D.step op i w.st).1⟩], rfl, fun e he => ?_⟩
  rw [List.mem_singleton] at he
  exact he ▸ h

theorem Leaves.ask {op : Op} (h : ∀ a, P ⟨op, a⟩) : Leaves D P Q (ask op) :=
  fun _ => Meets.perform trivial fun _ _ => since_call (h _)

end Leaves

/-- An event that does not publish. -/
def Hidden (e : Event Op Ans) : Prop := isPublish e.1 = false

/-- An event that is no read of nothing. -/
def Filled (e : Event Op Ans) : Prop := isEmptyRead e = false

def Plain (e : Event Op Ans) : Prop := Filled e ∧ Hidden e

/-- The program publishes nothing, and gives a value only when every read brought something. -/
abbrev Steady (D : Sem Op Ans W) (p : CacheM α) : Prop := Leaves D Plain Hidden p

theorem Steady.bind {p : CacheM α} {f : α → CacheM β} (hp : Steady D p)
    (hf : ∀ a, Steady D (f a)) : Steady D (p >>= f) :=
  Leaves.bind (fun _ he => he.2) hp hf

theorem Steady.orOs {x : CacheM (Except OsError α)} (h : Steady D x) : Steady D (orOs x) :=
  Steady.bind h fun _ => Leaves.ofExcept _

theorem Steady.orCache {what : Str} {x : CacheM (Except OsError α)} (h : Steady D x) :
    Steady D (orCache what x) :=
  Steady.bind h fun _ => Leaves.ofExcept _

theorem Steady.suppress {x : CacheM (Except OsError α)} (h : Steady D x) :
    Steady D (suppress x) :=
  Steady.bind h fun _ => Leaves.ret ()

theorem Steady.require (c : Bool) (e : Exc) : Steady D (Prog.require c e) := by
  cases c with
  | true => exact Leaves.ret ()
  | false => exact Leaves.throw e

/-- The code asks of each read whether it brought something before it goes on. -/
theorem Steady.read {fd : Fd} {count offset : Nat} {toExc : OsError → Exc} {e : Exc}
    {k : Bytes → CacheM α} (hk : ∀ chunk, chunk ≠ [] → Steady D (k chunk)) :
    Steady D (Ple.ask (.pread fd count offset) >>= fun answer =>
      Prog.ofExcept (answer.mapError toExc) >>= fun chunk =>
        if chunk = [] then .throw e else k chunk) := by
  intro w
  refine Meets.bind (Meets.perform trivial fun i _ => ?_)
  have hhidden : Since Hidden w ((recorded D).step (.pread fd count offset) i w).2 :=
    since_call rfl
  refine Meets.bind (Meets.ofExcept (fun chunk hchunk => ?_) fun _ _ => hhidden)
  by_cases hempty : chunk = []
  · rw [if_pos hempty]
    exact hhidden
  · rw [if_neg hempty]
    have hplain : Since Plain w ((recorded D).step (.pread fd count offset) i w).2 := by
      refine since_call ⟨?_, rfl⟩
      have hanswer : (D.step (.pread fd count offset) i w.st).1 = .ok chunk := by
        change Except.mapError toExc (D.step (.pread fd count offset) i w.st).1 = .ok chunk
          at hchunk
        cases h : (D.step (.pread fd count offset) i w.st).1 with
        | ok c =>
          rw [h] at hchunk
          have hc : (.ok c : Except Exc Bytes) = .ok chunk := hchunk
          rw [Except.ok.inj hc]
        | error e =>
          rw [h] at hchunk
          cases hchunk
      rw [hanswer]
      cases chunk with
      | nil => exact absurd rfl hempty
      | cons b chunk => rfl
    exact (hk chunk hempty _).mono (fun _ _ hv => hplain.trans hv) fun _ _ hv => hhidden.trans hv

theorem fadviseDontneed_steady (fd : Fd) (offset count : Nat) :
    Steady D (fadviseDontneed fd offset count) :=
  Steady.suppress (Leaves.ask fun _ => ⟨rfl, rfl⟩)

theorem pwriteAll_steady (fd : Fd) (what : Str) (data : Bytes) (offset : Nat) :
    Steady D (pwriteAll fd what data offset) := by
  induction data, offset using pwriteAll.induct with
  | case1 offset =>
    rw [pwriteAll, if_pos rfl]
    exact Leaves.ret ()
  | case2 data offset hdata ih =>
    rw [pwriteAll, if_neg hdata]
    exact (Steady.orCache (Leaves.ask fun _ => ⟨rfl, rfl⟩)).bind fun n =>
      Leaves.ite (fun _ => Leaves.throw _) fun hn => ih n hn

theorem hashRest_steady (fd : Fd) (size offset : Nat) (what : Str) (fed : Bytes)
    (advised : Nat) : Steady D (hashRest fd size offset what fed advised) := by
  induction hleft : size - fed.length using Nat.strong_induction_on generalizing fed advised with
  | _ left ih =>
    rw [hashRest]
    refine Leaves.ite (fun hlt => ?_) fun _ => ?_
    · refine Steady.read fun chunk hchunk => ?_
      have hpos := List.length_pos_iff.mpr hchunk
      have hrest : ∀ advised, Steady D (hashRest fd size offset what (fed ++ chunk) advised) :=
        fun advised => ih (size - (fed ++ chunk).length)
          (by rw [List.length_append]; omega) _ _ rfl
      refine Leaves.ite (fun _ => ?_) fun _ => hrest _
      exact (fadviseDontneed_steady _ _ _).bind fun _ => hrest _
    · refine Leaves.ite (fun _ => ?_) fun _ => Leaves.ret _
      exact (fadviseDontneed_steady _ _ _).bind fun _ => Leaves.ret _

theorem copyRest_steady (src dst : Fd) (srcOffset dstOffset size : Nat) (what : Str)
    (remaining sinceSync : Nat) :
    Steady D (copyRest src dst srcOffset dstOffset size what remaining sinceSync) := by
  induction remaining using Nat.strong_induction_on generalizing sinceSync with
  | _ remaining ih =>
    rw [copyRest]
    refine Leaves.ite (fun hlt => ?_) fun _ => Leaves.ret ()
    refine Steady.read fun chunk hchunk => (pwriteAll_steady _ _ _ _).bind fun _ => ?_
    have hpos := List.length_pos_iff.mpr hchunk
    have hrest : ∀ sinceSync, Steady D (copyRest src dst srcOffset dstOffset size what
        (remaining - chunk.length) sinceSync) :=
      ih (remaining - chunk.length) (by omega)
    refine Leaves.ite (fun _ => ?_) fun _ => hrest _
    refine (Steady.orOs (Leaves.ask fun _ => ⟨rfl, rfl⟩)).bind fun _ => ?_
    refine (fadviseDontneed_steady _ _ _).bind fun _ => ?_
    exact (fadviseDontneed_steady _ _ _).bind fun _ => hrest _

theorem copyRange_steady (src dst : Fd) (srcOffset dstOffset size : Nat) (what : Str) :
    Steady D (copyRange src dst srcOffset dstOffset size what) := by
  refine (copyRest_steady _ _ _ _ _ _ _ _).bind fun _ => ?_
  refine (Steady.orOs (Leaves.ask fun _ => ⟨rfl, rfl⟩)).bind fun _ => ?_
  exact (fadviseDontneed_steady _ _ _).bind fun _ => fadviseDontneed_steady _ _ _

theorem copyShards_steady (src tmp : Fd) (plan : Plan) : Steady D (copyShards src tmp plan) := by
  refine (Steady.orOs (Leaves.ask fun _ => ⟨rfl, rfl⟩)).bind fun _ => ?_
  generalize physicalOrder plan.shards = shards
  induction shards with
  | nil => exact Leaves.ret ()
  | cons shard shards ih => exact (copyRange_steady _ _ _ _ _ _).bind fun _ => ih

theorem stageTable_steady (sha256 : Bytes → Str) (srcFd tmpFd : Fd) (plan : Plan)
    (srcBaseline : Snapshot) : Steady D (stageTable sha256 srcFd tmpFd plan srcBaseline) := by
  refine (copyShards_steady _ _ _).bind fun _ => ?_
  refine (Steady.orOs (Leaves.ask fun _ => ⟨rfl, rfl⟩)).bind fun _ => ?_
  refine (fadviseDontneed_steady _ _ _).bind fun _ => ?_
  refine (hashRest_steady _ _ _ _ _ _).bind fun _ => ?_
  refine (Steady.require _ _).bind fun _ => ?_
  refine (Steady.orOs (Leaves.ask fun _ => ⟨rfl, rfl⟩)).bind fun _ => ?_
  refine (Steady.require _ _).bind fun _ => ?_
  exact Steady.orOs (Leaves.ask fun _ => ⟨rfl, rfl⟩)

/-- Every read brought something, or nothing was published. -/
def Honest (w w' : Traced Op Ans W) : Prop := Since Filled w w' ∨ Since Hidden w w'

/-- The program gives a value only when every read brought something, and raises before it
published when one did not. -/
def Careful (D : Sem Op Ans W) (p : CacheM α) : Prop :=
  ∀ w, Meets (recorded D) (fun _ _ => True) (fun _ w' => Since Filled w w')
    (fun _ w' => Honest w w') p w

theorem Careful.of_leaves {p : CacheM α} (h : Leaves D Filled Filled p) : Careful D p :=
  fun w => (h w).mono (fun _ _ hv => hv) fun _ _ hv => .inl hv

/-- Nothing is published before the first part is done. -/
theorem Careful.bind {p : CacheM α} {f : α → CacheM β} (hp : Steady D p)
    (hf : ∀ a, Careful D (f a)) : Careful D (p >>= f) := by
  refine fun w => Meets.bind ((hp w).mono (fun a v hv => ?_) fun _ _ hv => .inr hv)
  have hfilled : Since Filled w v := hv.mono fun _ he => he.1
  have hhidden : Since Hidden w v := hv.mono fun _ he => he.2
  refine (hf a v).mono (fun _ _ hv' => hfilled.trans hv') fun _ _ hv' => ?_
  exact hv'.imp hfilled.trans hhidden.trans

theorem Careful.catchOs {what : Str} {x : CacheM α} (h : Careful D x) :
    Careful D (catchOs what x) := by
  refine fun w => Meets.handle ((h w).mono (fun _ _ hv => hv) fun e v hv => ?_)
  cases e with
  | cache text => exact hv
  | busy text => exact hv
  | os error => exact hv

theorem materialize_careful (sha256 : Bytes → Str) (cacheFd srcFd : Fd) (plan : Plan)
    (srcBaseline : Snapshot) : Careful D (materialize sha256 cacheFd srcFd plan srcBaseline) := by
  refine Careful.bind ((Steady.orOs (Leaves.ask fun _ => ⟨rfl, rfl⟩)).bind fun _ =>
    Steady.require _ _) fun _ => ?_
  refine Careful.bind (Leaves.ask fun _ => ⟨rfl, rfl⟩) fun suffix => ?_
  refine Careful.bind (Steady.orOs (Leaves.ask fun _ => ⟨rfl, rfl⟩)) fun tmpFd => ?_
  refine Careful.catchOs (Careful.bind (Leaves.onRaise (fun _ he => he.2) ?_ ?_) fun _ => ?_)
  · refine (stageTable_steady _ _ _ _ _).bind fun _ => ?_
    exact Steady.orOs (Leaves.ask fun _ => ⟨rfl, rfl⟩)
  · refine (Steady.suppress (Leaves.ask fun _ => ⟨rfl, rfl⟩)).bind fun _ => ?_
    exact Steady.suppress (Leaves.ask fun _ => ⟨rfl, rfl⟩)
  -- the rest makes no read
  have hcall : ∀ op, (∀ a, Filled ⟨op, a⟩) → Leaves D Filled Filled (Ple.ask op) :=
    fun _ h => Leaves.ask h
  have hid : ∀ e, Filled e → Filled e := fun _ he => he
  refine Careful.of_leaves (Leaves.bind hid (Leaves.onRaise hid ?_ ?_) fun _ => ?_)
  · exact Leaves.bind hid (hcall _ fun _ => rfl) fun _ => Leaves.ofExcept _
  · exact Leaves.bind hid (hcall _ fun _ => rfl) fun _ => Leaves.ret ()
  · refine Leaves.bind hid (Leaves.bind hid (hcall _ fun _ => rfl) fun _ => Leaves.ofExcept _)
      fun _ => Leaves.ret _

end Steady

/-! ## The claim of the copy -/

/-- The run ended with a value and wrote every place of the table once, the bytes of each shard
in the block of its id. -/
structure CopiedOnce (plan : Plan) (src tmp : Fd) (w w' : DiskWorld) (o : Outcome Exc Unit) :
    Prop where
  value : o = .value ()
  placed : Placed plan (w.st src) (w'.st tmp)
  source : w'.st src = w.st src
  places : ∃ places, placesWritten tmp w'.log = placesWritten tmp w.log ++ places ∧
    places.Perm (List.range plan.table.size)

/-- For every plan the validator lets through, the copy loop never gets stuck on a disk that
moves something with every call, and all of its runs copy once; and on any system at all, a run
of `_materialize` in which a read brings nothing raises and publishes nothing. -/
theorem materialize_copies {interp : Interp} {v : Value} {plan : Plan}
    (hplan : validatePlan interp v = .ok plan) :
    (∀ (src tmp : Fd) (w : DiskWorld), src ≠ tmp → plan.source.size ≤ (w.st src).length →
      Guarded (recorded disk) (Answered (recorded disk)) (copyShards src tmp plan) w ∧
      ∀ o w', Run (recorded disk) (copyShards src tmp plan) w o w' →
        CopiedOnce plan src tmp w w' o) ∧
    ∀ {W : Type} (D : Sem Op Ans W) (sha256 : Bytes → Str) (cacheFd srcFd : Fd)
      (srcBaseline : Snapshot) (w : Traced Op Ans W) (o : Outcome Exc Nat) (w' : Traced Op Ans W),
      Run (recorded D) (materialize sha256 cacheFd srcFd plan srcBaseline) w o w' →
      ∃ evs, w'.log = w.log ++ evs ∧ ((∃ e ∈ evs, isEmptyRead e = true) →
        (∃ e, o = .raised e) ∧ ∀ e ∈ evs, isPublish e.1 = false) := by
  have hvalid := validatePlan_ok hplan
  refine ⟨fun src tmp w hne hsource => ?_, fun D sha256 cacheFd srcFd srcBaseline w o w' hrun => ?_⟩
  · have hmeets := copyShards_succeeds hvalid hne hsource
    refine ⟨hmeets.guarded, fun o w' hrun => ?_⟩
    have hends := hmeets.ends hrun
    cases o with
    | value u =>
      obtain ⟨table, places, hwrote, hplaced, hperm⟩ := hends
      exact {
        value := rfl
        placed := by rw [hwrote.self]; exact hplaced
        source := hwrote.other hne
        places := ⟨places, hwrote.places, hperm⟩ }
    | raised e => exact hends.elim
    | cut => exact hends.elim
  · have hends := (materialize_careful sha256 cacheFd srcFd plan srcBaseline w).ends hrun
    have hfilled : Since Filled w w' → ∃ evs, w'.log = w.log ++ evs ∧
        ((∃ e ∈ evs, isEmptyRead e = true) →
          (∃ e, o = .raised e) ∧ ∀ e ∈ evs, isPublish e.1 = false) := by
      rintro ⟨evs, hlog, hall⟩
      refine ⟨evs, hlog, fun hfailed => ?_⟩
      obtain ⟨e, he, hempty⟩ := hfailed
      rw [hall e he] at hempty
      cases hempty
    cases o with
    | value n => exact hfilled hends
    | raised e =>
      rcases hends with hends | ⟨evs, hlog, hall⟩
      · exact hfilled hends
      · exact ⟨evs, hlog, fun _ => ⟨⟨e, rfl⟩, hall⟩⟩
    | cut => exact hends.elim

def sampleInterp : Interp := ⟨fun _ => [], fun _ => []⟩

/-- Two shards of two rows, the second before the first in the source, with a gap. -/
def sampleValue : Value :=
  let hash : Value := .str (List.replicate 64 48)
  .dict [
    (str "schema", .str planSchema),
    (str "model", .dict [(str "id", .str modelId),
      (str "revision", .str (List.replicate 40 48))]),
    (str "source", .dict [(str "name", .str (str "ple.safetensors")), (str "size", .int 16),
      (str "sha256", hash), (str "header_sha256", hash), (str "data_start", .int 8)]),
    (str "tensor_prefix", .str (str "ple")),
    (str "dtype", .str tableDtype),
    (str "shard_count", .int 2),
    (str "rows_per_shard", .int 2),
    (str "row_width", .int 1),
    (str "table", .dict [(str "name", .str (tableFilename 4 1 4)),
      (str "shape", .list [.int 4, .int 1]), (str "size", .int 4), (str "sha256", hash)]),
    (str "scale", .dict [(str "name", .str (str "ple.weight_scale")), (str "offset", .int 8),
      (str "size", .int 2), (str "sha256", hash)]),
    (str "shards", .list [
      .dict [(str "id", .int 0), (str "name", .str (shardTensorName (str "ple") 0)),
        (str "offset", .int 13), (str "size", .int 2), (str "sha256", hash)],
      .dict [(str "id", .int 1), (str "name", .str (shardTensorName (str "ple") 1)),
        (str "offset", .int 10), (str "size", .int 2), (str "sha256", hash)]])]

def samplePlan : Plan where
  revision := List.replicate 40 48
  source := ⟨str "ple.safetensors", 16, List.replicate 64 48, List.replicate 64 48, 8⟩
  tensorPrefix := str "ple"
  shardCount := 2
  rowsPerShard := 2
  rowWidth := 1
  table := ⟨tableFilename 4 1 4, 4, 1, 4, List.replicate 64 48⟩
  scale := ⟨str "ple.weight_scale", 8, 2, List.replicate 64 48⟩
  shards := [⟨⟨shardTensorName (str "ple") 0, 13, 2, List.replicate 64 48⟩, 0⟩,
    ⟨⟨shardTensorName (str "ple") 1, 10, 2, List.replicate 64 48⟩, 1⟩]

theorem validatePlan_sample : validatePlan sampleInterp sampleValue = .ok samplePlan := by
  have hspans : spansApart (sortedSpans
      (samplePlan.shards.map (·.toSegment) ++ [samplePlan.scale])) = true := by
    simp [sortedSpans, samplePlan, List.mergeSort, spansApart]
  simp only [validatePlan, bind_ok, reject_ok, orRaise_ok, pure_ok]
  refine ⟨_, rfl, _, rfl, (), rfl, _, rfl, (), rfl, (), rfl, _, rfl, _, rfl, (), rfl, _, rfl,
    _, rfl, _, rfl, (), rfl, (), rfl, (), rfl, (), rfl, _, rfl, _, rfl, _, rfl, samplePlan.shards,
    rfl, (), ?_, rfl⟩
  exact congrArg (!·) hspans

/-- The source of the plan, in the first file. -/
def sampleWorld : DiskWorld :=
  ⟨[], fun fd => if fd = 0 then (List.range 16).map UInt8.ofNat else []⟩

theorem materialize_copies_sample : ∃ o w',
    Run (recorded disk) (copyShards 0 1 samplePlan) sampleWorld o w' ∧
      o = .value () ∧ w'.st 1 = [13, 14, 10, 11] := by
  obtain ⟨hguarded, hall⟩ := (materialize_copies validatePlan_sample).1 0 1 sampleWorld (by decide) (by decide)
  obtain ⟨o, w', hrun⟩ := hguarded.exists_run
  have hcopied := hall o w' hrun
  refine ⟨o, w', hrun, hcopied.value, ?_⟩
  obtain ⟨hlength, hget⟩ := hcopied.placed
  have h₀ := hget _ (List.mem_cons_self ..)
  have h₁ := hget _ (List.mem_cons_of_mem _ (List.mem_cons_self ..))
  refine List.ext_getElem? fun i => ?_
  match i with
  | 0 => exact h₀ 0 (by decide)
  | 1 => exact h₀ 1 (by decide)
  | 2 => exact h₁ 0 (by decide)
  | 3 => exact h₁ 1 (by decide)
  | i + 4 =>
    have hlen : (w'.st 1).length = 4 := hlength
    rw [List.getElem?_eq_none (by omega), List.getElem?_eq_none (by simp)]

end Ple
end FlashNext
