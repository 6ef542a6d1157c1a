import FlashNext.Ple.Receipt
import FlashNext.Text.Utf8Encode

/-!
# Reading a receipt back

What is written of a receipt with 64-bit stats is read back as that receipt by every reader that
reads what `json.dumps` writes (`readReceipt_payload`).  The reader made of the scanner of
`FlashNext.Py.Load` is one (`jsonReader_readsBack`).
-/

namespace FlashNext
namespace Ple

open Effect
open Py (Str Value str)
open Text (Bytes)

/-- The bytes of `prepared.json`. -/
def Receipt.payload (r : Receipt) : Bytes := canonicalJson r.document

/-- The fields of a stat are 64-bit numbers. -/
structure Snapshot.Small (s : Snapshot) : Prop where
  dev : s.dev < 2 ^ 64
  ino : s.ino < 2 ^ 64
  size : s.size < 2 ^ 64
  mtimeNs : s.mtimeNs < 2 ^ 64
  ctimeNs : s.ctimeNs < 2 ^ 64

structure Receipt.Small (r : Receipt) : Prop where
  sourceStat : r.sourceStat.Small
  tableStat : r.tableStat.Small

/-- `json.loads` reads what `json.dumps` wrote of a receipt. -/
def Reader.ReadsBack (reader : Reader) : Prop :=
  ∀ r : Receipt, r.Checked → r.Small →
    loadStrictJson reader (str "receipt") r.payload = .ok r.document.sortKeys

theorem readReceipt_payload {reader : Reader} (h : reader.ReadsBack) {r : Receipt}
    (hchecked : r.Checked) (hsmall : r.Small) : readReceipt reader r.payload = .ok r := by
  simp only [readReceipt, bind_ok]
  exact ⟨_, h r hchecked hsmall, validateReceipt_document hchecked⟩

/-! ## The scanner as a reader -/

mutual
/-- What a scanner reads that ends in this value. -/
def rawOf : Value → Raw
  | .none => .null
  | .bool b => .bool b
  | .int n => .int n
  | .float q => .float q
  | .nonfinite x => .overflow x
  | .str s => .str s
  | .list items => .arr (rawItems items)
  | .dict fields => .obj (rawFields fields)

def rawItems : List Value → List Raw
  | [] => []
  | item :: items => rawOf item :: rawItems items

def rawFields : List (Str × Value) → List (Str × Raw)
  | [] => []
  | (key, item) :: fields => (key, rawOf item) :: rawFields fields
end

/-- The scanner of `FlashNext.Py.Load`, without the texts of errors. -/
def scanText (read : Str → Option ℚ) (text : Str) : Raw × Option Str :=
  match Py.loads read text with
  | .ok v => (rawOf v, none)
  | .error (.constant name) => (.constant name, none)
  | .error _ => (.broken [], none)

/-- The reader with that scanner. -/
def jsonReader (interp : Interp) (read : Str → Option ℚ) : Reader where
  toInterp := interp
  scan raw :=
    match Text.decodeUtf8Final [] raw with
    | .error _ => (.broken [], none)
    | .ok text => scanText read text

section

variable {reader : Reader} {what : Str}

theorem dupCheck_nodup {seen : List Str} {fields : Fields} (hnodup : (fields.map (·.1)).Nodup)
    (hseen : ∀ key ∈ seen, key ∉ fields.map (·.1)) : dupCheck reader what seen fields = .ok () := by
  induction fields generalizing seen with
  | nil => rfl
  | cons f fields ih =>
    obtain ⟨key, item⟩ := f
    rw [List.map_cons, List.nodup_cons] at hnodup
    have hkey : key ∉ seen := fun h => hseen key h (by simp)
    rw [dupCheck, if_neg hkey]
    refine ih hnodup.2 fun key' h' => ?_
    rcases List.mem_cons.mp h' with rfl | h'
    · exact hnodup.1
    · intro hmem
      exact hseen key' h' (by rw [List.map_cons]; exact List.mem_cons_of_mem _ hmem)

mutual
theorem loads_rawOf : ∀ v : Value, v.distinct = true → loads reader what (rawOf v) = .ok v
  | .none, _ => rfl
  | .bool _, _ => rfl
  | .int _, _ => rfl
  | .float _, _ => rfl
  | .nonfinite _, _ => rfl
  | .str _, _ => rfl
  | .list items, h => by
    rw [rawOf, loads, loadsItems_rawItems items h]
    rfl
  | .dict fields, h => by
    rw [Value.distinct, Bool.and_eq_true, decide_eq_true_eq] at h
    rw [rawOf, loads, loadsFields_rawFields fields h.2]
    simp only [bind_ok, pure_ok]
    exact ⟨fields, rfl, (), dupCheck_nodup h.1 (by simp), rfl⟩

theorem loadsItems_rawItems : ∀ items : List Value, Value.distinctItems items = true →
    loadsItems reader what (rawItems items) = .ok items
  | [], _ => rfl
  | item :: items, h => by
    rw [Value.distinctItems, Bool.and_eq_true] at h
    rw [rawItems, loadsItems, loads_rawOf item h.1, loadsItems_rawItems items h.2]
    rfl

theorem loadsFields_rawFields : ∀ fields : Fields, Value.distinctFields fields = true →
    loadsFields reader what (rawFields fields) = .ok fields
  | [], _ => rfl
  | (key, item) :: fields, h => by
    rw [Value.distinctFields, Bool.and_eq_true] at h
    rw [rawFields, loadsFields, loads_rawOf item h.1, loadsFields_rawFields fields h.2]
    rfl
end

end

/-! ## The document of a receipt -/

theorem unescaped_of_all {s : Str} {p : Nat → Bool} (h : s.all p = true)
    (hp : ∀ c, p c = true → 32 ≤ c ∧ c ≤ 126 ∧ c ≠ 34 ∧ c ≠ 92) : Py.Unescaped s :=
  fun c hc => hp c (List.all_eq_true.mp h c hc)

theorem printable_of_isNameChar {c : Nat} (h : isNameChar c = true) :
    32 ≤ c ∧ c ≤ 126 ∧ c ≠ 34 ∧ c ≠ 92 := by
  simp only [isNameChar, Bool.or_eq_true, Bool.and_eq_true, decide_eq_true_eq, beq_iff_eq] at h
  omega

theorem unescaped_hex {n : Nat} {s : Str} (h : HexOf n s) : Py.Unescaped s := by
  have hall : s.all isHexDigit = true := by
    have hboth : (s.length == n && s.all isHexDigit) = true := h
    rw [Bool.and_eq_true] at hboth
    exact hboth.2
  refine unescaped_of_all hall fun c hc => ?_
  simp only [isHexDigit, Bool.or_eq_true, Bool.and_eq_true, decide_eq_true_eq] at hc
  omega

theorem unescaped_name {name : Str} (h : safeName name = true) : Py.Unescaped name := by
  rw [safeName, Bool.and_eq_true] at h
  exact unescaped_of_all h.2 fun c hc => printable_of_isNameChar hc

theorem number_eq (n : Nat) : number n = Py.digitsOf n := by
  rw [number, str, Nat.toString_eq_ofList_toDigits, String.toList_ofList, Py.digitsOf]

theorem unescaped_rowsTag (rows : Nat) : Py.Unescaped (rowsTag rows) := by
  have hall : (rowsTag rows).all isNameChar = true := by
    rw [rowsTag, List.all_append, Bool.and_eq_true]
    refine ⟨by decide, List.all_eq_true.mpr fun c hc => ?_⟩
    rw [number_eq] at hc
    have hdigit := Py.isDigit_digitsOf hc
    simp only [Py.isDigit, Bool.and_eq_true, decide_eq_true_eq] at hdigit
    simp [isNameChar, hdigit]
  exact unescaped_of_all hall fun c hc => printable_of_isNameChar hc

theorem fits_small {n : Nat} (h : n < 2 ^ 64) : Py.fits n = true := by
  unfold Py.fits
  rw [decide_eq_true_eq, Int.natAbs_natCast]
  have hpow : ∀ k, 20 ≤ k → 10 ^ 20 ≤ 10 ^ k := fun k hk => Nat.pow_le_pow_right (by decide) hk
  have hsmall : 2 ^ 64 < 10 ^ 20 := by decide
  exact (h.trans hsmall).trans_le (hpow 4300 (by decide))

theorem fits_size {n : Nat} (h : n ≤ maxTableBytes) : Py.fits n = true := by
  have hmax : maxTableBytes < 2 ^ 64 := by decide
  exact fits_small (by omega)

variable {read : Str → Option ℚ} {text : ℚ → Str}

theorem Snapshot.Small.loadable {s : Snapshot} (h : s.Small) :
    Py.Loadable read text s.document.sortKeys := by
  have hdoc : s.document.sortKeys = .dict [(str "ctime_ns", .int s.ctimeNs),
      (str "dev", .int s.dev), (str "ino", .int s.ino), (str "mtime_ns", .int s.mtimeNs),
      (str "size", .int s.size)] := rfl
  have hkeys : [str "ctime_ns", str "dev", str "ino", str "mtime_ns", str "size"].Nodup := by decide
  rw [hdoc]
  exact ⟨hkeys, unescaped_name (by decide), fits_small h.ctimeNs, unescaped_name (by decide),
    fits_small h.dev, unescaped_name (by decide), fits_small h.ino, unescaped_name (by decide),
    fits_small h.mtimeNs, unescaped_name (by decide), fits_small h.size, trivial⟩

theorem receiptTable_loadable {r : Receipt} (h : r.Checked) :
    Py.Loadable read text (receiptTable r.table).sortKeys := by
  have hdoc : (receiptTable r.table).sortKeys = .dict [(str "dtype", .str tableDtype),
      (str "name", .str r.table.name), (str "sha256", .str r.table.sha256),
      (str "shape", .list [.int r.table.rows, .int r.table.width]), (str "size", .int r.table.size),
      (str "tag", .str (rowsTag r.table.rows))] := rfl
  have hkeys : [str "dtype", str "name", str "sha256", str "shape", str "size",
    str "tag"].Nodup := by decide
  have hrows : r.table.rows ≤ r.table.size := by
    rw [h.size_eq]
    exact Nat.le_mul_of_pos_right _ h.width_pos
  have hwidth : r.table.width ≤ r.table.size := by
    rw [h.size_eq]
    exact Nat.le_mul_of_pos_left _ h.rows_pos
  have hmax := h.table_le
  rw [hdoc]
  exact ⟨hkeys, unescaped_name (by decide), unescaped_name (by decide), unescaped_name (by decide),
    unescaped_name h.tableName, unescaped_name (by decide), unescaped_hex h.tableSha256,
    unescaped_name (by decide), ⟨fits_size (by omega), fits_size (by omega), trivial⟩,
    unescaped_name (by decide), fits_size hmax, unescaped_name (by decide), unescaped_rowsTag _,
    trivial⟩

/-- The document of a receipt as it is written. -/
theorem Receipt.sortKeys_document (r : Receipt) : r.document.sortKeys = .dict [
    (str "model", .dict [(str "id", .str modelId), (str "revision", .str r.revision)]),
    (str "plan_sha256", .str r.planSha256),
    (str "schema", .str preparedSchema),
    (str "source", .dict [(str "name", .str r.sourceName), (str "sha256", .str r.sourceSha256),
      (str "size", .int r.sourceSize)]),
    (str "source_stat", r.sourceStat.document.sortKeys),
    (str "table", (receiptTable r.table).sortKeys),
    (str "table_stat", r.tableStat.document.sortKeys)] := rfl

theorem Receipt.Checked.loadable {r : Receipt} (h : r.Checked) (hsmall : r.Small) :
    Py.Loadable read text r.document.sortKeys := by
  have hkeys : [str "model", str "plan_sha256", str "schema", str "source", str "source_stat",
    str "table", str "table_stat"].Nodup := by decide
  have hmodelKeys : [str "id", str "revision"].Nodup := by decide
  have hsourceKeys : [str "name", str "sha256", str "size"].Nodup := by decide
  have hid : modelId.all (fun c => isNameChar c || c == 47) = true := by decide
  rw [r.sortKeys_document]
  refine ⟨hkeys, unescaped_name (by decide), ⟨hmodelKeys, unescaped_name (by decide), ?_,
    unescaped_name (by decide), unescaped_hex h.revision, trivial⟩, unescaped_name (by decide),
    unescaped_hex h.planSha256, unescaped_name (by decide), unescaped_name (by decide),
    unescaped_name (by decide), ⟨hsourceKeys, unescaped_name (by decide),
      unescaped_name h.sourceName, unescaped_name (by decide), unescaped_hex h.sourceSha256,
      unescaped_name (by decide), fits_size h.source_le, trivial⟩, unescaped_name (by decide),
    hsmall.sourceStat.loadable, unescaped_name (by decide), receiptTable_loadable h,
    unescaped_name (by decide), hsmall.tableStat.loadable, trivial⟩
  refine unescaped_of_all hid fun c hc => ?_
  rw [Bool.or_eq_true, beq_iff_eq] at hc
  rcases hc with hc | hc
  · exact printable_of_isNameChar hc
  · omega

theorem Receipt.distinct_document (r : Receipt) : r.document.sortKeys.distinct = true := rfl

theorem Receipt.rejectNonfinite_document (r : Receipt) (what : Str) :
    rejectNonfinite what 0 r.document.sortKeys = .ok () := rfl

/-- A reader reads receipts back where its scanner finds in them what was written. -/
theorem readsBack_of_scan {reader : Reader} (h : ∀ r : Receipt, r.Checked → r.Small →
    reader.scan r.payload = (rawOf r.document.sortKeys, none)) : reader.ReadsBack := by
  intro r hchecked hsmall
  simp only [loadStrictJson, h r hchecked hsmall, bind_ok, pure_ok]
  exact ⟨_, loads_rawOf _ r.distinct_document, (), rfl, (), r.rejectNonfinite_document _, rfl⟩

/-- What the scanner finds in a receipt. -/
theorem jsonReader_scan (interp : Interp) (read : Str → Option ℚ) {r : Receipt}
    (hchecked : r.Checked) (hsmall : r.Small) :
    (jsonReader interp read).scan r.payload = (rawOf r.document.sortKeys, none) := by
  have hloadable : Py.Loadable read (fun _ => []) r.document.sortKeys := hchecked.loadable hsmall
  have hload := Py.loads_write Py.Style.compact_spaced hloadable
  have hscalar : ∀ c ∈ Py.write (fun _ => []) .compact 0 r.document.sortKeys,
      Text.isScalar c = true := by
    intro c hc
    have hascii := Py.ascii_write Py.Style.compact_spaced _ 0 hloadable c hc
    simp [Text.isScalar, Text.isSurrogate]
    omega
  have hdecode : Text.decodeUtf8Final [] r.payload =
      .ok (Py.write (fun _ => []) .compact 0 r.document.sortKeys) :=
    Text.decodeUtf8Final_encodeUtf8 hscalar
  simp only [jsonReader, hdecode, scanText, hload]

theorem jsonReader_readsBack (interp : Interp) (read : Str → Option ℚ) :
    (jsonReader interp read).ReadsBack :=
  readsBack_of_scan fun _ => jsonReader_scan interp read

end Ple
end FlashNext
