import FlashNext.Preflight.Mounts
import FlashNext.Py.Lines
import FlashNext.Text.Octal
import FlashNext.Text.Utf8Encode
import Mathlib.Data.List.Forall2

/-!
# Reading the mount table

The kernel writes one line for each mount, with octal escapes for the characters that separate
fields and lines.  The reader separates them by the white space of Unicode, which the kernel does
not escape, and takes the type as it is written (`readMountinfo_iff`).
-/

namespace FlashNext
namespace Preflight

open Py (Str str)
open Text (Bytes WellEscaped)

/-! ## The reader -/

/-- The entry of one line. -/
def mountLine (line : Str) : Option MountEntry :=
  match Py.partition [32, 45, 32] line with
  | none => none
  | some (left, right) =>
    let fields := Py.words left
    let fs := Py.words right
    if fields.length < 6 ∨ fs.length < 3 then none
    else some {
      mountPoint := Text.unescape (fields.getD 4 [])
      fstype := fs.getD 0 []
      source := Text.unescape (fs.getD 1 []) }

/-- `read_mountinfo`, of a file that holds the bytes, or of one that cannot be opened. -/
def readMountinfo (file : Option Bytes) : Except Text.Utf8Error (Option (List MountEntry)) :=
  match file with
  | none => .ok none
  | some bytes =>
    (Text.decodeUtf8Final [] bytes).map fun text =>
      (Py.splitlines (Py.universalNewlines text)).mapM mountLine

/-! ## What the kernel writes -/

/-- Space, tab, newline, backslash and `#`. -/
def special (c : Nat) : Bool := c == 32 || c == 9 || c == 10 || c == 92 || c == 35

/-- All white space of the text is of the kind that is escaped. -/
def Spaced (s : Str) : Prop := ∀ c ∈ s, Py.isSpace c = true → special c = true

def Scalars (s : Str) : Prop := ∀ c ∈ s, Text.isScalar c = true

/-- A field that is neither the mount point nor of the filesystem. -/
structure Field where
  raw : Str
  scalars : Scalars raw
  nonempty : raw ≠ []
  spaced : Spaced raw
  notDash : raw ≠ [45]

structure Mount where
  id : Field
  parent : Field
  device : Field
  root : Field
  mountPoint : Str
  options : Field
  optional : List Field
  fstype : Str
  source : Str
  superOptions : Field
  absolute : mountPoint.head? = some 47
  scalars : Scalars mountPoint ∧ Scalars fstype ∧ Scalars source

def Mount.entry (m : Mount) : MountEntry := ⟨m.mountPoint, m.fstype, m.source⟩

def escaped (s : Str) : Str := Text.escape special s

/-- The fields in front of the separator. -/
def Mount.left (m : Mount) : List Str :=
  [escaped m.id.raw, escaped m.parent.raw, escaped m.device.raw, escaped m.root.raw,
    escaped m.mountPoint, escaped m.options.raw] ++ m.optional.map fun field => escaped field.raw

/-- The fields behind it. -/
def Mount.right (m : Mount) : List Str :=
  [escaped m.fstype, escaped m.source, escaped m.superOptions.raw]

def writeMount (m : Mount) : Str := Py.spaced m.left ++ ([32, 45, 32] ++ Py.spaced m.right)

def writeMounts (ms : List Mount) : Str := ms.flatMap fun m => writeMount m ++ [10]

/-- The bytes of `/proc/self/mountinfo`. -/
def mountinfo (ms : List Mount) : Bytes := Py.encodeUtf8 (writeMounts ms)

/-! ## What is well escaped -/

theorem special_escapes : Text.Escapes special where
  backslash := rfl
  small c h := by
    simp only [special, Bool.or_eq_true, beq_iff_eq] at h
    omega

theorem isSpace_of_isOctal {c : Nat} (h : Text.isOctal c = true) : Py.isSpace c = false := by
  simp only [Text.isOctal, Bool.and_eq_true, decide_eq_true_eq] at h
  simp only [Py.isSpace, Bool.or_eq_false_iff, Bool.and_eq_false_iff, decide_eq_false_iff_not,
    beq_eq_false_iff_ne]
  omega

theorem isOctal_of_isSpace {c : Nat} (h : Py.isSpace c = true) : Text.isOctal c = false := by
  by_contra hne
  rw [isSpace_of_isOctal (by simpa using hne)] at h
  cases h

variable {m : Mount} {ms : List Mount} {s line word : Str}

/-- A piece that ends in front of white space. -/
theorem wellEscaped_piece {stop : Nat → Bool} (hstop : ∀ c, stop c = true → Py.isSpace c = true)
    {rest : Str} (hrest : rest <:+ s) (h : WellEscaped special s) :
    WellEscaped special (rest.takeWhile fun c => !stop c) := by
  have hwhole := h.suffix hrest
  rw [← List.takeWhile_append_dropWhile (p := fun c => !stop c) (l := rest)] at hwhole
  refine hwhole.left special_escapes fun c hc => ?_
  have hhead := List.head?_dropWhile_not (fun c => !stop c) rest
  rw [Option.mem_def.mp hc] at hhead
  apply isOctal_of_isSpace
  apply hstop
  simpa using hhead

theorem wellEscaped_word (h : WellEscaped special s) (hword : word ∈ Py.words s) :
    WellEscaped special word := by
  obtain ⟨rest, hrest, rfl⟩ :=
    Text.exists_suffix_of_mem_splitOnP (List.mem_of_mem_filter hword)
  exact wellEscaped_piece (fun c hc => hc) hrest h

theorem wellEscaped_line (h : WellEscaped special s) (hline : line ∈ Py.splitlines s) :
    WellEscaped special line := by
  obtain ⟨rest, hrest, rfl⟩ := Py.exists_suffix_of_mem_splitlines hline
  exact wellEscaped_piece (fun c => Py.isSpace_of_isBoundary) hrest h

theorem wellEscaped_universalNewlines (h : WellEscaped special s) :
    WellEscaped special (Py.universalNewlines s) := by
  fun_induction Py.universalNewlines s with
  | case1 s ih => exact (ih (h.right (s := [13, 10]))).cons (by decide)
  | case2 c s hother ih =>
    by_cases hc : c = 13
    · rw [if_pos hc]
      exact (ih h.2).cons (by decide)
    · rw [if_neg hc]
      refine ⟨fun hbackslash => ?_, ih h.2⟩
      obtain ⟨d, hd, hstem⟩ := h.1 hbackslash
      refine ⟨d, hd, Py.stem_universalNewlines hstem fun hmem => ?_⟩
      exact absurd (Text.isOctal_of_mem_octal (special_escapes.small d hd) hmem) (by decide)
  | case3 => exact trivial

theorem wellEscaped_spaced {fields : List Str} {rest : Str} (hrest : WellEscaped special rest) :
    WellEscaped special (Py.spaced (fields.map escaped) ++ rest) := by
  induction fields with
  | nil => exact hrest
  | cons field fields ih =>
    cases fields with
    | nil =>
      rw [List.map_singleton, Py.spaced, List.intercalate_singleton]
      exact hrest.append special_escapes field
    | cons next fields =>
      rw [List.map_cons, List.map_cons, Py.spaced, List.intercalate_cons_cons, List.append_assoc,
        List.append_assoc]
      exact WellEscaped.append special_escapes field (ih.cons (by decide))

theorem wellEscaped_writeMount {rest : Str} (hrest : WellEscaped special rest) :
    WellEscaped special (writeMount m ++ rest) := by
  have hleft : m.left = ([m.id.raw, m.parent.raw, m.device.raw, m.root.raw, m.mountPoint,
      m.options.raw] ++ m.optional.map (·.raw)).map escaped := by
    rw [Mount.left, List.map_append, List.map_map]
    rfl
  have hright : m.right = [m.fstype, m.source, m.superOptions.raw].map escaped := rfl
  rw [writeMount, hleft, hright, List.append_assoc, List.append_assoc]
  apply wellEscaped_spaced
  apply WellEscaped.cons (by decide)
  apply WellEscaped.cons (by decide)
  apply WellEscaped.cons (by decide)
  exact wellEscaped_spaced hrest

theorem wellEscaped_writeMounts (ms : List Mount) : WellEscaped special (writeMounts ms) := by
  induction ms with
  | nil => exact trivial
  | cons m ms ih =>
    rw [writeMounts, List.flatMap_cons, List.append_assoc]
    exact wellEscaped_writeMount (ih.cons (by decide))

/-! ## What can be read at all -/

/-- What the reader can deliver of a line that is well escaped. -/
structure Delivered (e : MountEntry) : Prop where
  mountPoint : Spaced e.mountPoint
  source : e.source ≠ [] ∧ Spaced e.source
  fstype : e.fstype ≠ [] ∧ ∀ c ∈ e.fstype, Py.isSpace c = false

theorem unescape_word (h : WellEscaped special s) (hword : word ∈ Py.words s) :
    Text.unescape word ≠ [] ∧ Spaced (Text.unescape word) := by
  obtain ⟨hne, hspace⟩ := Text.mem_words hword
  refine ⟨Text.unescape_ne_nil hne, fun c hc hcspace => ?_⟩
  rcases Text.mem_unescape special_escapes (wellEscaped_word h hword) hc with hmem | hspecial
  · rw [hspace c hmem] at hcspace
    cases hcspace
  · exact hspecial

theorem getD_mem {fields : List Str} {i : Nat} (h : i < fields.length) : fields.getD i [] ∈ fields := by
  rw [List.getD_eq_getElem?_getD, List.getElem?_eq_getElem h]
  exact List.getElem_mem h

theorem mountLine_delivered {e : MountEntry} (hline : WellEscaped special line)
    (h : mountLine line = some e) : Delivered e := by
  unfold mountLine at h
  split at h
  · cases h
  · next left right hparts =>
    have htext := Py.partition_eq_some hparts
    rw [htext] at hline
    have hleft : WellEscaped special left := by
      apply hline.left special_escapes
      intro c hc
      rw [← Option.some.inj hc]
      rfl
    have hright : WellEscaped special right := hline.right.right
    dsimp only at h
    split at h
    · cases h
    · next hcount =>
      obtain ⟨hfields, hfs⟩ := not_or.mp hcount
      have hplace : (Py.words left).getD 4 [] ∈ Py.words left := getD_mem (by omega)
      have htype : (Py.words right).getD 0 [] ∈ Py.words right := getD_mem (by omega)
      have hdevice : (Py.words right).getD 1 [] ∈ Py.words right := getD_mem (by omega)
      rw [← Option.some.inj h]
      exact ⟨(unescape_word hleft hplace).2, unescape_word hright hdevice, Text.mem_words htype⟩

/-! ## What is read where the white space is escaped -/

/-- The lines of the mount can be told apart, and its fields. -/
structure Parsed (m : Mount) : Prop where
  mountPoint : Spaced m.mountPoint
  source : m.source ≠ [] ∧ Spaced m.source
  fstype : m.fstype ≠ [] ∧ Spaced m.fstype

theorem escaped_solid (h : Spaced s) : ∀ c ∈ escaped s, Py.isSpace c = false := by
  intro c hc
  by_contra hne
  have hspace : Py.isSpace c = true := by simpa using hne
  rcases Text.mem_escape special_escapes hc with ⟨hmem, hplain⟩ | rfl | hdigit
  · rw [h c hmem hspace] at hplain
    cases hplain
  · cases hspace
  · rw [isSpace_of_isOctal hdigit] at hspace
    cases hspace

/-- What a field of a line must be for the line to be taken apart. -/
def Solid (word : Str) : Prop := word ≠ [] ∧ ∀ c ∈ word, Py.isSpace c = false

theorem escaped_field (field : Field) : Solid (escaped field.raw) :=
  ⟨Text.escape_ne_nil field.nonempty, escaped_solid field.spaced⟩

theorem left_solid (h : Parsed m) : ∀ word ∈ m.left, Solid word := by
  have hmountPoint : m.mountPoint ≠ [] := by
    intro hnil
    have habsolute := m.absolute
    rw [hnil] at habsolute
    cases habsolute
  intro word hword
  rcases List.mem_append.mp hword with hword | hword
  · simp only [List.mem_cons, List.not_mem_nil, or_false] at hword
    rcases hword with rfl | rfl | rfl | rfl | rfl | rfl
    · exact escaped_field m.id
    · exact escaped_field m.parent
    · exact escaped_field m.device
    · exact escaped_field m.root
    · exact ⟨Text.escape_ne_nil hmountPoint, escaped_solid h.mountPoint⟩
    · exact escaped_field m.options
  · obtain ⟨field, -, rfl⟩ := List.mem_map.mp hword
    exact escaped_field field

theorem right_solid (h : Parsed m) : ∀ word ∈ m.right, Solid word := by
  intro word hword
  simp only [Mount.right, List.mem_cons, List.not_mem_nil, or_false] at hword
  rcases hword with rfl | rfl | rfl
  · exact ⟨Text.escape_ne_nil h.fstype.1, escaped_solid h.fstype.2⟩
  · exact ⟨Text.escape_ne_nil h.source.1, escaped_solid h.source.2⟩
  · exact escaped_field m.superOptions

/-! ## The separator is found where it was written -/

theorem left_notDash (m : Mount) : ∀ word ∈ m.left, word ≠ [45] := by
  have hfield : ∀ raw : Str, raw ≠ [45] → escaped raw ≠ [45] := by
    intro raw hraw hdash
    have hback := Text.unescape_escape special_escapes raw
    change Text.unescape (escaped raw) = raw at hback
    rw [hdash] at hback
    exact hraw hback.symm
  have hmountPoint : m.mountPoint ≠ [45] := by
    intro hdash
    have habsolute := m.absolute
    rw [hdash] at habsolute
    cases habsolute
  intro word hword
  rcases List.mem_append.mp hword with hword | hword
  · simp only [List.mem_cons, List.not_mem_nil, or_false] at hword
    rcases hword with rfl | rfl | rfl | rfl | rfl | rfl
    · exact hfield _ m.id.notDash
    · exact hfield _ m.parent.notDash
    · exact hfield _ m.device.notDash
    · exact hfield _ m.root.notDash
    · exact hfield _ hmountPoint
    · exact hfield _ m.options.notDash
  · obtain ⟨field, -, rfl⟩ := List.mem_map.mp hword
    exact hfield _ field.notDash

theorem partition_word (h : ∀ c ∈ word, Py.isSpace c = false) :
    Py.partition [32, 45, 32] (word ++ s) =
      (Py.partition [32, 45, 32] s).map fun parts => (word ++ parts.1, parts.2) := by
  induction word with
  | nil => exact (Option.map_id' ).symm
  | cons c word ih =>
    obtain ⟨hc, hword⟩ := List.forall_mem_cons.mp h
    have hne : (32 == c) = false := by
      rw [beq_eq_false_iff_ne]
      rintro rfl
      cases hc
    rw [List.cons_append, Py.partition_cons (by rw [List.isPrefixOf, hne, Bool.false_and]),
      ih hword, Option.map_map]
    rfl

/-- A field that is no dash does not look like the separator. -/
theorem isPrefixOf_gap (h : Solid word) (hdash : word ≠ [45]) :
    List.isPrefixOf [32, 45, 32] (32 :: (word ++ 32 :: s)) = false := by
  rw [Bool.eq_false_iff, ne_eq, List.isPrefixOf_iff_prefix, List.cons_prefix_cons]
  rintro ⟨-, hstem⟩
  obtain ⟨c, rest, rfl⟩ := List.exists_cons_of_ne_nil h.1
  obtain ⟨rfl, hafter⟩ := List.cons_prefix_cons.mp hstem
  cases rest with
  | nil => exact hdash rfl
  | cons d rest =>
    obtain ⟨rfl, -⟩ := List.cons_prefix_cons.mp hafter
    have hspace := h.2 32 (List.mem_cons_of_mem _ List.mem_cons_self)
    cases hspace

theorem partition_spaced {fields : List Str} {right : Str} (hne : fields ≠ [])
    (hsolid : ∀ word ∈ fields, Solid word) (hdash : ∀ word ∈ fields, word ≠ [45]) :
    Py.partition [32, 45, 32] (Py.spaced fields ++ ([32, 45, 32] ++ right)) =
      some (Py.spaced fields, right) := by
  induction fields with
  | nil => exact absurd rfl hne
  | cons word fields ih =>
    obtain ⟨hword, hrest⟩ := List.forall_mem_cons.mp hsolid
    obtain ⟨-, hdashes⟩ := List.forall_mem_cons.mp hdash
    cases fields with
    | nil =>
      rw [Py.spaced, List.intercalate_singleton, partition_word hword.2]
      show some (word ++ [], right) = _
      rw [List.append_nil]
    | cons next fields =>
      have htext : Py.spaced (word :: next :: fields) = word ++ 32 :: Py.spaced (next :: fields) := by
        rw [Py.spaced, List.intercalate_cons_cons, List.append_assoc]
        rfl
      have hgap : ∃ tail, Py.spaced (next :: fields) ++ ([32, 45, 32] ++ right) =
          next ++ 32 :: tail := by
        cases fields with
        | nil =>
          rw [Py.spaced, List.intercalate_singleton]
          exact ⟨_, rfl⟩
        | cons after fields =>
          rw [Py.spaced, List.intercalate_cons_cons, List.append_assoc, List.append_assoc]
          exact ⟨_, rfl⟩
      obtain ⟨tail, hgap⟩ := hgap
      have hfree := isPrefixOf_gap (s := tail) (hrest next List.mem_cons_self)
        (hdashes next List.mem_cons_self)
      rw [← hgap] at hfree
      rw [htext, List.append_assoc, partition_word hword.2, List.cons_append,
        Py.partition_cons hfree, ih (List.cons_ne_nil _ _) hrest hdashes]
      rfl

/-! ## The entry of a line that the kernel wrote -/

/-- The entry that is read: the type stays as it was written. -/
def Mount.readEntry (m : Mount) : MountEntry := ⟨m.mountPoint, escaped m.fstype, m.source⟩

theorem mountLine_writeMount (h : Parsed m) : mountLine (writeMount m) = some m.readEntry := by
  have hleft : Py.words (Py.spaced m.left) = m.left := Text.words_intercalate rfl (left_solid h)
  have hright : Py.words (Py.spaced m.right) = m.right := Text.words_intercalate rfl (right_solid h)
  have hparts : Py.partition [32, 45, 32] (writeMount m) =
      some (Py.spaced m.left, Py.spaced m.right) :=
    partition_spaced (List.cons_ne_nil _ _) (left_solid h) (left_notDash m)
  have hcount : ¬ (m.left.length < 6 ∨ m.right.length < 3) := by
    simp [Mount.left, Mount.right]
  unfold mountLine
  rw [hparts]
  dsimp only
  rw [hleft, hright, if_neg hcount]
  have hplace : Text.unescape (escaped m.mountPoint) = m.mountPoint :=
    Text.unescape_escape special_escapes _
  have hdevice : Text.unescape (escaped m.source) = m.source :=
    Text.unescape_escape special_escapes _
  show some (MountEntry.mk (Text.unescape (escaped m.mountPoint)) (escaped m.fstype)
    (Text.unescape (escaped m.source))) = _
  rw [hplace, hdevice]
  rfl

/-! ## The whole table -/

theorem mem_spaced {fields : List Str} {c : Nat} (h : c ∈ Py.spaced fields) :
    c = 32 ∨ ∃ word ∈ fields, c ∈ word := by
  induction fields with
  | nil => exact absurd h List.not_mem_nil
  | cons word fields ih =>
    cases fields with
    | nil =>
      rw [Py.spaced, List.intercalate_singleton] at h
      exact .inr ⟨word, List.mem_cons_self, h⟩
    | cons next fields =>
      rw [Py.spaced, List.intercalate_cons_cons, List.append_assoc] at h
      rcases List.mem_append.mp h with h | h
      · exact .inr ⟨word, List.mem_cons_self, h⟩
      · rcases List.mem_cons.mp h with h | h
        · exact .inl h
        · rcases ih h with h | ⟨word, hword, hc⟩
          · exact .inl h
          · exact .inr ⟨word, List.mem_cons_of_mem _ hword, hc⟩

theorem mem_writeMount {c : Nat} (h : c ∈ writeMount m) :
    c = 32 ∨ c = 45 ∨ ∃ word ∈ m.left ++ m.right, c ∈ word := by
  rcases List.mem_append.mp h with h | h
  · rcases mem_spaced h with h | ⟨word, hword, hc⟩
    · exact .inl h
    · exact .inr (.inr ⟨word, List.mem_append_left _ hword, hc⟩)
  · rcases List.mem_append.mp h with h | h
    · simp only [List.mem_cons, List.not_mem_nil, or_false] at h
      omega
    · rcases mem_spaced h with h | ⟨word, hword, hc⟩
      · exact .inl h
      · exact .inr (.inr ⟨word, List.mem_append_right _ hword, hc⟩)

theorem scalars_escaped (h : Scalars s) : Scalars (escaped s) := by
  intro c hc
  rcases Text.mem_escape special_escapes hc with ⟨hmem, -⟩ | rfl | hdigit
  · exact h c hmem
  · rfl
  · simp only [Text.isOctal, Bool.and_eq_true, decide_eq_true_eq] at hdigit
    simp only [Text.isScalar, Text.isSurrogate, Bool.and_eq_true, decide_eq_true_eq,
      Bool.not_eq_true', Bool.and_eq_false_iff, decide_eq_false_iff_not]
    omega

theorem scalars_writeMounts (ms : List Mount) : Scalars (writeMounts ms) := by
  have hwords : ∀ m : Mount, ∀ word ∈ m.left ++ m.right, Scalars word := by
    intro m word hword
    obtain ⟨hplace, htype, hdevice⟩ := m.scalars
    simp only [Mount.left, Mount.right, List.mem_append, List.mem_cons, List.not_mem_nil, or_false,
      List.mem_map] at hword
    rcases hword with (hword | ⟨field, -, rfl⟩) | hword
    · rcases hword with rfl | rfl | rfl | rfl | rfl | rfl
      · exact scalars_escaped m.id.scalars
      · exact scalars_escaped m.parent.scalars
      · exact scalars_escaped m.device.scalars
      · exact scalars_escaped m.root.scalars
      · exact scalars_escaped hplace
      · exact scalars_escaped m.options.scalars
    · exact scalars_escaped field.scalars
    · rcases hword with rfl | rfl | rfl
      · exact scalars_escaped htype
      · exact scalars_escaped hdevice
      · exact scalars_escaped m.superOptions.scalars
  intro c hc
  obtain ⟨m, -, hc⟩ := List.mem_flatMap.mp hc
  rcases List.mem_append.mp hc with hc | hc
  · rcases mem_writeMount hc with rfl | rfl | ⟨word, hword, hc⟩
    · rfl
    · rfl
    · exact hwords m word hword c hc
  · rw [List.mem_singleton.mp hc]
    rfl

theorem readMountinfo_mountinfo (ms : List Mount) : readMountinfo (some (mountinfo ms)) =
    .ok ((Py.splitlines (Py.universalNewlines (writeMounts ms))).mapM mountLine) := by
  unfold readMountinfo mountinfo
  dsimp only
  rw [Text.decodeUtf8Final_encodeUtf8 (scalars_writeMounts ms)]
  rfl

theorem solid_line (h : Parsed m) : ∀ c ∈ writeMount m, Py.isBoundary c = false := by
  intro c hc
  rcases mem_writeMount hc with rfl | rfl | ⟨word, hword, hc⟩
  · rfl
  · rfl
  · have hsolid : Solid word := by
      rcases List.mem_append.mp hword with hword | hword
      · exact left_solid h word hword
      · exact right_solid h word hword
    by_contra hne
    have hspace := Py.isSpace_of_isBoundary (by simpa using hne)
    rw [hsolid.2 c hc] at hspace
    cases hspace

theorem splitlines_writeMounts (h : ∀ m ∈ ms, Parsed m) :
    Py.splitlines (Py.universalNewlines (writeMounts ms)) = ms.map writeMount := by
  have hreturns : 13 ∉ writeMounts ms := by
    intro hmem
    obtain ⟨m, hm, hmem⟩ := List.mem_flatMap.mp hmem
    rcases List.mem_append.mp hmem with hmem | hmem
    · have hbound := solid_line (h m hm) 13 hmem
      cases hbound
    · exact absurd (List.mem_singleton.mp hmem) (by decide)
  rw [Py.universalNewlines_eq_self hreturns]
  clear hreturns
  induction ms with
  | nil => rfl
  | cons m ms ih =>
    obtain ⟨hm, hms⟩ := List.forall_mem_cons.mp h
    rw [writeMounts, List.flatMap_cons, List.append_assoc]
    show Py.splitlines (writeMount m ++ 10 :: writeMounts ms) = _
    rw [Py.splitlines_line (solid_line hm), ih hms]
    rfl

theorem mapM_eq_some {α β : Type} {f : α → Option β} {xs : List α} {ys : List β} :
    xs.mapM f = some ys ↔ List.Forall₂ (fun x y => f x = some y) xs ys := by
  induction xs generalizing ys with
  | nil =>
    rw [List.mapM_nil, List.forall₂_nil_left_iff]
    constructor
    · intro h
      exact (Option.some.inj h).symm
    · rintro rfl
      rfl
  | cons x xs ih =>
    rw [List.mapM_cons, List.forall₂_cons_left_iff]
    constructor
    · intro h
      obtain ⟨y, hy, h⟩ := Option.bind_eq_some_iff.mp h
      obtain ⟨ys', hys, h⟩ := Option.bind_eq_some_iff.mp h
      exact ⟨y, ys', hy, ih.mp hys, (Option.some.inj h).symm⟩
    · rintro ⟨y, ys', hy, hys, rfl⟩
      rw [hy, ih.mpr hys]
      rfl

theorem readMountinfo_parsed (h : ∀ m ∈ ms, Parsed m) :
    readMountinfo (some (mountinfo ms)) = .ok (some (ms.map Mount.readEntry)) := by
  have hlines : (ms.map writeMount).mapM mountLine = some (ms.map Mount.readEntry) := by
    rw [mapM_eq_some, List.forall₂_map_left_iff, List.forall₂_map_right_iff, List.forall₂_same]
    exact fun m hm => mountLine_writeMount (h m hm)
  rw [readMountinfo_mountinfo, splitlines_writeMounts h, hlines]

/-! ## When the table is read back -/

/-- The mount is read back as it is: the white space of its mount point and its source is escaped,
it has a source, and its type needs no escape. -/
structure Readable (m : Mount) : Prop where
  mountPoint : ∀ c ∈ m.mountPoint, Py.isSpace c = true → c = 32 ∨ c = 9 ∨ c = 10
  source : m.source ≠ [] ∧ ∀ c ∈ m.source, Py.isSpace c = true → c = 32 ∨ c = 9 ∨ c = 10
  fstype : m.fstype ≠ [] ∧ ∀ c ∈ m.fstype, Py.isSpace c = false ∧ c ≠ 92 ∧ c ≠ 35

theorem spaced_iff : Spaced s ↔ ∀ c ∈ s, Py.isSpace c = true → c = 32 ∨ c = 9 ∨ c = 10 := by
  refine forall₂_congr fun c _ => forall_congr' fun hspace => ?_
  have hback : c ≠ 92 := by
    rintro rfl
    cases hspace
  have hhash : c ≠ 35 := by
    rintro rfl
    cases hspace
  simp only [special, Bool.or_eq_true, beq_iff_eq]
  omega

theorem readable_iff : Readable m ↔ Parsed m ∧ ∀ c ∈ m.fstype, special c = false := by
  constructor
  · intro h
    have hplain : ∀ c ∈ m.fstype, special c = false := by
      intro c hc
      obtain ⟨hspace, hbackslash, hhash⟩ := h.fstype.2 c hc
      rw [Bool.eq_false_iff]
      intro hspecial
      simp only [special, Bool.or_eq_true, beq_iff_eq] at hspecial
      rcases hspecial with (((rfl | rfl) | rfl) | rfl) | rfl
      · cases hspace
      · cases hspace
      · cases hspace
      · exact hbackslash rfl
      · exact hhash rfl
    refine ⟨⟨spaced_iff.mpr h.mountPoint, ⟨h.source.1, spaced_iff.mpr h.source.2⟩,
      ⟨h.fstype.1, fun c hc hspace => ?_⟩⟩, hplain⟩
    rw [(h.fstype.2 c hc).1] at hspace
    cases hspace
  · rintro ⟨hparsed, hplain⟩
    refine ⟨spaced_iff.mp hparsed.mountPoint, ⟨hparsed.source.1, spaced_iff.mp hparsed.source.2⟩,
      ⟨hparsed.fstype.1, fun c hc => ?_⟩⟩
    have hc' := hplain c hc
    refine ⟨?_, ?_, ?_⟩
    · by_contra hne
      have hspecial := hparsed.fstype.2 c hc (by simpa using hne)
      rw [hc'] at hspecial
      cases hspecial
    · rintro rfl
      cases hc'
    · rintro rfl
      cases hc'

/-- What is read of any table can have been escaped by the kernel in no other way. -/
theorem delivered_of_read {es : List MountEntry}
    (h : readMountinfo (some (mountinfo ms)) = .ok (some es)) : ∀ e ∈ es, Delivered e := by
  rw [readMountinfo_mountinfo] at h
  have hread := mapM_eq_some.mp (Except.ok.inj h)
  have htext := wellEscaped_universalNewlines (wellEscaped_writeMounts ms)
  intro e he
  obtain ⟨i, hi, rfl⟩ := List.mem_iff_getElem.mp he
  have hlength := hread.length_eq
  have hline := hread.get (by omega) hi
  exact mountLine_delivered (wellEscaped_line htext (List.getElem_mem (by omega))) hline

theorem readMountinfo_iff (ms : List Mount) :
    readMountinfo (some (mountinfo ms)) = .ok (some (ms.map Mount.entry)) ↔
      ∀ m ∈ ms, Readable m := by
  constructor
  · intro h
    have hparsed : ∀ m ∈ ms, Parsed m := by
      intro m hm
      have hdelivered := delivered_of_read h _ (List.mem_map_of_mem hm)
      exact ⟨hdelivered.mountPoint, hdelivered.source, hdelivered.fstype.1, fun c hc hspace => by
        rw [hdelivered.fstype.2 c hc] at hspace
        cases hspace⟩
    rw [readMountinfo_parsed hparsed] at h
    have hsame := List.map_inj_left.mp (Option.some.inj (Except.ok.inj h))
    intro m hm
    have htype : escaped m.fstype = m.fstype := congrArg MountEntry.fstype (hsame m hm)
    exact readable_iff.mpr ⟨hparsed m hm, Text.escape_eq_self_iff.mp htype⟩
  · intro h
    have hparsed : ∀ m ∈ ms, Parsed m := fun m hm => (readable_iff.mp (h m hm)).1
    rw [readMountinfo_parsed hparsed]
    congr 2
    refine List.map_congr_left fun m hm => ?_
    have htype : escaped m.fstype = m.fstype :=
      Text.escape_eq_self (readable_iff.mp (h m hm)).2
    rw [Mount.readEntry, htype]
    rfl

theorem isScalar_of_printable {c : Nat} (h : 33 ≤ c ∧ c ≤ 126) : Text.isScalar c = true := by
  simp only [Text.isScalar, Text.isSurrogate, Bool.and_eq_true, decide_eq_true_eq,
    Bool.not_eq_true', Bool.and_eq_false_iff, decide_eq_false_iff_not]
  omega

theorem not_isSpace_of_printable {c : Nat} (h : 33 ≤ c ∧ c ≤ 126) : Py.isSpace c ≠ true := by
  simp only [Py.isSpace, ne_eq, Bool.or_eq_true, Bool.and_eq_true, decide_eq_true_eq, beq_iff_eq]
  omega

/-- A field of printable ASCII. -/
def asciiField (raw : Str) (h : raw ≠ [] ∧ raw ≠ [45] ∧ ∀ c ∈ raw, 33 ≤ c ∧ c ≤ 126) : Field where
  raw := raw
  scalars c hc := isScalar_of_printable (h.2.2 c hc)
  nonempty := h.1
  spaced c hc hspace := absurd hspace (not_isSpace_of_printable (h.2.2 c hc))
  notDash := h.2.1

/-- A mount whose name holds a no-break space. -/
def unbroken : Mount where
  id := asciiField (str "36") (by decide)
  parent := asciiField (str "35") (by decide)
  device := asciiField (str "98:0") (by decide)
  root := asciiField (str "/") (by decide)
  mountPoint := str "/data" ++ 0xA0 :: str "disk"
  options := asciiField (str "rw") (by decide)
  optional := [asciiField (str "shared:3") (by decide)]
  fstype := str "xfs"
  source := str "/dev/nvme1n1"
  superOptions := asciiField (str "rw") (by decide)
  absolute := rfl
  scalars := by
    unfold Scalars
    decide

/-- The reader ends the mount point at the no-break space. -/
theorem readMountinfo_unbroken :
    readMountinfo (some (mountinfo [unbroken])) =
        .ok (some [⟨str "/data", str "xfs", str "/dev/nvme1n1"⟩]) ∧
      readMountinfo (some (mountinfo [unbroken])) ≠ .ok (some ([unbroken].map Mount.entry)) := by
  have hread : readMountinfo (some (mountinfo [unbroken])) =
      .ok (some [⟨str "/data", str "xfs", str "/dev/nvme1n1"⟩]) := by
    rfl
  refine ⟨hread, ?_⟩
  rw [hread]
  intro heq
  have hplace : str "/data" = unbroken.mountPoint :=
    congrArg MountEntry.mountPoint (List.cons.inj (Option.some.inj (Except.ok.inj heq))).1
  exact absurd hplace (by decide)

end Preflight
end FlashNext
