import RplListener.Rows.Verbatim

/-!
# Lengths in 32 bits

A BLOB, JSON or GEOMETRY field announces up to `2 ^ 32 - 1` bytes. The width
that is compared with what is left of the event, the size of the block and the
size that is returned are computed in 32 bits, and the length of the text is
kept in a signed field. `BlobField.Fits` is when all of them are exact.
-/

namespace RplListener

open Bytes Refine

variable {lib : Library} {os : Allocator} {buf : List UInt8} {s : CellState}

/-- `calc_field_size` gives the width of the field at the cursor in 32 bits. -/
def Library.WrappedSize (lib : Library) (col : Column) : Prop :=
  ∀ isUnsigned disp l, col.layout lib isUnsigned disp = some l →
    lib.calcFieldSizeReads col.type.toNat col.metadata.toNat = l.prefixWidth ∧
    ∀ pre, pre.length = l.prefixWidth →
      lib.calcFieldSize col.type.toNat col.metadata.toNat pre = uint32 (l.size pre)

theorem Library.WrappedSize.fieldSize {col : Column} (h : lib.WrappedSize col) : lib.FieldSize col :=
  fun isUnsigned disp l hl =>
    ⟨(h isUnsigned disp l hl).1, fun pre hpre hlt =>
      ((h isUnsigned disp l hl).2 pre hpre).trans (uint32_of_lt hlt)⟩

inductive Layout.IsBlob : Layout → Prop
  | blob (width : Nat) (asHex : Bool) : Layout.IsBlob (.blob width asHex)
  | json : Layout.IsBlob .json

structure BlobField (lib : Library) where
  ev : RowsLogEvent2
  col : Column
  info : ColInfo
  disp : DisplayBlobs
  isPartial : Bool
  value : Nat
  layout : Layout
  lengthPrefix : List UInt8
  isBlob : layout.IsBlob
  layout_eq : col.layout lib info.isUnsigned disp = some layout
  read : slice? ev.mRowsBuf value layout.prefixWidth = some lengthPrefix

/-- A halt that is a failure, or a read past the end from inside the field. -/
def Verdict.Within (inside : Prop) : Verdict → Prop
  | .rejected => True
  | .overread => inside
  | .outOfBlock => False

namespace BlobField

variable (f : BlobField lib)

def length : Nat := leNat f.lengthPrefix

def size : Nat := f.layout.prefixWidth + f.length

def Accepted : Prop :=
  ∃ s s', (checkFieldSize lib f.ev.mRowsBuf false f.col f.value).run s = .ok () s'

def Inside : Prop := f.value + f.size ≤ f.ev.mRowsBuf.length

def getValue (os : Allocator) : CellM Nat :=
  logEventGetValue2 lib os f.ev.mRowsBuf (some f.value) f.col.type.toNat f.col.metadata.toNat
    f.isPartial f.info f.disp

/-- A field that is decoded is inside, its size is returned, and the length of
what is shown is not negative; no write leaves the block. -/
def Exact : Prop :=
  ∀ os s, Triple (f.getValue os) s
    (fun size s' => f.Inside ∧ size = f.size ∧ (f.disp.blobsDisplay = true → 0 ≤ s'.cell.len))
    fun e _ => e.verdict.Within f.Inside

def LengthSafe : Prop := f.Accepted → f.Exact

def doc : Scan (List UInt8) :=
  if f.isPartial then
    scanDiffs lib f.ev.mRowsBuf f.ev.mRowsBuf.length (f.value + 4) f.length []
  else scanDoc lib f.ev.mRowsBuf (f.value + 4) f.length

def Showable : Scan Int → Prop
  | .ok len => f.size < 2 ^ 32 ∧ 0 ≤ len
  | .error v => v.Within (f.size < 2 ^ 32)

/-- What is shown has a length that a signed 32-bit field has room for, and the
field has a width that 32 bits have room for. -/
def Fits : Prop :=
  if f.disp.blobsDisplay then
    match f.layout with
    | .blob _ asHex => (if asHex then 2 + 2 * f.length else f.length) < 2 ^ 31
    | _ => f.Showable (do pure (int32 (cstr (← f.doc)).length))
  else f.size < 2 ^ 32

-- ---------------------------------------------------------------------------
-- The check
-- ---------------------------------------------------------------------------

variable {f}

theorem prefixWidth_bounds : 0 < f.layout.prefixWidth ∧ f.layout.prefixWidth ≤ 4 := by
  have hl := f.layout_eq
  unfold Column.layout at hl
  generalize realType f.col.type.toNat f.col.metadata.toNat = t at hl
  obtain ⟨type, length⟩ := t
  dsimp only at hl
  have hblob := f.isBlob
  generalize f.layout = l at hl hblob ⊢
  cases hblob with
  | blob width asHex => exact layoutOf_blob hl
  | json => decide

theorem prefix_inside : f.value + f.layout.prefixWidth ≤ f.ev.mRowsBuf.length :=
  (slice?_inside f.read prefixWidth_bounds.1).1

theorem length_lt : f.length < 2 ^ 32 := by
  have hlt := leNat_lt f.lengthPrefix
  rw [slice?_length f.read] at hlt
  exact Nat.lt_of_lt_of_le hlt (Nat.pow_le_pow_right (by decide) prefixWidth_bounds.2)

theorem layout_size : f.layout.size f.lengthPrefix = f.size := by
  have hblob := f.isBlob
  unfold size
  generalize f.layout = l at hblob ⊢
  cases hblob <;> rfl

theorem accepted_iff (hsize : lib.WrappedSize f.col) :
    f.Accepted ↔ uint32 f.size ≤ f.ev.mRowsBuf.length - f.value := by
  obtain ⟨hreads, hcalc⟩ := hsize _ _ _ f.layout_eq
  have hin := @prefix_inside lib f
  have hleft : sizeT ((f.ev.mRowsBuf.length : Int) - f.value) = f.ev.mRowsBuf.length - f.value :=
    sizeT_sub f.ev.size_lt (by omega)
  have hread : ∀ s : RowsState, (atEvent (readBytes f.ev.mRowsBuf f.value
      (lib.calcFieldSizeReads f.col.type.toNat f.col.metadata.toNat))).run s = .ok f.lengthPrefix s :=
    fun s => atEvent_run (readBytes_run (hreads ▸ f.read))
  have hrun : ∀ s, (checkFieldSize lib f.ev.mRowsBuf false f.col f.value).run s =
      if uint32 f.size > f.ev.mRowsBuf.length - f.value then
        .error (corrupted (uint32 f.size) (f.ev.mRowsBuf.length - f.value)) s else .ok () s := by
    intro s
    unfold checkFieldSize
    rw [if_neg Bool.false_ne_true, run_bind_ok (hread s), hcalc _ (slice?_length f.read), layout_size,
      hleft]
    by_cases h : uint32 f.size > f.ev.mRowsBuf.length - f.value
    · simp only [if_pos h, run_throw']
    · simp only [if_neg h]
      rfl
  constructor
  · rintro ⟨s, s', h⟩
    rw [hrun] at h
    split at h
    · cases h
    · omega
  · intro hle
    exact ⟨⟨{}, {}⟩, ⟨{}, {}⟩, by rw [hrun, if_neg (by omega)]⟩

/-- A field that passes is inside unless its width wraps. -/
theorem inside_iff (hacc : uint32 f.size ≤ f.ev.mRowsBuf.length - f.value) :
    f.Inside ↔ f.size < 2 ^ 32 := by
  have hin := @prefix_inside lib f
  have hlt := f.ev.size_lt
  unfold Inside
  constructor
  · intro h
    omega
  · intro h
    rw [uint32_of_lt h] at hacc
    omega

-- ---------------------------------------------------------------------------
-- What is left in the cell
-- ---------------------------------------------------------------------------

variable (f) in
def contents : Scan Rendered :=
  scanContents lib f.ev.mRowsBuf f.disp f.isPartial f.value f.lengthPrefix f.layout

theorem advance_eq : f.layout.advance f.lengthPrefix = uint32 f.size := by
  rw [← layout_size]
  have hblob := f.isBlob
  generalize f.layout = l at hblob ⊢
  cases hblob <;> rfl

theorem layout_cases (f : BlobField lib) :
    (∃ width asHex, f.layout = .blob width asHex) ∨ f.layout = .json := by
  have hblob := f.isBlob
  generalize f.layout = l at hblob ⊢
  cases hblob with
  | blob width asHex => exact .inl ⟨width, asHex, rfl⟩
  | json => exact .inr rfl

theorem getValue_follows (f : BlobField lib) (os : Allocator) (s : CellState) :
    Follows (rowsHalts os) (f.getValue os) s f.contents fun size s' r =>
      size = uint32 f.size ∧ r.Applied s.cell s'.cell := by
  have h := @logEventGetValue2_follows lib os f.ev.mRowsBuf s f.col f.info f.value f.isPartial f.disp
  rw [f.layout_eq, reject, ok_bind, scanField, takeAt, f.read, ok_bind, advance_eq] at h
  exact Follows.of_map_right h

theorem hidden_exact_iff (hhide : f.disp.blobsDisplay = false)
    (hacc : uint32 f.size ≤ f.ev.mRowsBuf.length - f.value) : f.Exact ↔ f.size < 2 ^ 32 := by
  have hcontents : f.contents = .ok (.hidden (-1) false) := by
    have hblob := f.isBlob
    unfold contents
    generalize f.layout = l at hblob ⊢
    cases hblob with
    | blob => rw [scanContents, scanBlob, hhide]; rfl
    | json => rw [scanContents, scanJson, hhide]; rfl
  have hf := fun os s => hcontents ▸ f.getValue_follows os s
  constructor
  · intro h
    obtain ⟨os, hos⟩ := Allocator.exists_succeeds
    obtain ⟨_, s', hrun, -⟩ := (hf os ⟨{}, .zero⟩).reaches fun _ _ _ hsp => hsp.2 hos
    exact (inside_iff hacc).mp ((h _ _).ok hrun).1
  · intro hlt os s
    unfold Triple
    cases hrun : (f.getValue os).run s with
    | ok size s' =>
      obtain ⟨-, -, rfl, -⟩ := (hf os s).ok hrun
      exact ⟨(inside_iff hacc).mpr hlt, uint32_of_lt hlt, by simp [hhide]⟩
    | error e s' =>
      rcases (hf os s).error hrun with ⟨hsp, -⟩ | ⟨n, hn, -⟩
      · simp only [hsp, Verdict.Within]
      · cases hn

section

variable (hacc : uint32 f.size ≤ f.ev.mRowsBuf.length - f.value)

include hacc

theorem failed_exact_iff {v : Verdict} (h : f.contents = .error v) :
    f.Exact ↔ v.Within (f.size < 2 ^ 32) := by
  have hf := fun os s => h ▸ f.getValue_follows os s
  rw [← inside_iff hacc]
  constructor
  · intro hexact
    obtain ⟨os, hos⟩ := Allocator.exists_succeeds
    obtain ⟨e, s', hrun, hverdict⟩ := (hf os ⟨{}, .zero⟩).fails fun _ _ _ hsp => hsp.2 hos
    have hwithin := (hexact os ⟨{}, .zero⟩).error hrun
    rw [show e.verdict = v from hverdict] at hwithin
    exact hwithin
  · intro hwithin os s
    unfold Triple
    cases hrun : (f.getValue os).run s with
    | ok size s' =>
      obtain ⟨_, hr, -⟩ := (hf os s).ok hrun
      cases hr
    | error e s' =>
      rcases (hf os s).error hrun with ⟨hsp, -⟩ | ⟨n, hn, he⟩
      · simp only [hsp, Verdict.Within]
      · cases hn
        simp only [show e.verdict = v from he]
        exact hwithin

variable (hshow : f.disp.blobsDisplay = true)

include hshow

theorem shown_exact_iff {bs : List UInt8} {len : Int} {isHex : Option Bool}
    (h : f.contents = .ok (.text bs len isHex)) : f.Exact ↔ f.size < 2 ^ 32 ∧ 0 ≤ len := by
  have hf := fun os s => h ▸ f.getValue_follows os s
  constructor
  · intro hexact
    obtain ⟨os, hos⟩ := Allocator.exists_succeeds
    obtain ⟨size, s', hrun, rfl, id, tail, hc⟩ := (hf os ⟨{}, .zero⟩).reaches fun _ _ _ hsp => hsp.2 hos
    obtain ⟨hinside, -, hlen⟩ := (hexact os ⟨{}, .zero⟩).ok hrun
    rw [hc] at hlen
    exact ⟨(inside_iff hacc).mp hinside, hlen hshow⟩
  · rintro ⟨hlt, hlen⟩ os s
    unfold Triple
    cases hrun : (f.getValue os).run s with
    | ok size s' =>
      obtain ⟨_, hr, rfl, happ⟩ := (hf os s).ok hrun
      cases hr
      obtain ⟨id, tail, hc⟩ := happ
      exact ⟨(inside_iff hacc).mpr hlt, uint32_of_lt hlt, fun _ => by rw [hc]; exact hlen⟩
    | error e s' =>
      rcases (hf os s).error hrun with ⟨hsp, -⟩ | ⟨n, hn, -⟩
      · simp only [hsp, Verdict.Within]
      · cases hn

theorem json_exact_iff (hl : f.layout = .json) :
    f.Exact ↔ f.Showable (do pure (int32 (cstr (← f.doc)).length)) := by
  have hcontents : f.contents = f.doc.bind fun doc => .ok (.ofText (cstr doc) (some false)) := by
    unfold contents scanContents scanJson doc
    rw [hl, hshow]
    cases f.isPartial <;> rfl
  cases hdoc : f.doc with
  | ok doc =>
    rw [hdoc] at hcontents
    exact shown_exact_iff hacc hshow hcontents
  | error v =>
    rw [hdoc] at hcontents
    exact failed_exact_iff hacc hcontents

end

theorem hexText_length (bs : List UInt8) : (hexText bs).length = 2 + 2 * bs.length := by
  have hdigits : (bs.flatMap hexByte).length = 2 * bs.length := by
    induction bs with
    | nil => rfl
    | cons b bs ih =>
      rw [List.flatMap_cons, List.length_append, ih, List.length_cons]
      simp only [hexByte, List.length_cons, List.length_nil]
      omega
  rw [hexText, List.length_append, hdigits]
  rfl

theorem blob_exact_iff {width : Nat} {asHex : Bool} (hl : f.layout = .blob width asHex)
    (hshow : f.disp.blobsDisplay = true)
    (hacc : uint32 f.size ≤ f.ev.mRowsBuf.length - f.value) :
    f.Exact ↔ (if asHex then 2 + 2 * f.length else f.length) < 2 ^ 31 := by
  have hlt := @length_lt lib f
  have hin := inside_iff hacc
  have hsize : f.size = width + f.length := by rw [size, hl]; rfl
  have hwidth := @prefixWidth_bounds lib f
  rw [hl] at hwidth
  simp only [Layout.prefixWidth] at hwidth
  unfold Inside at hin
  have hcontents : f.contents = if asHex then scanHex f.ev.mRowsBuf (f.value + width) f.length
      else scanRaw f.ev.mRowsBuf (f.value + width) f.length := by
    rw [contents, hl, scanContents, scanBlob, hshow]
    rfl
  have hok {bs : List UInt8} {len : Nat} (h : f.contents = .ok (.text bs (int32 len) (some asHex)))
      (hlen : len < 2 ^ 32) : f.Exact ↔ f.size < 2 ^ 32 ∧ len < 2 ^ 31 := by
    rw [shown_exact_iff hacc hshow h, int32_nonneg_iff hlen]
  cases hpay : slice? f.ev.mRowsBuf (f.value + width) f.length with
  | some payload =>
    have hlen := slice?_length hpay
    have hsizelt : f.size < 2 ^ 32 := by
      by_contra hwrap
      have := (slice?_inside hpay (by omega)).1
      omega
    cases asHex with
    | true =>
      rw [if_pos rfl, scanHex, hpay] at hcontents
      dsimp only at hcontents
      split at hcontents
      case isTrue hroom =>
        rw [Rendered.ofText, hexText_length, hlen] at hcontents
        rw [hok hcontents (by omega), if_pos rfl]
        exact and_iff_right hsizelt
      case isFalse hroom =>
        rw [failed_exact_iff hacc hcontents, if_pos rfl]
        exact ⟨False.elim, fun h => by omega⟩
    | false =>
      rw [if_neg Bool.false_ne_true, scanRaw, takeAt, hpay, ok_bind] at hcontents
      split at hcontents
      case isTrue hroom =>
        rw [hok hcontents hlt, if_neg Bool.false_ne_true]
        exact and_iff_right hsizelt
      case isFalse hroom =>
        rw [failed_exact_iff hacc hcontents, if_neg Bool.false_ne_true]
        exact ⟨False.elim, fun h => by omega⟩
  | none =>
    -- The payload ends behind the event, so the width has wrapped.
    have hwrap : ¬ f.size < 2 ^ 32 := by
      intro hsizelt
      have hinside := hin.mpr hsizelt
      rw [slice?_of_le (by omega)] at hpay
      cases hpay
    have hlong : ¬ (if asHex then 2 + 2 * f.length else f.length) < 2 ^ 31 := by
      split <;> omega
    have hfails : ∃ v, f.contents = .error v ∧ v ≠ .rejected := by
      rw [hcontents]
      cases asHex with
      | true =>
        rw [if_pos rfl, scanHex, hpay]
        dsimp only
        split
        · exact ⟨_, rfl, by simp⟩
        · exact ⟨_, rfl, by simp⟩
      | false =>
        rw [if_neg Bool.false_ne_true, scanRaw, takeAt, hpay]
        exact ⟨_, rfl, by simp⟩
    obtain ⟨v, hv, hne⟩ := hfails
    rw [failed_exact_iff hacc hv, iff_false_right hlong]
    cases v with
    | rejected => exact absurd rfl hne
    | overread => exact hwrap
    | outOfBlock => exact id

-- ---------------------------------------------------------------------------
-- All settings
-- ---------------------------------------------------------------------------

theorem exact_iff_fits (hacc : uint32 f.size ≤ f.ev.mRowsBuf.length - f.value) : f.Exact ↔ f.Fits := by
  unfold Fits
  cases hshow : f.disp.blobsDisplay with
  | false => exact hidden_exact_iff hshow hacc
  | true =>
    rw [if_pos rfl]
    rcases f.layout_cases with ⟨width, asHex, hl⟩ | hl
    · rw [hl, blob_exact_iff hl hshow hacc]
    · rw [hl, json_exact_iff hacc hshow hl]

theorem lengthSafe_iff (hsize : lib.WrappedSize f.col) :
    f.LengthSafe ↔ (uint32 f.size ≤ f.ev.mRowsBuf.length - f.value → f.Fits) := by
  unfold LengthSafe
  rw [accepted_iff hsize]
  exact imp_congr_right exact_iff_fits

end BlobField

-- ---------------------------------------------------------------------------
-- Sample fields
-- ---------------------------------------------------------------------------

def wrappedLibrary : Library :=
  { sampleLibrary with
    calcFieldSize := fun type metadata pre => uint32 (sampleLibrary.calcFieldSize type metadata pre) }

def jsonColumn : Column := ⟨245, 4⟩

theorem wrappedLibrary_wrappedSize : wrappedLibrary.WrappedSize jsonColumn := by
  intro isUnsigned disp l hl
  have hexact : sampleLibrary.ExactSize jsonColumn := sampleLibrary_exactSize (by decide)
  obtain ⟨hreads, hsize⟩ := hexact isUnsigned disp l hl
  exact ⟨hreads, fun pre hpre => congrArg uint32 (hsize pre hpre)⟩

example : wrappedLibrary.FieldSize jsonColumn := wrappedLibrary_wrappedSize.fieldSize

def jsonField (mRowsBuf lengthPrefix : List UInt8) (blobsDisplay : Bool)
    (hlt : mRowsBuf.length < 2 ^ 32) (hread : slice? mRowsBuf 0 4 = some lengthPrefix) :
    BlobField wrappedLibrary where
  ev :=
    { typeCode := .writeRows, when := 0, tableId := 1, ndbLength := none
      mCols := [], mColsAi := [], mRowsBuf, size_lt := hlt }
  col := jsonColumn
  info := ⟨245, [], false⟩
  disp := ⟨blobsDisplay, false, false⟩
  isPartial := false
  value := 0
  layout := .json
  lengthPrefix := lengthPrefix
  isBlob := .json
  layout_eq := rfl
  read := hread

theorem shownField_lt : ([3, 0, 0, 0, 5, 7, 0] : List UInt8).length < 2 ^ 32 := by decide

def shownField : BlobField wrappedLibrary :=
  jsonField [3, 0, 0, 0, 5, 7, 0] [3, 0, 0, 0] true shownField_lt rfl

theorem hugeField_lt : ([255, 255, 255, 255, 1, 2, 3] : List UInt8).length < 2 ^ 32 := by decide

/-- A prefix of four bytes `ff` in front of three more bytes, hidden. -/
def hugeField : BlobField wrappedLibrary :=
  jsonField [255, 255, 255, 255, 1, 2, 3] [255, 255, 255, 255] false hugeField_lt rfl

theorem lengthSafe_iff_sample : shownField.LengthSafe :=
  (BlobField.lengthSafe_iff wrappedLibrary_wrappedSize).mpr fun _ => ⟨by decide, by decide⟩

/-- The width is 3 in 32 bits, so the field passes, and 3 is returned for its size. -/
theorem hugeField_not_lengthSafe : ¬ hugeField.LengthSafe := by
  intro hsafe
  have hacc : uint32 hugeField.size ≤ hugeField.ev.mRowsBuf.length - hugeField.value := by decide
  have hexact := hsafe ((BlobField.accepted_iff wrappedLibrary_wrappedSize).mpr hacc)
  exact absurd ((BlobField.hidden_exact_iff rfl hacc).mp hexact) (by decide)

end RplListener
