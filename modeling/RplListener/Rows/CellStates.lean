import RplListener.Rows.Bounds
import RplListener.Rows.Cells
import RplListener.Rows.Lengths
import RplListener.Rows.Texts

/-!
# Absent, NULL or a value

The consumer tells the three states of a cell by `len` and `val`. A text of
`2 ^ 31` bytes has no length in `len`: only a JSON document that is shown can
have one, as an event is smaller than `2 ^ 30` bytes.
-/

namespace RplListener

open Bytes Refine

variable {lib : Library} {os : Allocator} {s : RowsState}

-- ---------------------------------------------------------------------------
-- The states of a cell
-- ---------------------------------------------------------------------------

def Column.isBlob (col : Column) : Bool :=
  match FieldType.ofCode (realType col.type.toNat col.metadata.toNat).1 with
  | some .blob | some .json | some .geometry => true
  | _ => false

namespace ReplLogXValue

variable (c : ReplLogXValue)

def IsAbsent : Prop := c.len = -1 ∧ c.val = .null

def IsNull : Prop := c.len = 0 ∧ c.val = .null

/-- `val` is zero-terminated after `len` bytes. -/
def IsValue : Prop := 0 ≤ c.len ∧ ∃ id bs, c.val = .block id bs ∧ bs[c.len.toNat]? = some 0

end ReplLogXValue

def ExactlyOne (p q r : Prop) : Prop := (p ∧ ¬ q ∧ ¬ r) ∨ (¬ p ∧ q ∧ ¬ r) ∨ (¬ p ∧ ¬ q ∧ r)

section

variable (lib : Library) (f : ImageFormat) (col : Column) (k : Nat)

def EmptyString (bs : List UInt8) : Prop :=
  ∃ width, col.layout lib (unsignedAt f.colInfo k) f.disp = some (.chars width) ∧ bs.length = width

def Tells (slot : Slot) (c : ReplLogXValue) : Prop :=
  ExactlyOne
    ((slot = .absent ∨ col.isBlob = true ∧ f.disp.blobsDisplay = false) ∧ c.IsAbsent)
    (slot = .null ∧ c.IsNull)
    ((∃ bs doc, slot = .value bs doc ∧ (EmptyString lib f col k bs → c.len = 0)) ∧ c.IsValue)

end

variable {f : ImageFormat} {col : Column} {k : Nat} {slot : Slot} {c : ReplLogXValue}

theorem ReplLogXValue.IsAbsent.not_null (h : c.IsAbsent) : ¬ c.IsNull := by
  rintro ⟨hlen, -⟩
  have := h.1
  omega

theorem ReplLogXValue.IsValue.not_absent (h : c.IsValue) : ¬ c.IsAbsent := by
  rintro ⟨hlen, -⟩
  have := h.1
  omega

theorem ReplLogXValue.IsValue.not_null (h : c.IsValue) : ¬ c.IsNull := by
  rintro ⟨-, hval⟩
  obtain ⟨-, id, bs, hblock, -⟩ := h
  rw [hval] at hblock
  cases hblock

theorem Tells.absent (h : slot = .absent ∨ col.isBlob = true ∧ f.disp.blobsDisplay = false)
    (hc : c.IsAbsent) : Tells lib f col k slot c :=
  .inl ⟨⟨h, hc⟩, fun h' => hc.not_null h'.2, fun h' => h'.2.not_absent hc⟩

theorem Tells.null (hc : c.IsNull) : Tells lib f col k .null c :=
  .inr (.inl ⟨fun h' => h'.2.not_null hc, ⟨rfl, hc⟩, fun h' => h'.2.not_null hc⟩)

theorem Tells.value {bs doc : List UInt8} (h : EmptyString lib f col k bs → c.len = 0)
    (hc : c.IsValue) : Tells lib f col k (.value bs doc) c :=
  .inr (.inr ⟨fun h' => hc.not_absent h'.2, fun h' => hc.not_null h'.2, ⟨bs, doc, rfl, h⟩, hc⟩)

theorem Tells.isValue {id : Nat} {bs : List UInt8} (h : Tells lib f col k slot c)
    (hval : c.val = .block id bs) : c.IsValue := by
  rcases h with ⟨⟨-, -, hnull⟩, -⟩ | ⟨-, ⟨-, -, hnull⟩, -⟩ | ⟨-, -, -, hc⟩
  · rw [hnull] at hval
    cases hval
  · rw [hnull] at hval
    cases hval
  · exact hc

-- ---------------------------------------------------------------------------
-- The texts of a cell
-- ---------------------------------------------------------------------------

theorem int32_eq_iff {n : Nat} : int32 n = n ↔ n < 2 ^ 31 := by
  unfold int32
  rw [Int.bmod_def]
  split <;> omega

def Rendered.textLength : Rendered → Nat
  | .text bs _ _ => bs.length
  | _ => 0

/-- A text in a cell, `len` its length or more, has the state of a value when it
is padded up to there. -/
theorem isValue_of_padded {id : Nat} {text tail : List UInt8} {n : Nat} (hz : (0 : UInt8) ∉ text)
    (hval : c.val = .block id (text ++ 0 :: tail)) (hlen : c.len = n) (hle : text.length ≤ n)
    (h0 : n = 0 → text = []) (hpad : c.Padded) : c.IsValue := by
  refine ⟨by omega, id, _, hval, ?_⟩
  rw [hlen, Int.toNat_natCast]
  by_cases hn : n = 0
  · rw [h0 hn, hn]
    rfl
  · have hcstr : cstr (text ++ 0 :: tail) = text := Holds.cstr_eq ⟨hz, tail, rfl⟩
    exact hpad id _ hval (by omega) n (by rw [hcstr]; exact hle) (by omega)

theorem isValue_of_text {id : Nat} {text tail : List UInt8}
    (hval : c.val = .block id (text ++ 0 :: tail)) (hlen : c.len = text.length) : c.IsValue := by
  refine ⟨by omega, id, _, hval, ?_⟩
  rw [hlen, Int.toNat_natCast]
  simp

theorem length_lt_of_isValue {id : Nat} {text tail : List UInt8} (hz : (0 : UInt8) ∉ text)
    (hval : c.val = .block id (text ++ 0 :: tail)) (hlen : c.len = int32 text.length)
    (h : c.IsValue) : text.length < 2 ^ 31 := by
  obtain ⟨hpos, id', bs, hval', hzero⟩ := h
  rw [hval] at hval'
  cases hval'
  have hle : text.length ≤ c.len.toNat := by
    by_contra hlt
    rw [List.getElem?_append_left (by omega)] at hzero
    exact hz (List.mem_of_getElem? hzero)
  have := int32_le text.length
  exact int32_eq_iff.mp (by omega)

-- ---------------------------------------------------------------------------
-- Lengths of texts
-- ---------------------------------------------------------------------------

/-- The texts of numbers and times fit the local buffers they are printed into,
of which the largest has 320 bytes. -/
structure Library.ShortTexts (lib : Library) : Prop where
  decimal : ∀ precision decimals bs, (cstr (lib.decimal2string precision decimals bs)).length < 320
  float : ∀ bs, (cstr (lib.floatToString bs)).length < 320
  double : ∀ bs, (cstr (lib.doubleToString bs)).length < 320
  timestamp : ∀ metadata bs, (cstr (lib.myTimevalToStr metadata bs)).length < 320
  datetime : ∀ metadata bs, (cstr (lib.myDatetimeToStr metadata bs)).length < 320
  time : ∀ metadata bs, (cstr (lib.myTimeToStr metadata bs)).length < 320

theorem bitText_length (nbits : Nat) (bs : List UInt8) : (bitText nbits bs).length = nbits + 1 := by
  have hdigit : ∀ b, (binDigit b).length = 1 := by
    intro b
    cases b <;> rfl
  simp [bitText, List.length_flatMap, hdigit, Nat.add_comm]
  rfl

theorem decimal_leNat_length {bs : List UInt8} {w : Nat} (h : bs.length = w) (hw : w ≤ 4) :
    (decimal (leNat bs)).length ≤ 10 := by
  have hlt := leNat_lt bs
  have : 256 ^ bs.length ≤ 256 ^ 4 := Nat.pow_le_pow_right (by decide) (h ▸ hw)
  exact decimal_length_le (by decide) (by omega)

theorem cstr_length_le (bs : List UInt8) : (cstr bs).length ≤ bs.length :=
  (List.takeWhile_prefix _).length_le

theorem fixed_length_lt (hlib : lib.ShortTexts) {isUnsigned : Bool} {disp : DisplayBlobs}
    {type length metadata width : Nat} {text : List UInt8 → List UInt8} {bs : List UInt8}
    (hmeta : metadata < 2 ^ 16)
    (h : layoutOf lib isUnsigned disp type length metadata = some (.fixed width text))
    (hbs : bs.length = width) : (text bs).length < 2 ^ 31 := by
  have hlt := leNat_lt bs
  have hint : ∀ w, bs.length = w → 0 < w → w ≤ 8 → (integerText isUnsigned bs).length < 2 ^ 31 := by
    intro w hw hpos hle
    have hpow : 256 ^ bs.length ≤ 256 ^ 8 := Nat.pow_le_pow_right (by decide) (by omega)
    have := @integerText_length_le isUnsigned bs 20 (by decide) (by omega)
      (show 256 ^ bs.length ≤ 10 ^ 20 by omega)
    omega
  have hbits : ∀ n, n < 2 ^ 16 → (bitText n bs).length < 2 ^ 31 := by
    intro n hn
    rw [bitText_length]
    omega
  unfold layoutOf at h
  generalize FieldType.ofCode type = fieldType at h
  cases fieldType with
  | none => cases h
  | some t =>
    cases t with
    | tiny | short | int24 | long | longlong =>
      cases h
      exact hint _ hbs (by decide) (by decide)
    | newdecimal =>
      cases h
      exact (hlib.decimal _ _ bs).trans (by decide)
    | float =>
      cases h
      exact (hlib.float bs).trans (by decide)
    | double =>
      cases h
      exact (hlib.double bs).trans (by decide)
    | timestamp2 =>
      cases h
      exact (hlib.timestamp _ bs).trans (by decide)
    | datetime2 =>
      cases h
      exact (hlib.datetime _ bs).trans (by decide)
    | time2 =>
      cases h
      exact (hlib.time _ bs).trans (by decide)
    | timestamp =>
      cases h
      exact Nat.lt_of_le_of_lt (decimal_leNat_length hbs (by decide)) (by decide)
    | datetime =>
      cases h
      exact (datetimeText_length_lt (hbs ▸ hlt)).trans (by decide)
    | time =>
      cases h
      exact (timeText_length_lt (hbs ▸ hlt)).trans (by decide)
    | newdate =>
      cases h
      exact Nat.lt_of_le_of_lt (cstr_length_le _) (by simp [newdateText])
    | year =>
      cases h
      exact (yearText_length_lt (by simpa [hbs] using hlt)).trans (by decide)
    | enum =>
      dsimp only at h
      split at h
      · cases h
        exact Nat.lt_of_le_of_lt (decimal_leNat_length hbs (by decide)) (by decide)
      · split at h
        · cases h
          exact Nat.lt_of_le_of_lt (decimal_leNat_length hbs (by decide)) (by decide)
        · cases h
    | set =>
      cases h
      exact hbits _ (by omega)
    | bit =>
      cases h
      exact hbits _ (by unfold bitCount; omega)
    | blob | json | geometry =>
      dsimp only at h
      split at h <;> cases h
    | _ => cases h

-- ---------------------------------------------------------------------------
-- One cell
-- ---------------------------------------------------------------------------

theorem Column.isBlob_of_layout {isUnsigned : Bool} {disp : DisplayBlobs} {l : Layout}
    (hl : col.layout lib isUnsigned disp = some l) (h : l.IsBlob) : col.isBlob = true := by
  unfold Column.layout at hl
  unfold Column.isBlob
  generalize realType col.type.toNat col.metadata.toNat = t at hl ⊢
  obtain ⟨type, length⟩ := t
  dsimp only at hl ⊢
  unfold layoutOf at hl
  generalize FieldType.ofCode type = fieldType at hl ⊢
  cases fieldType with
  | none => cases hl
  | some t =>
    cases t with
    | blob | json | geometry => rfl
    | enum =>
      dsimp only at hl
      split at hl
      · cases hl
        cases h
      · split at hl
        · cases hl
          cases h
        · cases hl
    | _ =>
      cases hl
      cases h

theorem Tells.hidden {l : Layout} {bs doc : List UInt8} {isHex : Bool}
    (hl : col.layout lib (unsignedAt f.colInfo k) f.disp = some l) (h : l.IsBlob)
    (hhide : f.disp.blobsDisplay = false) (hc : c.Shows (some (.hidden (-1) isHex))) :
    Tells lib f col k (.value bs doc) c := by
  have hcell : c = { val := .null, len := -1, isHex } := hc
  exact .absent (.inr ⟨Column.isBlob_of_layout hl h, hhide⟩) (by rw [hcell]; exact ⟨rfl, rfl⟩)

theorem Tells.text {l : Layout} {bs doc text : List UInt8} {isHex : Option Bool}
    (hl : col.layout lib (unsignedAt f.colInfo k) f.disp = some l) (h : ∀ w, l ≠ .chars w)
    (hlt : text.length < 2 ^ 31) (hc : c.Shows (some (.ofText text isHex))) :
    Tells lib f col k (.value bs doc) c := by
  obtain ⟨id, tail, hcell⟩ := hc
  have hlen : c.len = int32 text.length := by rw [hcell]
  refine .value ?_ (isValue_of_text (congrArg ReplLogXValue.val hcell) (hlen.trans (int32_of_lt hlt)))
  rintro ⟨width, hl', -⟩
  exact absurd (Option.some.inj (hl.symm.trans hl')) (h width)

theorem tells_of_shows {l : Layout} {bs doc rest : List UInt8} (hlib : lib.ShortTexts)
    (hl : col.layout lib (unsignedAt f.colInfo k) f.disp = some l) (hpassed : l.Passed bs rest)
    (hlt : bs.length + 1 < 2 ^ 30)
    (hjson : l = .json → f.disp.blobsDisplay = true → (cstr doc).length < 2 ^ 31)
    (hpad : ∀ w, l = .chars w → c.Padded) (hc : c.Shows (some (l.render f.disp doc bs))) :
    Tells lib f col k (.value bs doc) c := by
  cases l with
  | fixed width text =>
    have hlen := fixed_length_lt hlib col.metadata.toNat_lt hl hpassed.2
    exact .text hl (by simp) hlen hc
  | chars width =>
    have hsize : bs.length = width + leNat ((bs ++ rest).take width) := hpassed.2
    have hle : ((bs.drop width).filter (· ≠ 0)).length ≤ bs.length - width := by
      simpa using List.length_filter_le (fun b => decide (b ≠ 0)) (bs.drop width)
    obtain ⟨id, tail, hcell⟩ := hc
    have hlen : c.len = int32 (bs.length - width) := by rw [hcell]
    rw [int32_of_lt (by omega)] at hlen
    refine .value ?_ (isValue_of_padded (by simp) (congrArg ReplLogXValue.val hcell) hlen hle ?_
      (hpad width rfl))
    · rintro ⟨width', hl', hempty⟩
      cases hl.symm.trans hl'
      omega
    · intro h0
      exact List.eq_nil_of_length_eq_zero (by omega)
  | blob width asHex =>
    unfold Layout.render at hc
    cases hshow : f.disp.blobsDisplay with
    | false =>
      rw [hshow] at hc
      exact .hidden hl (.blob width asHex) hshow hc
    | true =>
      rw [hshow] at hc
      have hpos := (layoutOf_blob hl).1
      cases asHex with
      | true =>
        have hlen : (hexText (bs.drop width)).length < 2 ^ 31 := by
          rw [BlobField.hexText_length, List.length_drop]
          omega
        exact .text hl (by simp) hlen hc
      | false =>
        have hlen : (bs.drop width).length = bs.length - width := List.length_drop
        have hraw : c.Shows (some (.ofText (bs.drop width) (some false))) := by
          rw [Rendered.ofText, hlen]
          exact hc
        exact .text hl (by simp) (by omega) hraw
  | json =>
    unfold Layout.render at hc
    cases hshow : f.disp.blobsDisplay with
    | false =>
      rw [hshow] at hc
      exact .hidden hl .json hshow hc
    | true =>
      rw [hshow] at hc
      exact .text hl (by simp) (hjson rfl hshow) hc

-- ---------------------------------------------------------------------------
-- One image
-- ---------------------------------------------------------------------------

theorem Column.nullRendered_cases {disp : DisplayBlobs} {r : Rendered}
    (h : col.nullRendered disp = some r) : r = .null ∨ col.isBlob = true ∧
      ∃ isHex, r = .hidden (if disp.blobsDisplay then 0 else -1) isHex := by
  unfold Column.nullRendered RplListener.nullRendered at h
  unfold Column.isBlob
  generalize FieldType.ofCode (realType col.type.toNat col.metadata.toNat).1 = fieldType at h ⊢
  cases fieldType with
  | none => cases h
  | some t =>
    cases t with
    | blob =>
      cases h
      exact .inr ⟨rfl, _, rfl⟩
    | json | geometry =>
      dsimp only at h
      split at h
      · cases h
        exact .inr ⟨rfl, _, rfl⟩
      · cases h
    | enum =>
      dsimp only at h
      split at h
      · cases h
        exact .inl rfl
      · cases h
    | _ =>
      cases h
      exact .inl rfl

theorem tells_null {r : Rendered} (h : col.nullRendered f.disp = some r) (hc : c.Shows (some r)) :
    Tells lib f col k .null c := by
  rcases Column.nullRendered_cases h with rfl | ⟨hblob, isHex, rfl⟩
  · have hcell : c = { val := .null, len := 0, isHex := false } := hc
    exact .null (by rw [hcell]; exact ⟨rfl, rfl⟩)
  · have hcell : c = { val := .null, len := if f.disp.blobsDisplay then 0 else -1, isHex } := hc
    cases hshow : f.disp.blobsDisplay with
    | true =>
      rw [hshow] at hcell
      exact .null (by rw [hcell]; exact ⟨rfl, rfl⟩)
    | false =>
      rw [hshow] at hcell
      exact .absent (.inr ⟨hblob, hshow⟩) (by rw [hcell]; exact ⟨rfl, rfl⟩)

theorem SlotsFit.field {rule : FieldRule} {img : Image} {cols : List Column}
    {i j nullBit partialBit : Nat} {slots : List Slot} {bs doc rest : List UInt8}
    (h : SlotsFit lib rule f img cols i nullBit partialBit slots rest) (hcol : cols[j]? = some col)
    (hslot : slots[j]? = some (.value bs doc)) : ∃ isPartial rest',
      rule (col.layout lib (unsignedAt f.colInfo (i + j)) f.disp) isPartial bs doc rest' := by
  induction cols generalizing i j nullBit partialBit slots with
  | nil => simp at hcol
  | cons head cols ih =>
    cases slots with
    | nil => simp at hslot
    | cons slot slots =>
      simp only [SlotsFit] at h
      cases j with
      | zero =>
        cases hcol
        cases hslot
        split at h
        · exact ⟨_, _, h.1.2⟩
        · exact absurd h.1 (by simp)
      | succ j =>
        have hrest : ∃ nullBit partialBit,
            SlotsFit lib rule f img cols (i + 1) nullBit partialBit slots rest := by
          split at h
          · exact ⟨_, _, h.2⟩
          · exact ⟨_, _, h.2⟩
        obtain ⟨_, _, hrest⟩ := hrest
        simpa [Nat.add_assoc, Nat.add_comm 1] using ih hrest hcol hslot

theorem Image.Fits.field_lt {rule : FieldRule} {img : Image} {bs doc rest : List UInt8}
    (h : img.Fits lib rule f rest) (hbit : true ∈ f.bitmap)
    (hslot : img.slots[k]? = some (.value bs doc)) : bs.length + 1 ≤ img.bytes.length := by
  have hcount : 0 < bitmapBitsSet f.bitmap := List.count_pos_iff.mpr hbit
  have hnull := h.nullBits
  have hsub : (Slot.value bs doc).bytes.Sublist (img.slots.flatMap Slot.bytes) := by
    rw [List.flatMap_def]
    exact List.sublist_flatten_of_mem (List.mem_map_of_mem (List.mem_of_getElem? hslot))
  have hle : bs.length ≤ (img.slots.flatMap Slot.bytes).length := hsub.length_le
  simp only [Image.bytes, List.length_append]
  omega

/-- The cells of an image tell what it has, as long as its documents are not too long. -/
theorem Image.Fits.tells {img : Image} {rest : List UInt8} (hlib : lib.ShortTexts)
    (h : img.Fits lib FieldPassed f rest)
    (hnulls : NullsRendered img.slots (img.rendered lib f)) (hcol : f.columns[k]? = some col)
    (hlt : img.bytes.length < 2 ^ 30) (hbit : true ∈ f.bitmap)
    (hjson : ∀ y, (img.rendered lib f)[k]? = some (some y) →
      col.layout lib (unsignedAt f.colInfo k) f.disp = some .json → y.textLength < 2 ^ 31)
    (hpad : ∀ w, col.layout lib (unsignedAt f.colInfo k) f.disp = some (.chars w) → c.Padded)
    {x : Option Rendered} (hx : (img.rendered lib f)[k]? = some x) (hc : c.Shows x) :
    ∃ slot, img.slots[k]? = some slot ∧ Tells lib f col k slot c := by
  obtain ⟨slot, hslot, hrow⟩ := h.slot hcol
  refine ⟨slot, hslot, ?_⟩
  cases hx.symm.trans hrow
  cases slot with
  | absent =>
    have hcell : c = { val := .null, len := -1, isHex := false } := hc
    exact .absent (.inl rfl) (by rw [hcell]; exact ⟨rfl, rfl⟩)
  | null =>
    cases hr : col.nullRendered f.disp with
    | none => exact absurd (hrow.trans (congrArg some hr)) (hnulls k hslot)
    | some r =>
      rw [Slot.rendered, hr] at hc
      exact tells_null hr hc
  | value bs doc =>
    obtain ⟨isPartial, _, hfit⟩ := h.slots.field hcol hslot
    rw [Nat.zero_add] at hfit
    cases hl : col.layout lib (unsignedAt f.colInfo k) f.disp with
    | none => exact (hl ▸ hfit).elim
    | some l =>
      rw [hl] at hfit
      rw [Slot.rendered, hl] at hc hrow
      refine tells_of_shows hlib hl hfit ?_ ?_ (fun w hw => hpad w (hl.trans (congrArg some hw))) hc
      · exact Nat.lt_of_le_of_lt (h.field_lt hbit hslot) hlt
      · rintro rfl hshow
        refine hjson (.ofText (cstr doc) (some false)) ?_ hl
        rw [hrow, Option.map_some, Layout.render, hshow]
        rfl

theorem Image.Fits.json_text {rule : FieldRule} {img : Image} {text rest : List UInt8} {len : Int}
    {isHex : Option Bool} (h : img.Fits lib rule f rest) (hcol : f.columns[k]? = some col)
    (hl : col.layout lib (unsignedAt f.colInfo k) f.disp = some .json)
    (ht : (img.rendered lib f)[k]? = some (some (.text text len isHex))) :
    (0 : UInt8) ∉ text ∧ len = int32 text.length := by
  obtain ⟨slot, -, hrow⟩ := h.slot hcol
  have heq := Option.some.inj (hrow.symm.trans ht)
  cases slot with
  | absent => cases heq
  | null =>
    rcases Column.nullRendered_cases heq with hr | ⟨-, _, hr⟩
    · cases hr
    · cases hr
  | value bs doc =>
    rw [Slot.rendered, hl, Option.map_some, Layout.render] at heq
    split at heq
    · cases heq
    · cases heq
      exact ⟨cstr_ne_zero doc, rfl⟩

-- ---------------------------------------------------------------------------
-- A whole event
-- ---------------------------------------------------------------------------

namespace RowsCall

/-- The event is made of the images of these rows, each field of them as long as the
cursor moves over it. -/
structure Consists (lib : Library) (c : RowsCall) (rows : List EncodedRow) : Prop where
  bytes : c.ev.mRowsBuf = rows.flatMap EncodedRow.bytes
  fits : RowsFit lib FieldPassed c.args c.ev.mCols c.ev.mColsAi rows []
  hasAfter : ∀ e ∈ rows, e.after.isSome = c.update

/-- An event the client accepts, with a column in each of its images and cells
that have indices in 32 bits. -/
structure Capped (lib : Library) (c : RowsCall) : Prop extends c.Fitting lib where
  size : c.ev.mRowsBuf.length < 2 ^ 30
  selects : true ∈ c.ev.mCols
  selectsAi : c.update = true → true ∈ c.ev.mColsAi
  cells : ∀ rows, c.Consists lib rows → rows.length * c.map.mColcnt < 2 ^ 32

/-- After `OK_CONTINUE` every cell tells what its image has for the column. -/
def Decisive (lib : Library) (c : RowsCall) : Prop :=
  ∀ os s value s', s.set.rowsCount = 0 →
    (getRows lib os c.ev c.map c.map.mColcnt c.info c.disp).run s = .ok value s' →
    ∃ rows, c.Consists lib rows ∧ s'.set.rowsCount = rows.length ∧
      ∀ (r : Nat) e, rows[r]? = some e → ∀ (k : Nat) col, c.map.columns[k]? = some col →
        (∃ slot cell, e.first.slots[k]? = some slot ∧ s'.set.cell? false r k = some cell ∧
          Tells lib (c.args.format c.ev.mCols false) col k slot cell) ∧
        ∀ img, e.after = some img →
          ∃ slot cell, img.slots[k]? = some slot ∧ s'.set.cell? true r k = some cell ∧
            Tells lib (c.args.format c.ev.mColsAi true) col k slot cell

/-- No JSON document that the event shows is printed as `2 ^ 31` bytes or more. -/
def JsonFits (lib : Library) (c : RowsCall) : Prop :=
  ∀ x, scanEvent lib c = .ok x → ∀ row ∈ x.1, ∀ (k : Nat) (col : Column),
    c.map.columns[k]? = some col →
    col.layout lib (unsignedAt c.info.2 k) c.disp = some .json → ∀ y,
      row.before[k]? = some (some y) ∨ row.after[k]? = some (some y) → y.textLength < 2 ^ 31

variable {c : RowsCall} {x : List Row × Nat}

theorem Capped.rows (h : c.Capped lib) (hx : scanEvent lib c = .ok x) :
    ∃ rows, c.Consists lib rows ∧ x.1 = rows.map (EncodedRow.row lib c.args c.ev.mCols c.ev.mColsAi) ∧
      ∀ e ∈ rows, e.NullsRendered (e.row lib c.args c.ev.mCols c.ev.mColsAi) := by
  have hscan := scanEvent_rows hx
  have hbounded : c.args.Bounded lib FieldPassed c.ev.mRowsBuf c.ev.mCols c.ev.mColsAi :=
    h.bounded fun col hcol => (h.sizes col hcol).walks c.ev.size_lt
  have hstop : x.2 = c.ev.mRowsBuf.length :=
    scanRows_stop hbounded h.selects h.selectsAi (Nat.zero_le _) (by omega) hscan
  obtain ⟨rows, stop⟩ := x
  cases hstop
  obtain ⟨encoded, rfl, hfits, hall, hspan⟩ : ∃ encoded : List EncodedRow, _ :=
    scanRows_complete hbounded (Nat.zero_le _) hscan
  exact ⟨encoded, ⟨hspan.whole, hfits, fun e he => (hall e he).1⟩, rfl, fun e he => (hall e he).2⟩

theorem Consists.cell {rows : List EncodedRow} {set : RowSet} {e : EncodedRow} {r k : Nat}
    {col : Column} (h : c.Consists lib rows) (hlt : rows.length * c.map.mColcnt < 2 ^ 32)
    (hd : Delivered c.map.mColcnt c.update
      (rows.map (EncodedRow.row lib c.args c.ev.mCols c.ev.mColsAi)) set)
    (hr : rows[r]? = some e) (hcol : c.map.columns[k]? = some col) (after : Bool)
    (hafter : after = true → c.update = true) {x : Option Rendered}
    (hx : (if after then (e.row lib c.args c.ev.mCols c.ev.mColsAi).after
      else (e.row lib c.args c.ev.mCols c.ev.mColsAi).before)[k]? = some x) :
    ∃ cell, set.cell? after r k = some cell ∧ cell.Shows x := by
  have hk : k < c.map.mColcnt := by
    rw [TableMapLogEvent.mColcnt, ← c.map.columns_length]
    exact (List.getElem?_eq_some_iff.mp hcol).1
  refine hd.cell after hafter (by simpa using hlt) ?_ (by rw [List.getElem?_map, hr]; rfl) hk hx
  intro y hy
  obtain ⟨e', he', rfl⟩ := List.mem_map.mp hy
  obtain ⟨_, hfit⟩ := h.fits.of_mem he'
  exact hfit.row_length

theorem cell_padded {rows : List Row} {set : RowSet} {after : Bool} {r k : Nat} {cell : ReplLogXValue}
    (hlt : rows.length * c.map.mColcnt < 2 ^ 32) (hd : Delivered c.map.mColcnt c.update rows set)
    (hpad : PaddedSet lib c.args c.update set) (hafter : after = true → c.update = true)
    (hr : r < rows.length) (hk : k < c.map.mColcnt) (hcell : set.cell? after r k = some cell)
    (hchars : c.args.HasChars lib k) : cell.Padded := by
  have hoff : (rowOffsets rows.length c.map.mColcnt)[r]? = some (r * c.map.mColcnt) := by
    have : r * c.map.mColcnt ≤ rows.length * c.map.mColcnt := Nat.mul_le_mul_right _ hr.le
    rw [rowOffsets, List.getElem?_map, List.getElem?_range hr, Option.map_some, uint32_of_lt (by omega)]
  have hptrs : ∃ id, (if after then set.rowsAfter else set.rows) =
      .block id (rowOffsets rows.length c.map.mColcnt) := by
    cases after with
    | false => exact hd.rowPtrs
    | true => exact hd.rowAfterPtrs (hafter rfl)
  obtain ⟨id, hptrs⟩ := hptrs
  unfold RowSet.cell? at hcell
  rw [hptrs] at hcell
  cases hb : set.block after with
  | null => simp [hb] at hcell
  | wild => simp [hb] at hcell
  | block id' cells =>
    have hcount : set.rowsCount ≠ 0 := by
      have := hd.count
      omega
    have hget : cells[r * c.map.mColcnt + k]? = some cell := by simpa [hb, hoff] using hcell
    have hmod : (r * c.map.mColcnt + k) % c.args.colCount = k := by
      change (r * c.map.mColcnt + k) % c.map.mColcnt = k
      rw [Nat.mul_add_mod_self_right, Nat.mod_eq_of_lt hk]
    exact hpad hcount after hafter id' cells hb _ cell hget (hmod.symm ▸ hchars)

theorem Capped.decisive (hlib : lib.ShortTexts) (h : c.Capped lib) (hfits : c.JsonFits lib) :
    c.Decisive lib := by
  intro os s value s' hs hrun
  obtain ⟨x, hx, -, -, hd⟩ := (getRows_follows lib os h.cached hs).ok hrun
  obtain ⟨rows, hrows, hxrows, hnulls⟩ := h.rows hx
  have hlt := h.cells rows hrows
  have hshort := hfits x hx
  rw [hxrows] at hd hshort
  obtain ⟨n, hn, hpad⟩ := (getRows_padded h.cached hs).ok hrun
  have hcount : s'.set.rowsCount = rows.length := by simpa using hd.count
  have hpad := hpad (by rw [← hn, hcount]; exact hlt)
  refine ⟨rows, hrows, hcount, fun r e hr k col hcol => ?_⟩
  have he := List.mem_of_getElem? hr
  obtain ⟨_, hfit⟩ := hrows.fits.of_mem he
  have hk : k < c.map.mColcnt := by
    rw [TableMapLogEvent.mColcnt, ← c.map.columns_length]
    exact (List.getElem?_eq_some_iff.mp hcol).1
  have hrlt : r < (rows.map (EncodedRow.row lib c.args c.ev.mCols c.ev.mColsAi)).length := by
    rw [List.length_map]
    exact (List.getElem?_eq_some_iff.mp hr).1
  have hbytes : e.bytes.length ≤ c.ev.mRowsBuf.length := by
    rw [hrows.bytes, List.flatMap_def]
    exact (List.sublist_flatten_of_mem (List.mem_map_of_mem he)).length_le
  have hsize := h.size
  have hpadded : ∀ after cell, (after = true → c.update = true) → s'.set.cell? after r k = some cell →
      ∀ w, col.layout lib (unsignedAt c.info.2 k) c.disp = some (.chars w) → cell.Padded :=
    fun after cell hafter hcell w hw =>
      cell_padded (by simpa using hlt) hd hpad hafter hrlt hk hcell ⟨col, w, hcol, hw⟩
  have hrow := hshort _ (List.mem_map_of_mem he) k col hcol
  have hlast := hnulls e he
  unfold EncodedRow.bytes at hbytes
  rw [List.length_append] at hbytes
  constructor
  · obtain ⟨_, -, hx⟩ := hfit.first.slot hcol
    obtain ⟨cell, hcell, hshow⟩ := hrows.cell hlt hd hr hcol false (by simp) hx
    obtain ⟨slot, hslot, htells⟩ := hfit.first.tells hlib hlast.1 hcol (by omega) h.selects
      (fun y hy hl => hrow hl y (.inl hy))
      (hpadded false cell (by simp) hcell) hx hshow
    exact ⟨slot, cell, hslot, hcell, htells⟩
  · intro img himg
    have hup : c.update = true := by rw [← hrows.hasAfter e he, himg]; rfl
    have hafter : (e.row lib c.args c.ev.mCols c.ev.mColsAi).after =
        img.rendered lib (c.args.format c.ev.mColsAi true) := by rw [EncodedRow.row, himg]; rfl
    have himage := hfit.after img himg
    obtain ⟨_, -, hx⟩ := himage.slot hcol
    obtain ⟨cell, hcell, hshow⟩ := hrows.cell hlt hd hr hcol true (fun _ => hup) (hafter ▸ hx)
    rw [himg, Option.elim_some] at hbytes
    obtain ⟨slot, hslot, htells⟩ := himage.tells hlib (hafter ▸ hlast.2 img himg) hcol (by omega)
      (h.selectsAi hup) (fun y hy hl => hrow hl y (.inr (hafter ▸ hy)))
      (hpadded true cell (fun _ => hup) hcell) hx hshow
    exact ⟨slot, cell, hslot, hcell, htells⟩

/-- A cell with a long document is not in one of the states. -/
theorem Decisive.jsonFits (h : c.Capped lib) (hdecisive : c.Decisive lib) : c.JsonFits lib := by
  intro x hx row hrow k col hcol hl y hy
  obtain ⟨os, hos⟩ := Allocator.exists_succeeds
  have hf := getRows_follows lib os (s := ⟨{}, {}⟩) h.cached rfl
  rw [hx] at hf
  obtain ⟨value, s', hrun, -, -, hd⟩ := hf.reaches fun _ _ _ hspare => hspare.2 hos
  obtain ⟨rows, hrows, hxrows, -⟩ := h.rows hx
  have hlt := h.cells rows hrows
  rw [hxrows] at hd hrow
  obtain ⟨e, he, rfl⟩ := List.mem_map.mp hrow
  obtain ⟨r, hrlt, hr⟩ := List.mem_iff_getElem.mp he
  have hr : rows[r]? = some e := by rw [List.getElem?_eq_getElem hrlt, hr]
  obtain ⟨_, hfit⟩ := hrows.fits.of_mem he
  -- The rows that the cells are said to be of are as many.
  obtain ⟨rows', hrows', hcount, htells⟩ := hdecisive os ⟨{}, {}⟩ value s' rfl hrun
  have hrlt' : r < rows'.length := by
    rw [← hcount, hd.count]
    simpa using hrlt
  obtain ⟨hfirst, hafter⟩ := htells r _ (List.getElem?_eq_getElem hrlt') k col hcol
  cases y with
  | null => exact Nat.two_pow_pos 31
  | hidden len isHex => exact Nat.two_pow_pos 31
  | text text len isHex =>
    rcases hy with ht | ht
    · obtain ⟨hz, hlen⟩ := hfit.first.json_text hcol hl ht
      obtain ⟨cell, hcell, id, tail, hval⟩ := hrows.cell hlt hd hr hcol false (by simp) ht
      obtain ⟨_, cell', -, hcell', htell⟩ := hfirst
      cases hcell.symm.trans hcell'
      have hblock : cell.val = .block id (text ++ 0 :: tail) := by rw [hval]
      exact length_lt_of_isValue hz hblock (by rw [hval, hlen]) (htell.isValue hblock)
    · cases ha : e.after with
      | none =>
        rw [EncodedRow.row, ha, Option.elim_none, List.getElem?_replicate] at ht
        split at ht <;> simp at ht
      | some img =>
        have hup : c.update = true := by rw [← hrows.hasAfter e he, ha]; rfl
        have hrow : (e.row lib c.args c.ev.mCols c.ev.mColsAi).after =
            img.rendered lib (c.args.format c.ev.mColsAi true) := by rw [EncodedRow.row, ha]; rfl
        obtain ⟨hz, hlen⟩ := (hfit.after img ha).json_text hcol hl (hrow ▸ ht)
        obtain ⟨cell, hcell, id, tail, hval⟩ := hrows.cell hlt hd hr hcol true (fun _ => hup) ht
        have hsome := hrows'.hasAfter _ (List.getElem_mem hrlt')
        rw [hup] at hsome
        obtain ⟨img', himg'⟩ := Option.isSome_iff_exists.mp hsome
        obtain ⟨_, cell', -, hcell', htell⟩ := hafter img' himg'
        cases hcell.symm.trans hcell'
        have hblock : cell.val = .block id (text ++ 0 :: tail) := by rw [hval]
        exact length_lt_of_isValue hz hblock (by rw [hval, hlen]) (htell.isValue hblock)

/-- Every cell tells what its image has, exactly when no document is too long. -/
theorem decisive_iff (hlib : lib.ShortTexts) (h : c.Capped lib) : c.Decisive lib ↔ c.JsonFits lib :=
  ⟨Decisive.jsonFits h, h.decisive hlib⟩

theorem Consists.length_le {rows : List EncodedRow} (h : c.Consists lib rows)
    (hcols : true ∈ c.ev.mCols) : rows.length ≤ c.ev.mRowsBuf.length := by
  rw [h.bytes]
  refine length_le_of_bytes_pos fun e he => ?_
  obtain ⟨_, hfit⟩ := h.fits.of_mem he
  exact hfit.first.bytes_pos hcols

end RowsCall

-- ---------------------------------------------------------------------------
-- Sample events
-- ---------------------------------------------------------------------------

theorem sampleLibrary_shortTexts : sampleLibrary.ShortTexts := by
  have hnil : (cstr []).length < 320 := by decide
  exact ⟨fun _ _ _ => hnil, fun _ => hnil, fun _ => hnil, fun _ _ => hnil, fun _ _ => hnil,
    fun _ _ => hnil⟩

theorem sampleCall_capped : sampleCall.Capped sampleLibrary where
  toFitting := sampleCall_fitting
  size := by decide
  selects := by decide
  selectsAi := fun _ => by decide
  cells := by
    intro rows hrows
    have hle : rows.length ≤ 31 := (hrows.length_le (by decide)).trans (by decide)
    have hcols : sampleCall.map.mColcnt = 3 := rfl
    rw [hcols]
    omega

theorem sampleRow_short (y : Rendered)
    (hy : some y ∈ (sampleRow.row sampleLibrary sampleCall.args sampleCall.ev.mCols
        sampleCall.ev.mColsAi).before ++
      (sampleRow.row sampleLibrary sampleCall.args sampleCall.ev.mCols sampleCall.ev.mColsAi).after) :
    y.textLength < 2 ^ 31 := by
  have hall : ((sampleRow.row sampleLibrary sampleCall.args sampleCall.ev.mCols
      sampleCall.ev.mColsAi).before ++ (sampleRow.row sampleLibrary sampleCall.args
      sampleCall.ev.mCols sampleCall.ev.mColsAi).after).all
      (fun x => (x.map Rendered.textLength).getD 0 < 2 ^ 31) = true := by decide +kernel
  simpa using List.all_eq_true.mp hall _ hy

theorem sampleCall_jsonFits : sampleCall.JsonFits sampleLibrary := by
  intro x hx row hrow k col hcol hl y hy
  rw [sampleCall_encodes.scan sampleCall_readable] at hx
  cases hx
  cases List.mem_singleton.mp hrow
  refine sampleRow_short y (List.mem_append.mpr ?_)
  exact hy.imp List.mem_of_getElem? List.mem_of_getElem?

theorem decisive_iff_sample : sampleCall.Decisive sampleLibrary :=
  (RowsCall.decisive_iff sampleLibrary_shortTexts sampleCall_capped).mpr sampleCall_jsonFits

def escaped (b : UInt8) : List UInt8 :=
  match b.toNat with
  | 8 => ascii "\\b"
  | 9 => ascii "\\t"
  | 10 => ascii "\\n"
  | 12 => ascii "\\f"
  | 13 => ascii "\\r"
  | 34 => ascii "\\\""
  | 92 => ascii "\\\\"
  | n => if n < 32 then ascii "\\u00" ++ hexByte b else [b]

def variableLength : List UInt8 → Nat × Nat
  | [] => (0, 0)
  | b :: bs =>
    if b.toNat < 128 then (b.toNat, 1)
    else (b.toNat - 128 + 128 * (variableLength bs).1, (variableLength bs).2 + 1)

def stringArrayText : List UInt8 → JsonDoc
  | 3 :: body =>
    if body.take 4 = [1, 0, 0, 0] ∧ leNat ((body.drop 4).take 4) = body.length ∧ body.getD 8 0 = 12 then
      let string := body.drop (leNat ((body.drop 9).take 4))
      let (length, width) := variableLength string
      .value (ascii "[\"" ++ ((string.drop width).take length).flatMap escaped ++ ascii "\"]")
    else .error
  | _ => .error

def arrayLibrary : Library :=
  { sampleLibrary with parseBinary := fun avail length => stringArrayText (avail.take length) }

/-- The length is not evaluated in unary. -/
@[irreducible] def controlsLength : Nat := 402653184

theorem controlsLength_eq : controlsLength = 402653184 := by
  unfold controlsLength
  rfl

def controls : List UInt8 := List.replicate controlsLength 1

theorem controls_length : controls.length = 402653184 := by
  rw [controls, List.length_replicate, controlsLength_eq]

theorem replicate_escaped (n : Nat) : ((List.replicate n 1).flatMap escaped).length = n * 6 ∧
    (0 : UInt8) ∉ (List.replicate n 1).flatMap escaped := by
  have hone : escaped 1 = [92, 117, 48, 48, 48, 49] := by decide
  constructor
  · simp [List.length_flatMap, hone]
  · simp [hone]

theorem controls_escaped : (controls.flatMap escaped).length = 2415919104 ∧
    (0 : UInt8) ∉ controls.flatMap escaped := by
  obtain ⟨hlen, hz⟩ := replicate_escaped controlsLength
  refine ⟨hlen.trans ?_, hz⟩
  rw [controlsLength_eq]

def controlsHead : List UInt8 :=
  [1, 0, 0, 0, 0x12, 0, 0, 0x18, 12, 13, 0, 0, 0, 0x80, 0x80, 0x80, 0xc0, 1]

def controlsDoc : List UInt8 := 3 :: (controlsHead ++ controls)

def controlsText : List UInt8 := ascii "[\"" ++ controls.flatMap escaped ++ ascii "\"]"

theorem controlsHead_append_length {string : List UInt8} (h : string.length = 402653184) :
    (controlsHead ++ string).length = 402653202 := by
  have hhead : controlsHead.length = 18 := by decide
  rw [List.length_append, h, hhead]

theorem controlsDoc_length : controlsDoc.length = 402653203 := by
  rw [controlsDoc, List.length_cons, controlsHead_append_length controls_length]

theorem stringArrayText_controls {string : List UInt8} (h : string.length = 402653184) :
    stringArrayText (3 :: (controlsHead ++ string)) =
      .value (ascii "[\"" ++ string.flatMap escaped ++ ascii "\"]") := by
  have hcount : (controlsHead ++ string).take 4 = [1, 0, 0, 0] := rfl
  have hsize : ((controlsHead ++ string).drop 4).take 4 = [0x12, 0, 0, 0x18] := rfl
  have htype : (controlsHead ++ string).getD 8 0 = 12 := rfl
  have hoffset : ((controlsHead ++ string).drop 9).take 4 = [13, 0, 0, 0] := rfl
  have hstring : (controlsHead ++ string).drop 13 = 0x80 :: 0x80 :: 0x80 :: 0xc0 :: 1 :: string := rfl
  have hvar : variableLength (0x80 :: 0x80 :: 0x80 :: 0xc0 :: 1 :: string) = (402653184, 5) := by
    simp [variableLength]
  have hleSize : leNat [0x12, 0, 0, 0x18] = 402653202 := by decide
  have hleOffset : leNat [13, 0, 0, 0] = 13 := by decide
  rw [stringArrayText, if_pos ⟨hcount, by rw [hsize, hleSize, controlsHead_append_length h], htype⟩,
    hoffset, hleOffset, hstring]
  simp only [hvar, List.drop_succ_cons, List.drop_zero]
  rw [← h, List.take_length]

theorem controlsDoc_parses : ParsesTo arrayLibrary controlsDoc controlsText := by
  intro rest
  have htake : (controlsDoc ++ rest).take controlsDoc.length = controlsDoc := List.take_left
  unfold arrayLibrary
  simp only [htake]
  exact stringArrayText_controls controls_length

def controlsRow : EncodedRow where
  first :=
    { options := [], valueOptions := 0, partialBits := [], nullBits := [0]
      slots := [.value ([0x13, 0, 0, 0x18] ++ controlsDoc) controlsText] }
  after := none

theorem controlsRow_length : controlsRow.bytes.length = 402653208 := by
  have hbytes : controlsRow.bytes = [0, 0x13, 0, 0, 0x18] ++ controlsDoc := by
    simp [controlsRow, EncodedRow.bytes, Image.bytes, Slot.bytes]
  have hhead : ([0, 0x13, 0, 0, 0x18] : List UInt8).length = 5 := rfl
  rw [hbytes, List.length_append, controlsDoc_length, hhead]

theorem controlsRow_length_lt : controlsRow.bytes.length < 2 ^ 32 := by
  rw [controlsRow_length]
  decide

theorem oneJsonColumn : ([⟨245, 4⟩] : List Column).length = ([245] : List UInt8).length := rfl

def controlsCall : RowsCall where
  ev :=
    { typeCode := .writeRows, when := 0, tableId := 1, ndbLength := none
      mCols := [true], mColsAi := [true], mRowsBuf := controlsRow.bytes, size_lt := controlsRow_length_lt }
  map :=
    { tempBuf := [], tableId := 1, dbName := ascii "d", tableName := ascii "t", mColtype := [245]
      mOptionalMetadata := [], columns := [⟨245, 4⟩], columns_length := oneJsonColumn
      colcnt_lt := oneByte_lt }
  info := (1, [⟨245, [], false⟩])
  disp := ⟨true, false, false⟩

theorem controlsCall_readable : controlsCall.args.Readable arrayLibrary where
  sizes col h := by
    obtain rfl : col = jsonColumn := List.mem_singleton.mp h
    have hsizes : sampleLibrary.FieldSize jsonColumn := (sampleLibrary_exactSize (by decide)).fieldSize
    exact hsizes
  supported col h := by
    obtain rfl : col = jsonColumn := List.mem_singleton.mp h
    exact sampleMap_supported (by decide)

theorem controlsCall_capped : controlsCall.Capped arrayLibrary where
  cached := Nat.le_refl 1
  sizes := controlsCall_readable.sizes
  cols := rfl
  colsAi := rfl
  lenenc := by simp [controlsCall]
  size := by
    rw [show controlsCall.ev.mRowsBuf = controlsRow.bytes from rfl, controlsRow_length]
    decide
  selects := by decide
  selectsAi := fun _ => by decide
  cells := by
    intro rows hrows
    have hle : rows.length ≤ 402653208 := controlsRow_length ▸ hrows.length_le (by decide)
    rw [show controlsCall.map.mColcnt = 1 from rfl]
    omega

theorem controlsField_complete : Layout.json.Complete ([0x13, 0, 0, 0x18] ++ controlsDoc) := by
  have hlen : leNat [0x13, 0, 0, 0x18] = 402653203 := by decide
  have hdoc := controlsDoc_length
  generalize controlsDoc = doc at hdoc
  have htake : ([0x13, 0, 0, 0x18] ++ doc).take Layout.json.prefixWidth = [0x13, 0, 0, 0x18] := rfl
  have hwidth : Layout.json.prefixWidth = 4 := rfl
  have hhead : ([0x13, 0, 0, 0x18] : List UInt8).length = 4 := rfl
  constructor
  · rw [List.length_append, hhead, hwidth]
    omega
  · rw [htake, Layout.size, hlen, hwidth, List.length_append, hdoc, hhead]
    simp

theorem controlsRow_complete : controlsRow.Complete arrayLibrary (JsonPayload arrayLibrary)
    controlsCall.args controlsCall.update controlsCall.ev.mCols controlsCall.ev.mColsAi where
  first :=
    { options := ⟨rfl, rfl⟩, partialBits := rfl, nullBits := rfl
      slots := ⟨⟨by decide, controlsField_complete, controlsDoc_parses⟩, rfl⟩ }
  hasAfter := rfl
  after := by simp [controlsRow]

theorem controlsCall_encodes : controlsCall.Encodes arrayLibrary [controlsRow] where
  accepted := by decide
  cols := by decide
  colsAi := fun _ => by decide
  bytes := (List.append_nil _).symm
  complete := by
    intro e he
    cases List.mem_singleton.mp he
    exact controlsRow_complete
  size := by
    rw [show controlsCall.ev.mRowsBuf = controlsRow.bytes from rfl, controlsRow_length]
    decide
  cells := by decide

/-- The document is delivered with a negative length, as a column that is not in the image. -/
theorem controlsCall_not_decisive : ¬ controlsCall.Decisive arrayLibrary := by
  intro h
  have hscan := controlsCall_encodes.scan controlsCall_readable
  obtain ⟨hlen, hz⟩ := controls_escaped
  have hfits := h.jsonFits controlsCall_capped _ hscan _ (List.mem_singleton.mpr rfl) 0 ⟨245, 4⟩ rfl rfl
    (.ofText (cstr controlsText) (some false)) (.inl rfl)
  have hopen : (ascii "[\"").length = 2 := by decide
  have hclose : (ascii "\"]").length = 2 := by decide
  have htext : controlsText.length = 2415919108 := by
    simp only [controlsText, List.length_append, hlen, hopen, hclose]
  have hzero : (0 : UInt8) ∉ controlsText := by
    simp only [controlsText, List.mem_append, not_or]
    exact ⟨⟨by decide, hz⟩, by decide⟩
  rw [Rendered.ofText, Rendered.textLength, cstr_of_ne_zero hzero, htext] at hfits
  omega

end RplListener
