import RplListener.Rows.Decode

/-!
# Encoded images

What a rows event is made of, without positions, memory or loops. A `Layout` is
the wire format of one column type, an `Image` the parts of one row image, and
`Image.bytes` what the server writes for it. `Layout.render` says which text a
field has.
-/

namespace RplListener

open Bytes

-- ---------------------------------------------------------------------------
-- Layouts
-- ---------------------------------------------------------------------------

/-- How the field of a column lies in the event: a fixed number of bytes with
their text, or a length prefix of `width` bytes and as many bytes as it says. -/
inductive Layout where
  | fixed (width : Nat) (text : List UInt8 → List UInt8)
  | chars (width : Nat)
  | blob (width : Nat) (asHex : Bool)
  | json

def Layout.prefixWidth : Layout → Nat
  | .fixed _ _ => 0
  | .chars width => width
  | .blob width _ => width
  | .json => 4

def Layout.size : Layout → List UInt8 → Nat
  | .fixed width _, _ => width
  | l, lengthPrefix => l.prefixWidth + leNat lengthPrefix

def integerText (isUnsigned : Bool) (bs : List UInt8) : List UInt8 :=
  if isUnsigned then decimal (leNat bs) else decimalInt (leInt bs)

def bitText (nbits : Nat) (bs : List UInt8) : List UInt8 :=
  ascii "b" ++ (List.range' ((nbits + 7) / 8 * 8 - nbits) nbits).flatMap fun bitnum =>
    binDigit (bitAt (bs.getD (bitnum / 8) 0) bitnum)

def hexText (bs : List UInt8) : List UInt8 := ascii "0x" ++ bs.flatMap hexByte

section

variable (lib : Library) (isUnsigned : Bool) (disp : DisplayBlobs)

/-- The layout of a column type, when the type and its metadata are supported. -/
def layoutOf (type length metadata : Nat) : Option Layout :=
  match FieldType.ofCode type with
  | some .tiny => some (.fixed 1 (integerText isUnsigned))
  | some .short => some (.fixed 2 (integerText isUnsigned))
  | some .int24 => some (.fixed 3 (integerText isUnsigned))
  | some .long => some (.fixed 4 (integerText isUnsigned))
  | some .longlong => some (.fixed 8 (integerText isUnsigned))
  | some .newdecimal => some (.fixed (lib.myDecimalGetBinarySize (metadata / 256) (metadata % 256))
      (fun bs => cstr (lib.decimal2string (metadata / 256) (metadata % 256) bs)))
  | some .float => some (.fixed 4 (fun bs => cstr (lib.floatToString bs)))
  | some .double => some (.fixed 8 (fun bs => cstr (lib.doubleToString bs)))
  | some .bit => some (.fixed ((bitCount metadata + 7) / 8) (bitText (bitCount metadata)))
  | some .timestamp => some (.fixed 4 (fun bs => decimal (leNat bs)))
  | some .timestamp2 => some (.fixed (lib.myTimestampBinaryLength metadata)
      (fun bs => cstr (lib.myTimevalToStr metadata bs)))
  | some .datetime => some (.fixed 8 (fun bs => datetimeText (leNat bs)))
  | some .datetime2 => some (.fixed (lib.myDatetimeBinaryLength metadata)
      (fun bs => cstr (lib.myDatetimeToStr metadata bs)))
  | some .time => some (.fixed 3 (fun bs => timeText (leNat bs)))
  | some .time2 => some (.fixed (lib.myTimeBinaryLength metadata)
      (fun bs => cstr (lib.myTimeToStr metadata bs)))
  | some .newdate => some (.fixed 3 (fun bs => cstr (newdateText (leNat bs))))
  | some .year => some (.fixed 1 (fun bs => yearText (leNat bs)))
  | some .enum =>
    if metadata % 256 = 1 then some (.fixed 1 (fun bs => decimal (leNat bs)))
    else if metadata % 256 = 2 then some (.fixed 2 (fun bs => decimal (leNat bs)))
    else none
  | some .set => some (.fixed (metadata % 256) (bitText (metadata % 256 * 8)))
  | some .blob =>
    if metadata = 1 ∨ metadata = 2 ∨ metadata = 3 ∨ metadata = 4 then
      some (.blob metadata disp.blobAsHex)
    else none
  | some .varchar | some .varString => some (.chars (if metadata < 256 then 1 else 2))
  | some .string => some (.chars (if length < 256 then 1 else 2))
  | some .json => if metadata = 4 then some .json else none
  | some .geometry => if metadata = 4 then some (.blob 4 disp.geometryAsHex) else none
  | none => none

def Column.layout (c : Column) : Option Layout :=
  let (type, length) := realType c.type.toNat c.metadata.toNat
  layoutOf lib isUnsigned disp type length c.metadata.toNat

end

theorem Column.layout_prefixWidth {lib : Library} {isUnsigned : Bool} {disp : DisplayBlobs}
    {l : Layout} (c : Column) (h : c.layout lib isUnsigned disp = some l) : l.prefixWidth ≤ 4 := by
  revert h
  unfold Column.layout layoutOf
  generalize realType c.type.toNat c.metadata.toNat = t
  obtain ⟨type, length⟩ := t
  simp only
  cases FieldType.ofCode type with
  | none => simp
  | some t => cases t <;> grind [Layout.prefixWidth]

/-- `calc_field_size` gives the width of the field at the cursor, when that is a
number of 32 bits. -/
def Library.FieldSize (lib : Library) (col : Column) : Prop :=
  ∀ isUnsigned disp l, col.layout lib isUnsigned disp = some l →
    lib.calcFieldSizeReads col.type.toNat col.metadata.toNat = l.prefixWidth ∧
    ∀ pre, pre.length = l.prefixWidth → l.size pre < 2 ^ 32 →
      lib.calcFieldSize col.type.toNat col.metadata.toNat pre = l.size pre

/-- Every width is given as it is, also one that needs more than 32 bits. -/
def Library.ExactSize (lib : Library) (col : Column) : Prop :=
  ∀ isUnsigned disp l, col.layout lib isUnsigned disp = some l →
    lib.calcFieldSizeReads col.type.toNat col.metadata.toNat = l.prefixWidth ∧
    ∀ pre, pre.length = l.prefixWidth →
      lib.calcFieldSize col.type.toNat col.metadata.toNat pre = l.size pre

theorem Library.ExactSize.fieldSize {lib : Library} {col : Column} (h : lib.ExactSize col) :
    lib.FieldSize col := fun isUnsigned disp l hl =>
  ⟨(h isUnsigned disp l hl).1, fun pre hpre _ => (h isUnsigned disp l hl).2 pre hpre⟩

-- ---------------------------------------------------------------------------
-- Rendered cells
-- ---------------------------------------------------------------------------

/-- What a column in the image does to its cell. -/
inductive Rendered where
  | null
  | hidden (len : Int) (isHex : Bool)
  | text (bs : List UInt8) (len : Int) (isHex : Option Bool)
  deriving DecidableEq, Repr

def Rendered.ofText (bs : List UInt8) (isHex : Option Bool) : Rendered :=
  .text bs (int32 bs.length) isHex

/-- The cell of a column that is in the image, from the cell before. -/
def Rendered.Applied (r : Rendered) (old new : ReplLogXValue) : Prop :=
  match r with
  | .null => new = old
  | .hidden len isHex => new = { val := .null, len, isHex }
  | .text bs len isHex => ∃ id tail,
      new = { val := .block id (bs ++ 0 :: tail), len, isHex := isHex.getD old.isHex }

/-- A cell of the final row set. `none` is a column that is not in the image. -/
def ReplLogXValue.Shows (c : ReplLogXValue) : Option Rendered → Prop
  | none => c = { val := .null, len := -1, isHex := false }
  | some .null => c = { val := .null, len := 0, isHex := false }
  | some (.hidden len isHex) => c = { val := .null, len, isHex }
  | some (.text bs len isHex) => ∃ id tail,
      c = { val := .block id (bs ++ 0 :: tail), len, isHex := isHex.getD false }

theorem Rendered.Applied.shows {r : Rendered} {new : ReplLogXValue}
    (h : r.Applied .zero new) : new.Shows (some r) := by
  cases r with
  | null => exact h
  | hidden len isHex => exact h
  | text bs len isHex => exact h

/-- The text of a field; `doc` is the text of the document in a JSON field. -/
def Layout.render (disp : DisplayBlobs) (doc : List UInt8) : Layout → List UInt8 → Rendered
  | .fixed _ text, bs => .ofText (text bs) none
  | .chars width, bs =>
    .text ((bs.drop width).filter (· ≠ 0)) (int32 (bs.length - width)) none
  | .blob width asHex, bs =>
    if !disp.blobsDisplay then .hidden (-1) false
    else if asHex then .ofText (hexText (bs.drop width)) (some true)
    else .text (bs.drop width) (int32 (bs.length - width)) (some false)
  | .json, _ => if !disp.blobsDisplay then .hidden (-1) false else .ofText (cstr doc) (some false)

def nullRendered (disp : DisplayBlobs) (type metadata : Nat) : Option Rendered :=
  let hidden := fun isHex => Rendered.hidden (if disp.blobsDisplay then 0 else -1) isHex
  match FieldType.ofCode type with
  | some .enum => if metadata % 256 = 1 ∨ metadata % 256 = 2 then some .null else none
  | some .blob => some (hidden disp.blobAsHex)
  | some .json => if metadata = 4 then some (hidden false) else none
  | some .geometry => if metadata = 4 then some (hidden disp.geometryAsHex) else none
  | some _ => some .null
  | none => none

def Column.nullRendered (disp : DisplayBlobs) (c : Column) : Option Rendered :=
  RplListener.nullRendered disp (realType c.type.toNat c.metadata.toNat).1 c.metadata.toNat

theorem Column.nullRendered_isSome {lib : Library} {isUnsigned : Bool} {disp : DisplayBlobs}
    {c : Column} (h : (c.layout lib isUnsigned disp).isSome) : (c.nullRendered disp).isSome := by
  revert h
  unfold Column.layout Column.nullRendered layoutOf RplListener.nullRendered
  generalize realType c.type.toNat c.metadata.toNat = t
  obtain ⟨type, length⟩ := t
  simp only
  cases FieldType.ofCode type with
  | none => simp
  | some t => cases t <;> grind

-- ---------------------------------------------------------------------------
-- JSON documents
-- ---------------------------------------------------------------------------

section

variable (lib : Library)

/-- The bytes are the length-encoded integer `v`, whatever follows them. -/
def EncodesInt (bs : List UInt8) (v : Nat) : Prop :=
  0 < bs.length ∧ ∀ rest maxLength, bs.length ≤ maxLength → maxLength ≤ bs.length + rest.length →
    lib.netFieldLengthChecked (bs ++ rest) maxLength = .value v bs.length

/-- The bytes are a binary document with this text, whatever follows them. -/
def ParsesTo (payload text : List UInt8) : Prop :=
  ∀ rest, lib.parseBinary (payload ++ rest) payload.length = .value text

def JsonDiffOperation.byte : JsonDiffOperation → UInt8
  | .replace => 0
  | .insert => 1
  | .remove => 2

/-- One diff of a partial update. A `remove` has no value. -/
structure JsonDiff where
  operation : JsonDiffOperation
  pathPrefix : List UInt8
  path : List UInt8
  valuePrefix : List UInt8
  value : List UInt8
  valueText : List UInt8

namespace JsonDiff

variable (d : JsonDiff)

def valueBytes : List UInt8 := if d.operation = .remove then [] else d.valuePrefix ++ d.value

def bytes : List UInt8 := d.operation.byte :: (d.pathPrefix ++ d.path ++ d.valueBytes)

def text : List UInt8 :=
  d.operation.text ++ d.path ++ ascii ":" ++ if d.operation = .remove then [] else d.valueText

structure Valid : Prop where
  path : EncodesInt lib d.pathPrefix d.path.length
  value : d.operation ≠ .remove →
    EncodesInt lib d.valuePrefix d.value.length ∧ ParsesTo lib d.value d.valueText

end JsonDiff

def diffsBytes (ds : List JsonDiff) : List UInt8 := ds.flatMap JsonDiff.bytes

def diffsText (ds : List JsonDiff) : List UInt8 := [10].intercalate (ds.map JsonDiff.text)

/-- The payload of a JSON field is the document with this text, or the diffs. -/
def JsonPayload (isPartial : Bool) (payload doc : List UInt8) : Prop :=
  if isPartial then
    ∃ ds : List JsonDiff, (∀ d ∈ ds, d.Valid lib) ∧ payload = diffsBytes ds ∧ doc = diffsText ds
  else ParsesTo lib payload doc

end

-- ---------------------------------------------------------------------------
-- Images
-- ---------------------------------------------------------------------------

/-- What an image has for one column; `doc` is the text of a JSON field. -/
inductive Slot where
  | absent
  | null
  | value (bs doc : List UInt8)
  deriving DecidableEq, Repr

def Slot.bytes : Slot → List UInt8
  | .value bs _ => bs
  | _ => []

structure Image where
  options : List UInt8
  valueOptions : Nat
  partialBits : List UInt8
  nullBits : List UInt8
  slots : List Slot
  deriving DecidableEq, Repr

def Image.bytes (img : Image) : List UInt8 :=
  img.options ++ img.partialBits ++ img.nullBits ++ img.slots.flatMap Slot.bytes

structure ImageFormat where
  columns : List Column
  colInfo : List ColInfo
  disp : DisplayBlobs
  bitmap : List Bool
  /-- An after image of a partial update. -/
  partialAfter : Bool

def unsignedAt (infos : List ColInfo) (i : Nat) : Bool := (infos[i]?.map ColInfo.isUnsigned).getD false

/-- A field has the width its own length prefix gives. -/
def Layout.Complete (l : Layout) (bs : List UInt8) : Prop :=
  l.prefixWidth ≤ bs.length ∧ bs.length = l.size (bs.take l.prefixWidth)

/-- How far the cursor moves over a field with this prefix. The widths of blobs are
computed in 32 bits. -/
def Layout.advance : Layout → List UInt8 → Nat
  | .blob width asHex, lengthPrefix => uint32 ((Layout.blob width asHex).size lengthPrefix)
  | .json, lengthPrefix => uint32 (Layout.json.size lengthPrefix)
  | l, lengthPrefix => l.size lengthPrefix

/-- The cursor moves over the bytes, with `rest` behind them. A prefix that says
too much may reach into the rest. -/
def Layout.Passed (l : Layout) (bs rest : List UInt8) : Prop :=
  l.prefixWidth ≤ (bs ++ rest).length ∧ bs.length = l.advance ((bs ++ rest).take l.prefixWidth)

theorem Layout.advance_of_lt {l : Layout} {lengthPrefix : List UInt8}
    (h : l.size lengthPrefix < 2 ^ 32) : l.advance lengthPrefix = l.size lengthPrefix := by
  cases l with
  | blob | json => exact uint32_of_lt h
  | fixed | chars => rfl

/-- What is asked of the field `bs` of a column, which has `rest` behind it; `doc` is
the text of its JSON document. -/
abbrev FieldRule := Option Layout → (isPartial : Bool) → (bs doc rest : List UInt8) → Prop

def FieldFits (docs : (isPartial : Bool) → (payload doc : List UInt8) → Prop) : FieldRule
  | none, _, _, _, _ => False
  | some .json, isPartial, bs, doc, _ => Layout.json.Complete bs ∧ docs isPartial (bs.drop 4) doc
  | some l, _, bs, _, _ => l.Complete bs

def FieldPassed : FieldRule
  | none, _, _, _, _ => False
  | some l, _, bs, _, rest => l.Passed bs rest

theorem FieldFits.complete {docs : (isPartial : Bool) → (payload doc : List UInt8) → Prop} {l : Layout}
    {isPartial : Bool} {bs doc rest : List UInt8}
    (h : FieldFits docs (some l) isPartial bs doc rest) : l.Complete bs := by
  cases l with
  | json => exact h.1
  | _ => exact h

theorem FieldFits.congr_rest {docs : (isPartial : Bool) → (payload doc : List UInt8) → Prop}
    {layout : Option Layout} {isPartial : Bool} {bs doc rest rest' : List UInt8}
    (h : FieldFits docs layout isPartial bs doc rest) : FieldFits docs layout isPartial bs doc rest' := by
  cases layout with
  | none => exact h
  | some l => cases l <;> exact h

section

variable (lib : Library) (rule : FieldRule)

/-- The slots are those of the columns from `i` on, with `rest` behind them: one
NULL bit for each column in the bitmap, one partial bit for each JSON column of
the table. -/
def SlotsFit (f : ImageFormat) (img : Image) :
    List Column → (i nullBit partialBit : Nat) → List Slot → (rest : List UInt8) → Prop
  | [], _, _, _, slots, _ => slots = []
  | _ :: _, _, _, _, [], _ => False
  | col :: cols, i, nullBit, partialBit, slot :: slots, rest =>
    let readsPartial := partialJsonUpdates img.valueOptions && col.isJson
    let isPartial := readsPartial && bit img.partialBits partialBit
    let partialBit := if readsPartial then partialBit + 1 else partialBit
    if bitmapIsSet f.bitmap i then
      (match slot with
        | .absent => False
        | .null => bit img.nullBits nullBit = true
        | .value bs doc => bit img.nullBits nullBit = false ∧
            rule (col.layout lib (unsignedAt f.colInfo i) f.disp) isPartial bs doc
              (slots.flatMap Slot.bytes ++ rest)) ∧
      SlotsFit f img cols (i + 1) (nullBit + 1) partialBit slots rest
    else slot = .absent ∧ SlotsFit f img cols (i + 1) nullBit partialBit slots rest

/-- An image with fields that keep the rule, and `rest` behind it. -/
structure Image.Fits (f : ImageFormat) (img : Image) (rest : List UInt8) : Prop where
  options : if f.partialAfter then EncodesInt lib img.options img.valueOptions
    else img.options = [] ∧ img.valueOptions = 0
  partialBits : img.partialBits.length =
    if partialJsonUpdates img.valueOptions then (f.columns.countP Column.isJson + 7) / 8 else 0
  nullBits : img.nullBits.length = (bitmapBitsSet f.bitmap + 7) / 8
  slots : SlotsFit lib rule f img f.columns 0 0 0 img.slots rest

end

/-- An image as the server writes it. -/
abbrev Image.Complete (lib : Library)
    (docs : (isPartial : Bool) → (payload doc : List UInt8) → Prop) (f : ImageFormat) (img : Image) :
    Prop := img.Fits lib (FieldFits docs) f []

section

variable (lib : Library) (f : ImageFormat)

def Slot.rendered (col : Column) (i : Nat) : Slot → Option Rendered
  | .absent => none
  | .null => col.nullRendered f.disp
  | .value bs doc =>
    (col.layout lib (unsignedAt f.colInfo i) f.disp).map fun l => l.render f.disp doc bs

def renderedSlots : List Column → Nat → List Slot → List (Option Rendered)
  | col :: cols, i, slot :: slots => slot.rendered lib f col i :: renderedSlots cols (i + 1) slots
  | _, _, _ => []

def Image.rendered (img : Image) : List (Option Rendered) := renderedSlots lib f f.columns 0 img.slots

variable {lib f}

theorem renderedSlots_length {cols : List Column} {i : Nat} {slots : List Slot}
    (h : slots.length = cols.length) : (renderedSlots lib f cols i slots).length = cols.length := by
  induction cols generalizing i slots with
  | nil => rfl
  | cons col cols ih =>
    cases slots with
    | nil => cases h
    | cons slot slots => exact congrArg (· + 1) (ih (Nat.succ.inj h))

theorem renderedSlots_getElem? {cols : List Column} {i k : Nat} {slots : List Slot} {col : Column}
    {slot : Slot} (hcol : cols[k]? = some col) (hslot : slots[k]? = some slot) :
    (renderedSlots lib f cols i slots)[k]? = some (slot.rendered lib f col (i + k)) := by
  induction cols generalizing i k slots with
  | nil => cases hcol
  | cons c cols ih =>
    cases slots with
    | nil => cases hslot
    | cons d slots =>
      cases k with
      | zero => cases hcol; cases hslot; rfl
      | succ k =>
        have h := ih (i := i + 1) hcol hslot
        rwa [Nat.succ_add_eq_add_succ] at h

theorem SlotsFit.length {rule : FieldRule} {img : Image} {cols : List Column}
    {i nullBit partialBit : Nat} {slots : List Slot} {rest : List UInt8}
    (h : SlotsFit lib rule f img cols i nullBit partialBit slots rest) :
    slots.length = cols.length := by
  induction cols generalizing i nullBit partialBit slots with
  | nil => exact congrArg List.length h
  | cons col cols ih =>
    cases slots with
    | nil => exact h.elim
    | cons slot slots =>
      simp only [SlotsFit] at h
      split at h
      · exact congrArg (· + 1) (ih h.2)
      · exact congrArg (· + 1) (ih h.2)

theorem SlotsFit.congr_rest {docs : (isPartial : Bool) → (payload doc : List UInt8) → Prop}
    {img : Image} {cols : List Column} {i nullBit partialBit : Nat} {slots : List Slot}
    {rest rest' : List UInt8}
    (h : SlotsFit lib (FieldFits docs) f img cols i nullBit partialBit slots rest) :
    SlotsFit lib (FieldFits docs) f img cols i nullBit partialBit slots rest' := by
  induction cols generalizing i nullBit partialBit slots with
  | nil => exact h
  | cons col cols ih =>
    cases slots with
    | nil => exact h.elim
    | cons slot slots =>
      simp only [SlotsFit] at h ⊢
      by_cases hset : bitmapIsSet f.bitmap i = true
      · rw [if_pos hset] at h ⊢
        refine ⟨?_, ih h.2⟩
        cases slot with
        | value bs doc => exact ⟨h.1.1, h.1.2.congr_rest⟩
        | absent | null => exact h.1
      · rw [if_neg hset] at h ⊢
        exact ⟨h.1, ih h.2⟩

theorem Image.Fits.complete {docs : (isPartial : Bool) → (payload doc : List UInt8) → Prop}
    {img : Image} {rest : List UInt8} (h : img.Fits lib (FieldFits docs) f rest) :
    img.Complete lib docs f := ⟨h.options, h.partialBits, h.nullBits, h.slots.congr_rest⟩

theorem Image.Fits.rendered_length {rule : FieldRule} {img : Image} {rest : List UInt8}
    (h : img.Fits lib rule f rest) : (img.rendered lib f).length = f.columns.length :=
  renderedSlots_length h.slots.length

end

end RplListener
