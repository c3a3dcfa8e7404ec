import RplListener.Rows.Image

/-!
# The decoder without memory

`scanRows` walks the bytes as `getRows` does, but keeps no heap and no cells:
it gives the rendering of every cell, or says how the walk ends instead. The
decoder is compared with it, and it is compared with the encoded images.
-/

namespace RplListener

open Bytes

/-- How a walk ends that does not reach the end of the rows. -/
inductive Verdict where
  | rejected
  | overread
  | outOfBlock
  deriving DecidableEq, Repr

abbrev Scan := Except Verdict

variable (lib : Library) (buf : List UInt8)

-- ---------------------------------------------------------------------------
-- Bytes
-- ---------------------------------------------------------------------------

def takeAt (p n : Nat) : Scan (List UInt8) :=
  match slice? buf p n with
  | some bs => .ok bs
  | none => .error .overread

def scanBit (ptr k : Nat) : Scan Bool := do
  let byte ← takeAt buf (ptr + k / 8) 1
  pure (bit byte (k % 8))

def scanInt (p maxLength : Nat) : Scan (Nat × Nat) :=
  match lib.netFieldLengthChecked (buf.drop p) maxLength with
  | .failed => .error .rejected
  | .outside => .error .overread
  | .value v taken => .ok (v, taken)

def scanDoc (p length : Nat) : Scan (List UInt8) :=
  match lib.parseBinary (buf.drop p) length with
  | .error | .throws _ => .error .rejected
  | .outside => .error .overread
  | .value text => .ok text

-- ---------------------------------------------------------------------------
-- One field
-- ---------------------------------------------------------------------------

def scanDiffs : (fuel p lengthX : Nat) → List UInt8 → Scan (List UInt8)
  | 0, _, lengthX, acc => if lengthX = 0 then .ok acc else .error .overread
  | fuel + 1, p, lengthX, acc => do
    if lengthX = 0 then pure acc
    else
      let byte ← takeAt buf p 1
      match JsonDiffOperation.ofByte (byte.headD 0) with
      | none => .error .rejected
      | some operation =>
        let p := p + 1
        let lengthX := sub64 lengthX 1
        let (pathLength, taken) ← scanInt lib buf p lengthX
        let p := p + taken
        let lengthX := sub64 lengthX taken
        let path ← takeAt buf p pathLength
        let p := p + pathLength
        let lengthX := sub64 lengthX pathLength
        let acc := acc ++ operation.text ++ path ++ ascii ":"
        if operation ≠ .remove then
          let (valueLength, taken) ← scanInt lib buf p lengthX
          let p := p + taken
          let lengthX := sub64 lengthX taken
          let text ← scanDoc lib buf p valueLength
          let p := p + valueLength
          let lengthX := sub64 lengthX valueLength
          let acc := acc ++ text
          scanDiffs fuel p lengthX (if lengthX ≠ 0 then acc ++ ascii "\n" else acc)
        else scanDiffs fuel p lengthX (if lengthX ≠ 0 then acc ++ ascii "\n" else acc)

/-- The hex form of the bytes at `p`. Its block is as large as the size in 32 bits:
a block that is too small may be full before the end of the event is reached. -/
def scanHex (p length : Nat) : Scan Rendered :=
  match slice? buf p length with
  | some bs =>
    if length * 2 + 16 < 2 ^ 32 then .ok (.ofText (hexText bs) (some true)) else .error .outOfBlock
  | none =>
    if 2 + 2 * (buf.length - p) < uint32 (length * 2 + 16) then .error .overread
    else .error .outOfBlock

def scanRaw (p length : Nat) : Scan Rendered := do
  let bs ← takeAt buf p length
  if length + 16 < 2 ^ 32 then .ok (.text bs (int32 length) (some false)) else .error .outOfBlock

def scanBlob (disp : DisplayBlobs) (asHex : Bool) (p length : Nat) : Scan Rendered :=
  if !disp.blobsDisplay then .ok (.hidden (-1) false)
  else if asHex then scanHex buf p length
  else scanRaw buf p length

def scanJson (disp : DisplayBlobs) (isPartial : Bool) (p length : Nat) : Scan Rendered :=
  if !disp.blobsDisplay then .ok (.hidden (-1) false)
  else do
    let doc ← if isPartial then scanDiffs lib buf buf.length p length [] else scanDoc lib buf p length
    pure (.ofText (cstr doc) (some false))

def scanContents (disp : DisplayBlobs) (isPartial : Bool) (value : Nat) (lengthPrefix : List UInt8) :
    Layout → Scan Rendered
  | .fixed width text => do
    let bs ← takeAt buf value width
    pure (.ofText (text bs) none)
  | .chars width => do
    let bs ← takeAt buf (value + width) (leNat lengthPrefix)
    pure (.text (bs.filter (· ≠ 0)) (int32 (leNat lengthPrefix)) none)
  | .blob width asHex => scanBlob buf disp asHex (value + width) (leNat lengthPrefix)
  | .json => scanJson lib buf disp isPartial (value + 4) (leNat lengthPrefix)

/-- The field of this layout at `value`, and how far it moves the cursor. -/
def scanField (disp : DisplayBlobs) (isPartial : Bool) (value : Nat) (l : Layout) :
    Scan (Rendered × Nat) := do
  let lengthPrefix ← takeAt buf value l.prefixWidth
  let r ← scanContents lib buf disp isPartial value lengthPrefix l
  pure (r, l.advance lengthPrefix)

-- ---------------------------------------------------------------------------
-- Images and rows
-- ---------------------------------------------------------------------------

def reject {α : Type} : Option α → Scan α
  | some a => .ok a
  | none => .error .rejected

/-- The field at `value`, its width checked against the bytes that are left. -/
def scanValue (a : ImageArgs) (col : Column) (i : Nat) (isPartial : Bool) (value : Nat) :
    Scan (Rendered × Nat) := do
  let type := col.type.toNat
  let metadata := col.metadata.toNat
  let lengthPrefix ← takeAt buf value (lib.calcFieldSizeReads type metadata)
  if sizeT ((buf.length : Int) - value) < lib.calcFieldSize type metadata lengthPrefix then
    .error .rejected
  else
    let l ← reject (col.layout lib (unsignedAt a.colInfo i) a.disp)
    scanField lib buf a.disp isPartial value l

def scanPartialBit (a : ImageArgs) (col : Column) (partialBit : Nat) : Scan Bool :=
  if a.readsPartial col then scanBit buf a.partialPtr partialBit else pure false

def scanColumn (a : ImageArgs) (col : Column) (i nullBit value : Nat) (isPartial : Bool) :
    Scan (Rendered × Nat) := do
  let isNull ← scanBit buf a.nullPtr nullBit
  if isNull then pure (← reject (col.nullRendered a.disp), 0)
  else scanValue lib buf a col i isPartial value

def scanColumns (a : ImageArgs) :
    List Column → (i nullBit partialBit value : Nat) → Scan (List (Option Rendered) × Nat)
  | [], _, _, _, value => .ok ([], value)
  | col :: cols, i, nullBit, partialBit, value => do
    let isPartial ← scanPartialBit buf a col partialBit
    let partialBit := a.nextPartialBit col partialBit
    if !bitmapIsSet a.bitmap i then
      let rest ← scanColumns a cols (i + 1) nullBit partialBit value
      pure (none :: rest.1, rest.2)
    else
      let cell ← scanColumn lib buf a col i nullBit value isPartial
      let rest ← scanColumns a cols (i + 1) (nullBit + 1) partialBit (value + cell.2)
      pure (some cell.1 :: rest.1, rest.2)

def scanOptions (r : RowsArgs) (partialAfter : Bool) (value : Nat) : Scan (Nat × Nat × Nat) := do
  if partialAfter then
    let (valueOptions, taken) ← scanInt lib buf value (sizeT ((buf.length : Int) - value))
    let value := value + taken
    if partialJsonUpdates valueOptions then
      pure (valueOptions, value, value + (r.td.jsonColumnCount + 7) / 8)
    else pure (valueOptions, value, value)
  else pure (0, value, value)

def scanImage (r : RowsArgs) (bitmap : List Bool) (after : Bool) (value : Nat) :
    Scan (List (Option Rendered) × Nat) := do
  let (valueOptions, partialPtr, value) ←
    scanOptions lib buf r (after && r.typeCode == .partialUpdateRows) value
  let a : ImageArgs :=
    { bitmap, valueOptions, partialPtr, nullPtr := value, colInfo := r.colInfo, disp := r.disp }
  scanColumns lib buf a r.td.columns 0 0 0 (value + (bitmapBitsSet bitmap + 7) / 8)

/-- A row of the row set; `after` is for updates. -/
structure Row where
  before : List (Option Rendered)
  after : List (Option Rendered)
  deriving DecidableEq, Repr

/-- The rows from `value` on, and where the walk stops. -/
def scanRows (r : RowsArgs) (update : Bool) (cols colsAi : List Bool) :
    (fuel value : Nat) → Scan (List Row × Nat)
  | 0, value => .ok ([], value)
  | fuel + 1, value => do
    if value < buf.length then
      let absent := List.replicate r.td.size none
      let (before, valueAfter) ← scanImage lib buf r cols false value
      if valueAfter = value then pure ([⟨before, absent⟩], value)
      else if update then
        let (after, valueNext) ← scanImage lib buf r colsAi true valueAfter
        if valueNext = valueAfter then pure ([⟨before, after⟩], valueAfter)
        else
          let (rows, stop) ← scanRows r update cols colsAi fuel valueNext
          pure (⟨before, after⟩ :: rows, stop)
      else
        let (rows, stop) ← scanRows r update cols colsAi fuel valueAfter
        pure (⟨before, absent⟩ :: rows, stop)
    else pure ([], value)

end RplListener
