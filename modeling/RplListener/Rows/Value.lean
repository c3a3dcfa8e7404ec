import RplListener.Rows.Types

/-!
# One field value

`logEventGetValue2` reads the field at a pointer, stores its text in the cell
and returns how many bytes the field took. A pointer is an offset in the event
buffer, `none` the null pointer of a NULL value.
-/

namespace RplListener

open Bytes Refine

structure CellState where
  heap : Heap
  cell : ReplLogXValue
  deriving DecidableEq, Repr

abbrev CellM := EStateM Halt CellState

def CellState.heapPart : Part CellState Heap :=
  ⟨CellState.heap, fun h s => { s with heap := h }, fun _ _ => rfl, fun _ _ _ => rfl⟩

-- ---------------------------------------------------------------------------
-- Pointers into the event
-- ---------------------------------------------------------------------------

variable (lib : Library) (os : Allocator) (buf : List UInt8)

def readBytes (p n : Nat) : CellM (List UInt8) :=
  match slice? buf p n with
  | some bs => pure bs
  | none => throw .overread

def readUint (p n : Nat) : CellM Nat := do
  pure (leNat (← readBytes buf p n))

/-- `net_field_length_checked(&p, &length_x, ...)`: the number and the bytes
taken. -/
def netFieldLengthChecked (p maxLength : Nat) (desc : String) : CellM (Nat × Nat) :=
  match lib.netFieldLengthChecked (buf.drop p) maxLength with
  | .failed => throw (.error desc)
  | .outside => throw .overread
  | .value v taken => pure (v, taken)

def parseBinary (p length : Nat) (desc : String) : CellM (List UInt8) :=
  match lib.parseBinary (buf.drop p) length with
  | .error => throw (.error desc)
  | .throws what => throw (.error what)
  | .outside => throw .overread
  | .value text => pure text

-- ---------------------------------------------------------------------------
-- The cell's own block
-- ---------------------------------------------------------------------------

def setVal (p : Ptr (List UInt8)) : CellM Unit :=
  modify fun s => { s with cell := { s.cell with val := p } }

def setLen (n : Int) : CellM Unit :=
  modify fun s => { s with cell := { s.cell with len := n } }

def setHex (b : Bool) : CellM Unit :=
  modify fun s => { s with cell := { s.cell with isHex := b } }

def mallocVal (n : Nat) (desc : String) : CellM Unit := do
  let p ← zoom CellState.heapPart (Heap.malloc os n)
  setVal p
  if p.isNull then throw (.error desc)

def writeVal (write : List UInt8 → Option (List UInt8)) : CellM Unit := do
  match (← get).cell.val with
  | .block id bs =>
    match write bs with
    | some bs' => setVal (.block id bs')
    | none => throw .outOfBlock
  | _ => throw .outOfBlock

def snprintfVal (off n : Nat) (text : List UInt8) : CellM Unit :=
  writeVal fun bs => snprintf? bs off n text

def memsetVal (n : Nat) : CellM Unit :=
  writeVal fun bs => if n ≤ bs.length then some (List.replicate n 0 ++ bs.drop n) else none

def memcpyVal (text : List UInt8) : CellM Unit :=
  writeVal fun bs => if text.length ≤ bs.length then some (text ++ bs.drop text.length) else none

def strlenVal : CellM Nat := do
  match (← get).cell.val with
  | .block _ bs =>
    match strlen? bs with
    | some n => pure n
    | none => throw .outOfBlock
  | _ => throw .outOfBlock

def setLenStrlen : CellM Unit := do
  setLen (int32 (← strlenVal))

/-- `snprintf(&val[strlen(val)], n, ...)` -/
def appendVal (n : Nat) (text : List UInt8) : CellM Unit := do
  snprintfVal (← strlenVal) n text

/-- A loop that appends one piece for each index from `i` on. -/
def appendLoop (n : Nat) (piece : Nat → CellM (List UInt8)) : (i count : Nat) → CellM Unit
  | _, 0 => pure ()
  | i, count + 1 => do
    appendVal n (← piece i)
    appendLoop n piece (i + 1) count

-- ---------------------------------------------------------------------------
-- Printers
-- ---------------------------------------------------------------------------

def binDigit (b : Bool) : List UInt8 := if b then [49] else [48]

/-- `(ptr[bitnum / 8] >> (7 - bitnum % 8)) & 0x01` -/
def bitAt (byte : UInt8) (bitnum : Nat) : Bool := byte.toNat.testBit (7 - bitnum % 8)

def myBWriteBit2 (ptr nbits : Nat) : CellM Unit := do
  let nbits8 := (nbits + 7) / 8 * 8
  let skipBits := nbits8 - nbits
  snprintfVal 0 2 (ascii "b")
  appendLoop 2 (fun bitnum => do
    let byte ← readBytes buf (ptr + bitnum / 8) 1
    pure (binDigit (bitAt (byte.headD 0) bitnum))) skipBits nbits

/-- The two halves differ in the width of the length only. -/
def printChars (ptr width : Nat) : CellM Nat := do
  let length ← readUint buf ptr width
  appendLoop 2 (fun i => readBytes buf (ptr + width + i) 1) 0 length
  pure (length + width)

def myBPrintWithLength2 (ptr length : Nat) : CellM Nat := do
  snprintfVal 0 2 []
  if length < 256 then printChars buf ptr 1 else printChars buf ptr 2

def hexDigit (n : Nat) : UInt8 := if n < 10 then UInt8.ofNat (48 + n) else UInt8.ofNat (87 + n)

def hexByte (b : UInt8) : List UInt8 := [hexDigit (b.toNat / 16), hexDigit (b.toNat % 16)]

def sprintAsHex (str len : Nat) : CellM Unit := do
  snprintfVal 0 3 (ascii "0x")
  appendLoop 3 (fun i => do pure (hexByte ((← readBytes buf (str + i) 1).headD 0))) 0 len

-- ---------------------------------------------------------------------------
-- Families of branches
-- ---------------------------------------------------------------------------

def noMem (name : String) : String := "can not allocate mem for value MYSQL_TYPE_" ++ name

/-- `TINY`, `SHORT`, `INT24`, `LONG` and `LONGLONG`: `width` bytes, read as the
column's signedness says, into a block of `size` bytes. -/
def integerValue (ptr width size : Nat) (isUnsigned : Bool) (name : String) : CellM Nat := do
  mallocVal os size (noMem name)
  let bs ← readBytes buf ptr width
  snprintfVal 0 size (if isUnsigned then decimal (leNat bs) else decimalInt (leInt bs))
  setLenStrlen
  pure width

/-- Types printed by one format into a block of fixed size. -/
def formattedValue (ptr width size : Nat) (text : Nat → List UInt8) (name : String) :
    CellM Nat := do
  let v ← readUint buf ptr width
  mallocVal os size (noMem name)
  snprintfVal 0 size (text v)
  setLenStrlen
  pure width

/-- Types whose text is made in a local buffer and copied to a block of its
size. -/
def copiedValue (ptr width : Nat) (text : List UInt8 → List UInt8) (name : String) :
    CellM Nat := do
  let buff := cstr (text (← readBytes buf ptr width))
  mallocVal os (buff.length + 1) (noMem name)
  snprintfVal 0 (buff.length + 1) buff
  setLenStrlen
  pure width

def bitsValue (ptr nbits : Nat) (name : String) : CellM Unit := do
  mallocVal os (nbits + 4) (noMem name)
  myBWriteBit2 buf ptr nbits
  setLenStrlen

def stringValue (ptr length : Nat) (name : String) : CellM Nat := do
  let realLen ← readUint buf ptr (if length < 256 then 1 else 2)
  mallocVal os (realLen + 16) (noMem name)
  memsetVal (realLen + 16)
  let r ← myBPrintWithLength2 buf ptr length
  setLen (int32 realLen)
  pure r

/-- A NULL of the types the display settings hide. -/
def nullBlob (disp : DisplayBlobs) (isHex : Bool) : CellM Nat := do
  setLen (if disp.blobsDisplay then 0 else -1)
  setVal .null
  setHex isHex
  pure 0

def hiddenBlob : CellM Unit := do
  setLen (-1)
  setVal .null
  setHex false

/-- `BLOB` and `GEOMETRY` past their length prefix. The sizes are computed in
32 bits. -/
def displayBlob (ptr length : Nat) (disp : DisplayBlobs) (asHex : Bool) (name : String) :
    CellM Unit := do
  if !disp.blobsDisplay then hiddenBlob
  else if !asHex then
    mallocVal os (uint32 (length + 16)) (noMem name)
    memsetVal (uint32 (length + 16))
    memcpyVal (← readBytes buf ptr length)
    setLen (int32 length)
    setHex false
  else
    mallocVal os (uint32 (length * 2 + 16)) (noMem name)
    sprintAsHex buf ptr length
    setLenStrlen
    setHex true

def jsonText (text : List UInt8) (desc : String) : CellM Unit := do
  let str := cstr text
  mallocVal os (str.length + 16) desc
  memsetVal (str.length + 16)
  snprintfVal 0 (str.length + 1) str
  setLenStrlen
  setHex false

-- ---------------------------------------------------------------------------
-- Partial JSON
-- ---------------------------------------------------------------------------

inductive JsonDiffOperation where
  | replace | insert | remove
  deriving DecidableEq, Repr

def JsonDiffOperation.ofByte (b : UInt8) : Option JsonDiffOperation :=
  match b.toNat with
  | 0 => some .replace
  | 1 => some .insert
  | 2 => some .remove
  | _ => none

def JsonDiffOperation.text : JsonDiffOperation → List UInt8
  | .replace => ascii "REPLACE"
  | .insert => ascii "INSERT"
  | .remove => ascii "REMOVE"

def appendBuf (acc text : List UInt8) : CellM (List UInt8) := do
  if ← zoom CellState.heapPart (Heap.attempt os) then pure (acc ++ text)
  else throw (.error "Invalid PARTIAL_JSON string append!!!")

def endDiff (lengthX : Nat) (acc : List UInt8) : CellM (List UInt8) :=
  if lengthX ≠ 0 then appendBuf os acc (ascii "\n") else pure acc

/-- `length_x - n` in 64 bits -/
def sub64 (lengthX n : Nat) : Nat := sizeT ((lengthX : Int) - n)

/-- The loop over the diffs at `p`, with `length_x` bytes to go. Every turn
reads a byte at `p` and moves past it, so a loop that has made as many turns as
the event has bytes reads outside the event. -/
def diffLoop : (fuel p lengthX : Nat) → List UInt8 → CellM (List UInt8)
  | 0, _, lengthX, acc => if lengthX = 0 then pure acc else throw .overread
  | fuel + 1, p, lengthX, acc => do
    if lengthX = 0 then pure acc
    else
      let byte ← readBytes buf p 1
      match JsonDiffOperation.ofByte (byte.headD 0) with
      | none => throw (.error "Invalid PARTIAL_JSON operation type!!!")
      | some operation =>
        let acc ← appendBuf os acc operation.text
        let p := p + 1
        let lengthX := sub64 lengthX 1
        let (pathLength, taken) ←
          netFieldLengthChecked lib buf p lengthX "Invalid PARTIAL_JSON field length!!!"
        let p := p + taken
        let lengthX := sub64 lengthX taken
        let acc ← appendBuf os acc []
        let acc := acc ++ (← readBytes buf p pathLength)
        let p := p + pathLength
        let lengthX := sub64 lengthX pathLength
        let acc ← appendBuf os acc (ascii ":")
        if operation ≠ .remove then
          let (valueLength, taken) ←
            netFieldLengthChecked lib buf p lengthX "Invalid PARTIAL_JSON field length!!!"
          let p := p + taken
          let lengthX := sub64 lengthX taken
          let text ← parseBinary lib buf p valueLength "Invalid PARTIAL_JSON JSON part!!!"
          let p := p + valueLength
          let lengthX := sub64 lengthX valueLength
          let acc ← appendBuf os acc text
          diffLoop fuel p lengthX (← endDiff os lengthX acc)
        else diffLoop fuel p lengthX (← endDiff os lengthX acc)

def partialJson (ptr length : Nat) : CellM Unit := do
  let text ← diffLoop lib os buf buf.length ptr length []
  jsonText os text "can not allocate mem for value MYSQL_TYPE_JSON PARTIAL_JSON UPDATE"

def wholeJson (ptr length : Nat) : CellM Unit := do
  let text ← parseBinary lib buf ptr length "Invalid JSON"
  jsonText os text (noMem "JSON")

def displayJson (ptr length : Nat) (isPartial : Bool) (disp : DisplayBlobs) : CellM Unit :=
  if !disp.blobsDisplay then hiddenBlob
  else if isPartial then partialJson lib os buf ptr length
  else wholeJson lib os buf ptr length

-- ---------------------------------------------------------------------------
-- Formats
-- ---------------------------------------------------------------------------

def datetimeText (i64 : Nat) : List UInt8 :=
  let d := i64 / 1000000
  let t := i64 % 1000000
  decimalPad 4 (d / 10000) ++ ascii "-" ++ decimalPad 2 (d % 10000 / 100) ++ ascii "-" ++
    decimalPad 2 (d % 100) ++ ascii " " ++ decimalPad 2 (t / 10000) ++ ascii ":" ++
    decimalPad 2 (t % 10000 / 100) ++ ascii ":" ++ decimalPad 2 (t % 100)

def timeText (i32 : Nat) : List UInt8 :=
  decimalPad 2 (i32 / 10000) ++ ascii ":" ++ decimalPad 2 (i32 % 10000 / 100) ++ ascii ":" ++
    decimalPad 2 (i32 % 100)

/-- The ten characters written backwards from the end of `buf`. -/
def newdateText (tmp : Nat) : List UInt8 :=
  let day := tmp % 32
  let month := tmp / 32 % 16
  let year := tmp / 512
  [48 + year / 1000, 48 + year / 100 % 10, 48 + year / 10 % 10, 48 + year % 10, 45,
    48 + month / 10, 48 + month % 10, 45, 48 + day / 10, 48 + day % 10].map UInt8.ofNat

def yearText (i32 : Nat) : List UInt8 := decimalPad 4 (i32 + 1900)

-- ---------------------------------------------------------------------------
-- The function
-- ---------------------------------------------------------------------------

/-- The real type and length of a `STRING`: a long `CHAR()` keeps two bits of
its length in the type byte. -/
def realType (type metadata : Nat) : Nat × Nat :=
  if FieldType.ofCode type = some .string then
    if metadata ≥ 256 then
      let byte0 := metadata / 256
      let byte1 := metadata % 256
      if byte0 &&& 0x30 ≠ 0x30 then
        (byte0 ||| 0x30, byte1 ||| (((byte0 &&& 0x30) ^^^ 0x30) <<< 4))
      else (type, metadata % 256)
    else (type, metadata)
  else (type, 0)

def bitCount (metadata : Nat) : Nat := metadata / 256 * 8 + metadata % 256

def hex4 (n : Nat) : String :=
  String.ofList ([n / 4096, n / 256 % 16, n / 16 % 16, n % 16].map Nat.digitChar)

/-- The `switch` of `log_event_get_value_2`, after the real type is known. -/
def valueOfType (type length metadata : Nat) (ptr : Option Nat)
    (isPartial isUnsigned : Bool) (disp : DisplayBlobs) : CellM Nat := do
  match FieldType.ofCode type, ptr with
  | some .long, some ptr => integerValue os buf ptr 4 16 isUnsigned "LONG"
  | some .tiny, some ptr => integerValue os buf ptr 1 16 isUnsigned "TINY"
  | some .short, some ptr => integerValue os buf ptr 2 16 isUnsigned "SHORT"
  | some .int24, some ptr => integerValue os buf ptr 3 16 isUnsigned "INT24"
  | some .longlong, some ptr => integerValue os buf ptr 8 32 isUnsigned "LONGLONG"
  | some .newdecimal, some ptr =>
    let precision := metadata / 256
    let decimals := metadata % 256
    copiedValue os buf ptr (lib.myDecimalGetBinarySize precision decimals)
      (lib.decimal2string precision decimals) "NEWDECIMAL"
  | some .float, some ptr => copiedValue os buf ptr 4 lib.floatToString "FLOAT"
  | some .double, some ptr => copiedValue os buf ptr 8 lib.doubleToString "DOUBLE"
  | some .bit, some ptr =>
    bitsValue os buf ptr (bitCount metadata) "BIT"
    pure ((bitCount metadata + 7) / 8)
  | some .timestamp, some ptr => formattedValue os buf ptr 4 16 decimal "TIMESTAMP"
  | some .timestamp2, some ptr =>
    copiedValue os buf ptr (lib.myTimestampBinaryLength metadata) (lib.myTimevalToStr metadata)
      "TIMESTAMP2"
  | some .datetime, some ptr => formattedValue os buf ptr 8 32 datetimeText "DATETIME"
  | some .datetime2, some ptr =>
    copiedValue os buf ptr (lib.myDatetimeBinaryLength metadata) (lib.myDatetimeToStr metadata)
      "DATETIME2"
  | some .time, some ptr => formattedValue os buf ptr 3 16 timeText "TIME"
  | some .time2, some ptr =>
    copiedValue os buf ptr (lib.myTimeBinaryLength metadata) (lib.myTimeToStr metadata) "TIME2"
  | some .newdate, some ptr =>
    copiedValue os buf ptr 3 (fun bs => newdateText (leNat bs)) "NEWDATE"
  | some .year, some ptr => formattedValue os buf ptr 1 16 yearText "YEAR"
  | some .enum, ptr =>
    if metadata % 256 = 1 then
      match ptr with
      | some ptr => formattedValue os buf ptr 1 16 decimal "ENUM"
      | none => pure 0
    else if metadata % 256 = 2 then
      match ptr with
      | some ptr => formattedValue os buf ptr 2 16 decimal "ENUM"
      | none => pure 0
    else throw (.error s!"!! Unknown ENUM packlen={metadata % 256}")
  | some .set, some ptr =>
    bitsValue os buf ptr (metadata % 256 * 8) "SET"
    pure (metadata % 256)
  | some .blob, none => nullBlob disp disp.blobAsHex
  | some .blob, some ptr =>
    if metadata = 1 ∨ metadata = 2 ∨ metadata = 3 ∨ metadata = 4 then
      let length ← readUint buf ptr metadata
      let blobRetval := uint32 (length + metadata)
      displayBlob os buf (ptr + metadata) length disp disp.blobAsHex "BLOB"
      pure blobRetval
    else throw (.error s!"!!Unknown BLOB packlen={length}")
  | some .varchar, some ptr | some .varString, some ptr =>
    stringValue os buf ptr metadata "VARCHAR-MYSQL_TYPE_VAR_STRING"
  | some .string, some ptr => stringValue os buf ptr length "STRING"
  | some .json, ptr =>
    if metadata ≠ 4 then throw (.error s!"!!Unknown JSON len of len={metadata}")
    else
      match ptr with
      | none => nullBlob disp false
      | some ptr =>
        let length ← readUint buf ptr 4
        displayJson lib os buf (ptr + 4) length isPartial disp
        pure (uint32 (length + metadata))
  | some .geometry, ptr =>
    if metadata ≠ 4 then throw (.error s!"!!Unknown GEOMETRY len of len={metadata}")
    else
      match ptr with
      | none => nullBlob disp disp.geometryAsHex
      | some ptr =>
        let length ← readUint buf ptr 4
        displayBlob os buf (ptr + 4) length disp disp.geometryAsHex "GEOMETRY"
        pure (uint32 (length + metadata))
  | none, _ =>
    throw (.error
      s!"!! Don't know how to handle column type={type} meta={metadata} ({hex4 metadata})")
  | some _, none => pure 0

def logEventGetValue2 (ptr : Option Nat) (type metadata : Nat) (isPartial : Bool)
    (colInfo : ColInfo) (disp : DisplayBlobs) : CellM Nat :=
  let (type, length) := realType type metadata
  valueOfType lib os buf type length metadata ptr isPartial colInfo.isUnsigned disp

end RplListener
