import RplListener.Rows.Value

/-!
# The rows of an event

`getRows` walks the images of a rows event. The cells of all rows lie in one
flat block, addressed with 32-bit products, and the block grows by one row for
every image that is not an after image.
-/

namespace RplListener

open Bytes Refine

structure RowsState where
  heap : Heap
  set : RowSet
  deriving DecidableEq, Repr

abbrev RowsM := EStateM Halt RowsState

def RowsState.heapPart : Part RowsState Heap :=
  ⟨RowsState.heap, fun h s => { s with heap := h }, fun _ _ => rfl, fun _ _ _ => rfl⟩

def modifySet (f : RowSet → RowSet) : RowsM Unit :=
  modify fun s => { s with set := f s.set }

-- ---------------------------------------------------------------------------
-- Memory for one more row
-- ---------------------------------------------------------------------------

def zeroCells (cells : List ReplLogXValue) (k count : Nat) : Option (List ReplLogXValue) :=
  if k + count ≤ cells.length then
    some (cells.take k ++ List.replicate count .zero ++ cells.drop (k + count))
  else none

/-- `len = -1` in `count` cells, the index computed in 32 bits. -/
def absentCells (k : Nat) : (i count : Nat) → List ReplLogXValue → List ReplLogXValue
  | _, 0, cells => cells
  | i, count + 1, cells =>
    absentCells k (i + 1) count (cells.modify (uint32 (k + i)) fun c => { c with len := -1 })

variable (lib : Library) (os : Allocator)

/-- The flat block of `rows_count` rows with room for one more, which is set to
absent cells. -/
def growCells (cells : List ReplLogXValue) (rowsCount colCount : Nat) :
    Option (List ReplLogXValue) := do
  let grown := cells ++ List.replicate ((rowsCount + 1) * colCount - cells.length) .junk
  let zeroed ← zeroCells grown (uint32 (rowsCount * colCount)) colCount
  pure (absentCells (uint32 (rowsCount * colCount)) 0 colCount zeroed)

def noRowMem : Halt := .error "can not allocate mem for row!!!"

/-- What `realloc` keeps; the first row is allocated afresh. -/
def keptCells (block : Ptr (List ReplLogXValue)) (rowsCount : Nat) : List ReplLogXValue :=
  match block with
  | .block _ cells => if rowsCount = 0 then [] else cells
  | _ => []

/-- `malloc` for the first row and `realloc` for the others. The size is computed
in 64 bits; a request that would wrap comes after one that no system grants. -/
def growBlock (block : Ptr (List ReplLogXValue)) (rowsCount colCount : Nat) :
    RowsM (Ptr (List ReplLogXValue)) := do
  let id ← zoom RowsState.heapPart
    (if rowsCount = 0 then Heap.request os else Heap.realloc os block)
  match id with
  | none => throw noRowMem
  | some id =>
    match growCells (keptCells block rowsCount) rowsCount colCount with
    | some cells => pure (.block id cells)
    | none => throw .outOfBlock

def addBeforeMem (colCount : Nat) : RowsM Unit := do
  let set := (← get).set
  let rowsL2 ← growBlock os set.rowsL2 set.rowsCount colCount
  modifySet fun s => { s with rowsL2 }

/-- Memory for a before image is memory for its after image too. -/
def addAfterMem (colCount : Nat) (rowImageType : RowImageType) : RowsM Unit :=
  if rowImageType = .updateBI then do
    let set := (← get).set
    let rowsAfterL2 ← growBlock os set.rowsAfterL2 set.rowsCount colCount
    modifySet fun s => { s with rowsAfterL2 }
  else pure ()

def replLogXRowsAddRowMem (colCount : Nat) (rowImageType : RowImageType) : RowsM Unit :=
  if rowImageType ≠ .updateAI then do
    addBeforeMem os colCount
    addAfterMem os colCount rowImageType
    modifySet fun s => { s with rowsCount := uint32 (s.rowsCount + 1) }
  else pure ()

-- ---------------------------------------------------------------------------
-- The final row pointers
-- ---------------------------------------------------------------------------

/-- `&block[i * col_count]` for every row. -/
def rowOffsets (rowsCount colCount : Nat) : List Nat :=
  (List.range rowsCount).map fun i => uint32 (i * colCount)

def noFinishMem : Halt := .error "can not allocate mem for finish rows!!!"

def allocPointers : RowsM Nat := do
  match ← zoom RowsState.heapPart (Heap.request os) with
  | some id => pure id
  | none => throw noFinishMem

def replLogXRowsFinish (colCount : Nat) : RowsM Unit := do
  let id ← allocPointers os
  modifySet fun s => { s with rows := .block id (rowOffsets s.rowsCount colCount) }
  if (← get).set.typeCode = replLogXUpdate then
    let id ← allocPointers os
    modifySet fun s => { s with rowsAfter := .block id (rowOffsets s.rowsCount colCount) }

-- ---------------------------------------------------------------------------
-- One image
-- ---------------------------------------------------------------------------

structure CellRef where
  after : Bool
  index : Nat
  deriving DecidableEq, Repr

def RowSet.block (set : RowSet) (after : Bool) : Ptr (List ReplLogXValue) :=
  if after then set.rowsAfterL2 else set.rowsL2

def RowSet.setBlock (set : RowSet) (after : Bool) (b : Ptr (List ReplLogXValue)) : RowSet :=
  if after then { set with rowsAfterL2 := b } else { set with rowsL2 := b }

def RowSet.setCell (set : RowSet) (r : CellRef) (c : ReplLogXValue) : RowSet :=
  match set.block r.after with
  | .block id cells => set.setBlock r.after (.block id (cells.set r.index c))
  | _ => set

/-- Runs a program on the cell `X_ROW[i]`, which has to be inside its block. -/
def atCell (r : CellRef) {α : Type} (x : CellM α) : RowsM α := fun s =>
  match s.set.block r.after with
  | .block _ cells =>
    match cells[r.index]? with
    | some cell =>
      match x.run ⟨s.heap, cell⟩ with
      | .ok a t => .ok a ⟨t.heap, s.set.setCell r t.cell⟩
      | .error e t => .error e ⟨t.heap, s.set.setCell r t.cell⟩
    | none => .error .outOfBlock s
  | _ => .error .outOfBlock s

variable (buf : List UInt8)

def atEvent {α : Type} (x : CellM α) : RowsM α := fun s =>
  match x.run ⟨s.heap, .zero⟩ with
  | .ok a t => .ok a { s with heap := t.heap }
  | .error e t => .error e { s with heap := t.heap }

/-- A `Bit_reader`: the bit at `k` of the vector at `ptr`. -/
def bitReaderGet (ptr k : Nat) : RowsM Bool := do
  let byte ← atEvent (readBytes buf (ptr + k / 8) 1)
  pure (bit byte (k % 8))

def partialJsonUpdates (valueOptions : Nat) : Bool := valueOptions.testBit 0

def bitmapIsSet (bitmap : List Bool) (i : Nat) : Bool := bitmap.getD i false

def bitmapBitsSet (bitmap : List Bool) : Nat := bitmap.count true

def corrupted (fsize left : Nat) : Halt :=
  .error (s!"corrupted replication event was detected: field size is set to {uint32 fsize}, but " ++
    s!"there are only {uint32 left} bytes left of the event. Not printing the value")

structure ImageArgs where
  bitmap : List Bool
  /-- `value_options` of a partial after image, else 0. -/
  valueOptions : Nat
  partialPtr : Nat
  nullPtr : Nat
  colInfo : List ColInfo
  disp : DisplayBlobs

def ImageArgs.readsPartial (a : ImageArgs) (col : Column) : Bool :=
  partialJsonUpdates a.valueOptions && col.isJson

/-- `is_partial`, from the vector that has a bit for every JSON column. -/
def readPartialBit (a : ImageArgs) (col : Column) (partialBit : Nat) : RowsM Bool :=
  if a.readsPartial col then bitReaderGet buf a.partialPtr partialBit else pure false

def ImageArgs.nextPartialBit (a : ImageArgs) (col : Column) (partialBit : Nat) : Nat :=
  if a.readsPartial col then partialBit + 1 else partialBit

def checkFieldSize (isNull : Bool) (col : Column) (value : Nat) : RowsM Unit :=
  if isNull then pure ()
  else do
    let type := col.type.toNat
    let metadata := col.metadata.toNat
    let prefixBytes ← atEvent (readBytes buf value (lib.calcFieldSizeReads type metadata))
    let fsize := lib.calcFieldSize type metadata prefixBytes
    let left := sizeT ((buf.length : Int) - value)
    if fsize > left then throw (corrupted fsize left) else pure ()

/-- A column of the bitmap, with its cell `X_ROW[i]`: how far it moves `value`. -/
def decodeColumn (a : ImageArgs) (xRow : CellRef) (col : Column) (i nullBit value : Nat)
    (isPartial : Bool) : RowsM Nat := do
  let cell : CellRef := ⟨xRow.after, xRow.index + i⟩
  atCell cell (setLen 0)
  let isNull ← bitReaderGet buf a.nullPtr nullBit
  checkFieldSize lib buf isNull col value
  match a.colInfo[i]? with
  | none => throw .outOfBlock
  | some info =>
    let size ← atCell cell (logEventGetValue2 lib os buf (if isNull then none else some value)
      col.type.toNat col.metadata.toNat isPartial info a.disp)
    pure (if isNull then 0 else size)

/-- The loop over the columns. `nullBit` and `partialBit` count what the two bit
readers have given. -/
def columnLoop (a : ImageArgs) (xRow : CellRef) :
    List Column → (i nullBit partialBit value : Nat) → RowsM Nat
  | [], _, _, _, value => pure value
  | col :: cols, i, nullBit, partialBit, value => do
    -- The partial bit is read before the bitmap is looked at: the vector has a
    -- bit for every JSON column, in the image or not.
    let isPartial ← readPartialBit buf a col partialBit
    let partialBit := a.nextPartialBit col partialBit
    if !bitmapIsSet a.bitmap i then columnLoop a xRow cols (i + 1) nullBit partialBit value
    else
      let size ← decodeColumn lib os buf a xRow col i nullBit value isPartial
      columnLoop a xRow cols (i + 1) (nullBit + 1) partialBit (value + size)

structure RowsArgs where
  td : TableDef
  typeCode : LogEventType
  colCount : Nat
  colInfo : List ColInfo
  disp : DisplayBlobs

/-- `value_options` and the partial bits of a partial after image: the options,
the pointer to the bits and the pointer past them. -/
def readValueOptions (r : RowsArgs) (rowImageType : RowImageType) (value : Nat) :
    RowsM (Nat × Nat × Nat) := do
  if r.typeCode = .partialUpdateRows ∧ rowImageType = .updateAI then
    let (valueOptions, taken) ← atEvent (netFieldLengthChecked lib buf value
      (sizeT ((buf.length : Int) - value))
      "error reading binlog_row_value_options from Partial_update_rows_log_event")
    let value := value + taken
    if partialJsonUpdates valueOptions then
      pure (valueOptions, value, value + (r.td.jsonColumnCount + 7) / 8)
    else pure (valueOptions, value, value)
  else pure (0, value, value)

/-- The number of bytes the image at `value` took. -/
def getOneRowValues (r : RowsArgs) (colsBitmap : List Bool) (value0 : Nat)
    (rowImageType : RowImageType) : RowsM Nat := do
  let (valueOptions, partialPtr, value) ← readValueOptions lib buf r rowImageType value0
  replLogXRowsAddRowMem os r.colCount rowImageType
  let rowsCount := (← get).set.rowsCount
  let xRow : CellRef :=
    ⟨rowImageType = .updateAI, uint32 (uint32 (rowsCount + (2 ^ 32 - 1)) * r.colCount)⟩
  let a : ImageArgs :=
    { bitmap := colsBitmap, valueOptions, partialPtr, nullPtr := value, colInfo := r.colInfo,
      disp := r.disp }
  let value ← columnLoop lib os buf a xRow r.td.columns 0 0 0
    (value + (bitmapBitsSet colsBitmap + 7) / 8)
  pure (value - value0)

-- ---------------------------------------------------------------------------
-- All images
-- ---------------------------------------------------------------------------

/-- The loop over the images, and where `value` stands after it. A turn that
goes on has moved `value`, so the distance to `m_rows_end` bounds the number of
turns. -/
def imageLoop (r : RowsArgs) (first : RowImageType) (cols colsAi : List Bool) :
    (fuel value : Nat) → RowsM Nat
  | 0, value => pure value
  | fuel + 1, value => do
    if value < buf.length then
      let length ← getOneRowValues lib os buf r cols value first
      if length ≠ 0 then
        let value := value + length
        if first = .updateBI then
          let length ← getOneRowValues lib os buf r colsAi value .updateAI
          if length ≠ 0 then imageLoop r first cols colsAi fuel (value + length) else pure value
        else imageLoop r first cols colsAi fuel value
      else pure value
    else pure value

def unknownTable (tableId : Nat) : Halt := .error s!"row event for unknown table #{tableId}"

def colCountChanged (map : TableMapLogEvent) (tableId : Nat) : Halt :=
  .error (clip 900 ("cached col_count != col_count in table_map event " ++
    s!"({quoted map.dbName}.{quoted map.tableName} tbl_id={tableId})!!!"))

def failIf (c : Bool) (e : Halt) : RowsM Unit := if c then throw e else pure ()

def setTypeCode (t : LogEventType) : RowsM RowImageType :=
  match t.general with
  | .writeRows => do
    modifySet fun s => { s with typeCode := replLogXInsert }
    pure .writeAI
  | .deleteRows => do
    modifySet fun s => { s with typeCode := replLogXDelete }
    pure .deleteBI
  | .updateRows => do
    modifySet fun s => { s with typeCode := replLogXUpdate }
    pure .updateBI
  | _ => throw (.error "unknown general_type_code")

def ndbInfoShort (ev : RowsLogEvent2) : Bool := ev.ndbLength.any fun n => n < extraRowInfoHeaderLength

/-- Success is `OK_CONTINUE`, with the offset of `value` at the end; an `error`
halt is `ERROR_STOP` with its text. -/
def getRows (ev : RowsLogEvent2) (map : TableMapLogEvent) (colCount : Nat)
    (info : Nat × List ColInfo) (disp : DisplayBlobs) : RowsM Nat := do
  let first ← setTypeCode ev.typeCode
  failIf (ndbInfoShort ev)
    (.error "the number of extra_row_ndb_info is smaller than the minimum acceptable value")
  let created ← zoom RowsState.heapPart (Heap.attempt os)
  failIf (!created) (unknownTable ev.tableId)
  failIf (info.1 ≠ map.mColcnt) (colCountChanged map ev.tableId)
  let r : RowsArgs :=
    { td := map.tableDef, typeCode := ev.typeCode, colCount, colInfo := info.2, disp }
  let value ← (if first = .writeAI ∧ ev.mRowsBuf = [] then pure 0
    else imageLoop lib os ev.mRowsBuf r first ev.mCols ev.mColsAi ev.mRowsBuf.length 0)
  replLogXRowsFinish os colCount
  pure value

end RplListener
