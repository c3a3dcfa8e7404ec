import RplListener.Listener.Types

/-!
# Delivering the rows of a watched table

The part of the rows branch of `process_event` that is inside its `try`: the
cached column information is brought up to date, `_repl_log_x_rows` is set up
and the rows are decoded into it.
-/

namespace RplListener

open Bytes Refine

/-- What the `try` block works on. -/
structure FillState where
  heap : Heap
  info : TblInfo

/-- The other ways out of the `try` block: an error return that leaves `X_ROWS`
alone, an exception, `ERROR_STOP`, and a bad access. -/
inductive FillStop where
  | failed (desc : String)
  | thrown (what : String) (x : ReplLogXRows)
  | stopped (desc : String) (x : ReplLogXRows)
  | memory

abbrev FillM := EStateM FillStop FillState

def FillState.heapPart : Part FillState Heap :=
  ⟨FillState.heap, fun h s => { s with heap := h }, fun _ _ => rfl, fun _ _ _ => rfl⟩

def modifyInfo (f : TblInfo → TblInfo) : FillM Unit := modify fun s => { s with info := f s.info }

variable (lib : Library) (os : Allocator)

-- ---------------------------------------------------------------------------
-- The column cache
-- ---------------------------------------------------------------------------

def allocColumns (count : Nat) : FillM Unit := do
  match ← zoom FillState.heapPart (Heap.request os) with
  | some id => modifyInfo fun i => { i with columns := .block id (List.replicate count .junk) }
  | none =>
    modifyInfo fun i => { i with columns := .null }
    throw (.failed "mem allocation error when store columns info!!!")

/-- The block is kept unless the recorded count is too small. -/
def reserveColumns (count : Nat) : FillM Unit := do
  let info := (← get).info
  if info.columns.isNull then allocColumns os count
  else if info.colCount ≥ count then pure ()
  else
    zoom FillState.heapPart (Heap.free info.columns)
    allocColumns os count

def writeColumns (write : List ColInfo → Option (List ColInfo)) : FillM Unit := do
  match (← get).info.columns with
  | .block id cols =>
    match write cols with
    | some cols' => modifyInfo fun i => { i with columns := .block id cols' }
    | none => throw .memory
  | _ => throw .memory

/-- `col_count`, and `memset` of the columns to zero. -/
def clearColumns (count : Nat) : FillM Unit := do
  modifyInfo fun i => { i with colCount := count }
  writeColumns fun cols =>
    if count ≤ cols.length then some (List.replicate count .zero ++ cols.drop count) else none

def isNumericType (type : UInt8) : Bool :=
  match FieldType.ofCode type.toNat with
  | some .tiny | some .short | some .int24 | some .long | some .longlong | some .newdecimal
  | some .float | some .double => true
  | _ => false

def modifyColumn (i : Nat) (f : ColInfo → ColInfo) : FillM Unit :=
  writeColumns fun cols => if i < cols.length then some (cols.modify i f) else none

/-- The names and the signedness, from column `i` on; `signedness` is what the
numeric columns before have left. -/
def storeNames : (types : List UInt8) → (i : Nat) → (names : List (List UInt8)) →
    (signedness : List Bool) → FillM Unit
  | type :: types, i, name :: names, signedness => do
    let rest ← (if isNumericType type then
        match signedness with
        | [] => throw (.failed "ERROR opt metadata SIGNEDESS parsing !!!")
        | s :: rest => do
          modifyColumn i fun c => { c with isUnsigned := s }
          pure rest
      else do
        modifyColumn i fun c => { c with isUnsigned := false }
        pure signedness)
    modifyColumn i fun c => { c with name := (cstr name).take 127 }
    storeNames types (i + 1) names rest
  | _, _, _, _ => pure ()

def storeTypes : (types : List UInt8) → (i : Nat) → FillM Unit
  | type :: types, i => do
    modifyColumn i fun c => { c with type }
    storeTypes types (i + 1)
  | [], _ => pure ()

def fullMetadata (n : Nat) : String :=
  s!"({n}) optional metadata is not valid!!! set server variable binlog_row_metadata=FULL"

def readMetadata (map : TableMapLogEvent) : FillM (List (List UInt8) × List Bool) :=
  if map.mOptionalMetadata = [] then throw (.failed (fullMetadata 1))
  else
    match lib.optionalMetadata map.mOptionalMetadata with
    | .throws what => throw (.thrown what .junk)
    | .invalid => throw (.failed (fullMetadata 2))
    | .fields names signedness =>
      if names.length ≠ map.mColcnt then
        throw (.failed "ERROR opt metadata parsing ( may be binlog_row_metadata is not set to FULL ) ")
      else pure (names, signedness)

def updateInfo (map : TableMapLogEvent) : FillM Unit := do
  reserveColumns os map.mColcnt
  clearColumns map.mColcnt
  let (names, signedness) ← readMetadata lib map
  storeNames map.mColtype 0 names signedness
  storeTypes map.mColtype 0

-- ---------------------------------------------------------------------------
-- The rows structure
-- ---------------------------------------------------------------------------

/-- `_repl_log_x_rows` after `memset` and the fields that need no memory. -/
def ReplLogXRows.init (ev : RowsLogEvent2) (map : TableMapLogEvent) (disp : DisplayBlobs) :
    ReplLogXRows where
  when := ev.when
  tblName := (cstr map.tableName).take 319
  dbName := (cstr map.dbName).take 319
  tblId := ev.tableId
  colCount := map.mColcnt
  colNames := .null
  colTypes := .null
  displayBlobs := disp
  set := {}

def infoColumns (count : Nat) : FillM (List ColInfo) := do
  match (← get).info.columns with
  | .block _ cols => if count ≤ cols.length then pure (cols.take count) else throw .memory
  | _ => throw .memory

def requestPtr {α : Type} (contents : α) : FillM (Ptr α) := do
  match ← zoom FillState.heapPart (Heap.request os) with
  | some id => pure (.block id contents)
  | none => pure .null

/-- `repl_log_x_rows_init`. When one of the two blocks cannot be had, the other is
freed, and its pointer stays in the structure. -/
def replLogXRowsInit (ev : RowsLogEvent2) (map : TableMapLogEvent) (disp : DisplayBlobs) :
    FillM ReplLogXRows := do
  let cols ← infoColumns map.mColcnt
  let colNames ← requestPtr os (cols.map ColInfo.name)
  let colTypes ← requestPtr os (cols.map ColInfo.type)
  let x : ReplLogXRows := { ReplLogXRows.init ev map disp with colNames, colTypes }
  if colNames.isNull || colTypes.isNull then
    zoom FillState.heapPart (Heap.free colNames)
    zoom FillState.heapPart (Heap.free colTypes)
    throw (.thrown "can not allocate memory for columns info!!!" x)
  else pure x

def callGetRows (ev : RowsLogEvent2) (map : TableMapLogEvent) (x : ReplLogXRows) :
    FillM ReplLogXRows := fun s =>
  let cols := match s.info.columns with
    | .block _ cols => cols
    | _ => []
  match (getRows lib os ev map x.colCount (s.info.colCount, cols) x.displayBlobs).run ⟨s.heap, x.set⟩ with
  | .ok _ t => .ok { x with set := t.set } { s with heap := t.heap }
  | .error (.error desc) t =>
    .error (.stopped (errorDesc desc) { x with set := t.set }) { s with heap := t.heap }
  | .error _ t => .error .memory { s with heap := t.heap }

/-- The `try` block. -/
def fillRows (ev : RowsLogEvent2) (map : TableMapLogEvent) (disp : DisplayBlobs) :
    FillM ReplLogXRows := do
  updateInfo lib os map
  let x ← replLogXRowsInit os ev map disp
  callGetRows lib os ev map x

-- ---------------------------------------------------------------------------
-- Clearing
-- ---------------------------------------------------------------------------

def freeCells (block : Ptr (List ReplLogXValue)) (count : Nat) : EStateM Crash Heap Unit :=
  match block with
  | .null => pure ()
  | .wild => throw .memory
  | .block id cells =>
    if count ≤ cells.length then do
      (cells.take count).forM fun c => Heap.free c.val
      Heap.free (Ptr.block id cells)
    else throw .memory

def replLogXRowsClear (x : ReplLogXRows) : EStateM Crash Heap Unit := do
  Heap.free x.colNames
  Heap.free x.colTypes
  Heap.free x.set.rows
  Heap.free x.set.rowsAfter
  freeCells x.set.rowsL2 (uint32 (x.set.rowsCount * x.colCount))
  freeCells x.set.rowsAfterL2 (uint32 (x.set.rowsCount * x.colCount))

end RplListener
