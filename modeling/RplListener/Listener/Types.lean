import RplListener.Rows.Decode

/-!
# The listener and its events

The records of `mysql_rpl_listener_2.h`, the events as the library hands them to
the listener, and the state of the replication thread. A callback is recorded
when it is called; calling one that was not registered is a crash.
-/

namespace RplListener

open Bytes Refine

-- ---------------------------------------------------------------------------
-- Events
-- ---------------------------------------------------------------------------

/-- The types that are handled, so that they are no heartbeat. -/
def LogEventType.listed : LogEventType → Bool
  | .writeRows | .deleteRows | .updateRows | .writeRowsV1 | .deleteRowsV1 | .updateRowsV1
  | .partialUpdateRows | .query | .xid | .xaPrepareLog | .transactionPayload
  | .formatDescription | .tableMap | .rotate => true
  | _ => false

structure FormatDescription where
  checksumCrc32 : Bool
  deriving DecidableEq, Repr

inductive LeafEvent where
  | query (when : Nat) (query : List UInt8)
  | formatDescription (when : Nat) (event : FormatDescription)
  | tableMap (when : Nat) (event : TableMapLogEvent)
  | rotate (when : Nat) (newLogIdent : List UInt8)
  | rows (event : RowsLogEvent2) (isRows : event.typeCode.firstImage.isSome)
  | xid (when : Nat)
  | xaPrepareLog (when : Nat)
  | other (type : LogEventType) (when : Nat) (unlisted : type.listed = false)

namespace LeafEvent

def type : LeafEvent → LogEventType
  | .query .. => .query
  | .formatDescription .. => .formatDescription
  | .tableMap .. => .tableMap
  | .rotate .. => .rotate
  | .rows event _ => event.typeCode
  | .xid _ => .xid
  | .xaPrepareLog _ => .xaPrepareLog
  | .other type .. => type

def when : LeafEvent → Nat
  | .query when _ | .formatDescription when _ | .tableMap when _ | .rotate when _ | .xid when
  | .xaPrepareLog when | .other _ when _ => when
  | .rows event _ => event.when

end LeafEvent

mutual

inductive LogEvent where
  | leaf (event : LeafEvent)
  | transactionPayload (when : Nat) (payload : Payload)

/-- What the loop over a payload gets, one buffer after the other: an event, or a
failure (no memory, an exception, a read error) with its text. -/
inductive Payload where
  | nil
  | failed (desc : String)
  | cons (event : LogEvent) (rest : Payload)

end

/-- What one turn of the replication loop gets from the server and the library.
`size` is the packet with its first byte. -/
inductive Packet where
  | fetchError (desc : String)
  | eof
  | heartbeat (size when : Nat)
  | failed (size : Nat) (desc : String)
  | event (size : Nat) (event : LogEvent)

-- ---------------------------------------------------------------------------
-- Callbacks
-- ---------------------------------------------------------------------------

/-- `_repl_log_x_rows`. The fields the row decoder fills are in `set`. -/
structure ReplLogXRows where
  when : Nat
  tblName : List UInt8
  dbName : List UInt8
  tblId : Nat
  colCount : Nat
  colNames : Ptr (List (List UInt8))
  colTypes : Ptr (List UInt8)
  displayBlobs : DisplayBlobs
  set : RowSet
  deriving DecidableEq, Repr

/-- The local variable before it is cleared. -/
def ReplLogXRows.junk : ReplLogXRows where
  when := 0
  tblName := []
  dbName := []
  tblId := 0
  colCount := 0
  colNames := .wild
  colTypes := .wild
  displayBlobs := ⟨false, false, false⟩
  set :=
    { typeCode := 0, rowsCount := 0, rows := .wild, rowsAfter := .wild, rowsL2 := .wild
      rowsAfterL2 := .wild }

inductive TransactionEvType where
  | start | commit
  deriving DecidableEq, Repr

inductive Call where
  | onRow (rows : ReplLogXRows)
  | onTransaction (when : Nat) (type : TransactionEvType)
  | onHeartbeat (when : Nat)
  deriving DecidableEq, Repr

-- ---------------------------------------------------------------------------
-- The listener
-- ---------------------------------------------------------------------------

/-- `__State` -/
inductive ReplState where
  | created | postCreated | prepared | postPrepared | inprocess1 | inprocess | ended
  deriving DecidableEq, Repr

/-- `_tbl_info`: the block of `columns` may be longer than `col_count`. -/
structure TblInfo where
  colCount : Nat := 0
  columns : Ptr (List ColInfo) := .null
  deriving DecidableEq, Repr

def ColInfo.zero : ColInfo := ⟨0, [], false⟩

def ColInfo.junk : ColInfo := ⟨0xcd, [], true⟩

structure ListeningTable where
  dbName : List UInt8
  tblName : List UInt8
  info : TblInfo := {}
  deriving DecidableEq, Repr

/-- The saved `TABLE_MAP` events in the order of their ids. -/
abbrev TableMapEvents := List (Nat × TableMapLogEvent)

namespace TableMapEvents

def find (m : TableMapEvents) (id : Nat) : Option TableMapLogEvent :=
  (List.find? (fun x => x.1 == id) m).map Prod.snd

def erase (m : TableMapEvents) (id : Nat) : TableMapEvents := List.filter (fun x => x.1 != id) m

def insert (m : TableMapEvents) (id : Nat) (ev : TableMapLogEvent) : TableMapEvents :=
  List.takeWhile (fun x => x.1 < id) m ++ (id, ev) :: List.dropWhile (fun x => x.1 < id) m

/-- What a `TABLE_MAP` event does: the old event of its id goes. -/
def store (m : TableMapEvents) (ev : TableMapLogEvent) : TableMapEvents :=
  (m.erase ev.tableId).insert ev.tableId ev

end TableMapEvents

/-- `MYSQL_RPL`, as far as it is used; `file_name` points to `m_log_nm` or is NULL. -/
structure MysqlRpl where
  fileNameSet : Bool := false
  fileNameLength : Nat := 0
  startPosition : Nat := 0
  size : Nat := 0
  deriving DecidableEq, Repr

/-- `mysql_rpl_listener_2`. A callback pointer is NULL or not. -/
structure Listener where
  inTransaction : Nat := 0
  positionWasSetted : Bool := false
  onRow : Bool
  onHeartbeat : Bool
  onTransaction : Bool
  tables : List ListeningTable := []
  state : ReplState := .created
  mLogNm : List UInt8 := []
  rpl : MysqlRpl := {}
  disp : DisplayBlobs
  globDescriptionEvent : Option FormatDescription := none
  globTableMapEvents : TableMapEvents := []

/-- `_repl_log_x_error` when `is_error` is set. -/
structure ReplLogXError where
  isErrorMySQL : Bool
  description : String
  deriving DecidableEq, Repr

/-- What the replication thread changes: the listener, the error slot, the calls
made so far and the heap. -/
structure World where
  obj : Listener
  error : Option ReplLogXError := none
  calls : List Call := []
  heap : Heap := {}

/-- A call of a NULL pointer, or a bad access to memory. -/
inductive Crash where
  | nullCall
  | memory
  deriving DecidableEq, Repr

abbrev ListenM := EStateM Crash World

end RplListener
