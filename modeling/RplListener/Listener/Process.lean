import RplListener.Listener.Deliver

/-!
# Handling an event

`process_event`, with one definition for each branch of its `switch`, and the
loop of the replication thread. `needStop k` is what the thread sees when it
looks at `need_stop` for the `k`-th time; the functions that look give back the
number of the next look.
-/

namespace RplListener

open Bytes Refine

-- ---------------------------------------------------------------------------
-- The state
-- ---------------------------------------------------------------------------

def World.heapPart : Part World Heap :=
  ⟨World.heap, fun h w => { w with heap := h }, fun _ _ => rfl, fun _ _ _ => rfl⟩

def modifyObj (f : Listener → Listener) : ListenM Unit := modify fun w => { w with obj := f w.obj }

/-- `repl_log_x_error_clear` -/
def clearError : ListenM Unit := modify fun w => { w with error := none }

/-- `repl_log_error_set` for an error of the listener's own. -/
def setError (desc : String) : ListenM Unit :=
  modify fun w => { w with error := some ⟨false, clip 1024 desc⟩ }

/-- `__sync_bool_compare_and_swap( &state, old, new )` -/
def swapState (old new : ReplState) : ListenM Unit :=
  modifyObj fun o => if o.state = old then { o with state := new } else o

def call (registered : Bool) (c : Call) : ListenM Unit :=
  if registered then modify fun w => { w with calls := w.calls ++ [c] } else throw .nullCall

-- ---------------------------------------------------------------------------
-- What is done to the listener
-- ---------------------------------------------------------------------------

def processFormatDescription (event : FormatDescription) : ListenM Unit :=
  modifyObj fun o =>
    { o with
      globDescriptionEvent := some event
      rpl := if o.rpl.startPosition ≠ 4 then { o.rpl with size := 1 } else o.rpl }

def processTableMap (event : TableMapLogEvent) : ListenM Unit :=
  modifyObj fun o => { o with globTableMapEvents := o.globTableMapEvents.store event }

/-- A name other than the current one is a real rotation; `memcmp` looks at as
many bytes as the current name has. -/
def processRotate (newLogIdent : List UInt8) : ListenM Unit :=
  modifyObj fun o =>
    if newLogIdent.length ≠ o.rpl.fileNameLength ∨
        newLogIdent ≠ o.mLogNm.take o.rpl.fileNameLength then
      let name := (cstr newLogIdent).take (min (newLogIdent.length + 1) 512 - 1)
      { o with
        mLogNm := name
        rpl := { o.rpl with fileNameLength := name.length, startPosition := 0, size := 5 } }
    else { o with rpl := { o.rpl with size := 1 } }

def processGtid : ListenM Unit := swapState .inprocess1 .inprocess

def ListeningTable.names (t : ListeningTable) (map : TableMapLogEvent) : Bool :=
  cstr map.dbName == t.dbName && cstr map.tableName == t.tblName

/-- The loop over the watched tables keeps the last one that fits. -/
def watchedTable (map : TableMapLogEvent) :
    List ListeningTable → (q : Nat) → (found : Option Nat) → Option Nat
  | [], _, found => found
  | t :: ts, q, found => watchedTable map ts (q + 1) (if t.names map then some q else found)

/-- The `try` block works on the heap and on the column cache of one table. -/
def fillTable (lib : Library) (os : Allocator) (ev : RowsLogEvent2) (map : TableMapLogEvent) (q : Nat) :
    ListenM (Except FillStop ReplLogXRows) := fun w =>
  match w.obj.tables[q]? with
  | none => .error .memory w
  | some t =>
    let back (s : FillState) : World :=
      { w with heap := s.heap, obj := { w.obj with tables := w.obj.tables.set q { t with info := s.info } } }
    match (fillRows lib os ev map w.obj.disp).run ⟨w.heap, t.info⟩ with
    | .ok x s => .ok (.ok x) (back s)
    | .error e s => .ok (.error e) (back s)

def clearRows (x : ReplLogXRows) : ListenM Unit := zoom World.heapPart (replLogXRowsClear x)

def noTableMap : String := "rows event without table_map event"

def Listener.mapOf (o : Listener) (ev : RowsLogEvent2) : Option TableMapLogEvent :=
  (o.globTableMapEvents.find ev.tableId).filter fun map => map.tableId == ev.tableId

-- ---------------------------------------------------------------------------
-- The handlers
-- ---------------------------------------------------------------------------

/-- How a handler gets to the listener: it looks at it, and it acts on it. Other
threads may run between two accesses. -/
structure Access (m : Type → Type) where
  look : m Listener
  act : {α : Type} → ListenM α → m α

namespace Access

variable {m : Type → Type} [Monad m] (a : Access m)

/-- The call that closes a transaction, when one is open: whether it was made. -/
def commitTransaction (when : Nat) : m Bool := do
  let o ← a.look
  if o.inTransaction > 1 ∧ o.state = .inprocess ∧ o.onTransaction then
    a.act (call o.onTransaction (.onTransaction when .commit))
    pure true
  else pure false

def endTransaction : m Unit := do
  a.act (modifyObj fun o => { o with inTransaction := 0 })
  a.act (swapState .inprocess1 .inprocess)

/-- Events of the types that are not listed count as heartbeats. -/
def convertToHeartbeat (type : LogEventType) (when : Nat) : m Unit := do
  let o ← a.look
  if type.listed = false ∧ o.state = .inprocess ∧ o.onHeartbeat then
    a.act (call o.onHeartbeat (.onHeartbeat when))
  else pure ()

def openTransaction (text : List UInt8) : m Unit :=
  if text = ascii "BEGIN" ∨ text = ascii "XA START" then do
    a.act (swapState .inprocess1 .inprocess)
    a.act (modifyObj fun o => { o with inTransaction := 1 })
  else pure ()

/-- `COMMIT`: whether `convert_to_heartbeat` is still 1. -/
def closeTransaction (text : List UInt8) (when : Nat) : m Bool :=
  if text = ascii "COMMIT" then do
    let called ← a.commitTransaction when
    a.endTransaction
    pure (!called)
  else pure true

/-- The test of `convert_to_heartbeat` asks for 0. -/
def queryHeartbeat (convert : Bool) (when : Nat) : m Unit := do
  let o ← a.look
  if convert = false then a.act (call o.onHeartbeat (.onHeartbeat when)) else pure ()

/-- The copy of the query that is compared is freed on every path. -/
def processQuery (os : Allocator) (when : Nat) (query : List UInt8) : m Unit := do
  let text := cstr query
  if ← a.act (zoom World.heapPart (Heap.attempt os)) then
    a.openTransaction text
    let convert ← a.closeTransaction text when
    a.queryHeartbeat convert when
  else a.act (setError "out of mem!!!")

/-- `XID_EVENT` and `XA_PREPARE_LOG_EVENT` -/
def processXid (when : Nat) : m Unit := do
  let _ ← a.commitTransaction when
  a.endTransaction

def startTransaction (when : Nat) : m Unit := do
  let o ← a.look
  if o.inTransaction = 1 then
    a.act (modifyObj fun o => { o with inTransaction := 2 })
    if o.onTransaction then a.act (call o.onTransaction (.onTransaction when .start)) else pure ()
  else pure ()

def finishRows (result : Except FillStop ReplLogXRows) : m Unit :=
  match result with
  | .ok x => do
    let o ← a.look
    if o.onRow then a.act (call o.onRow (.onRow x)) else pure ()
    a.act (clearRows x)
  | .error (.failed desc) => a.act (setError desc)
  | .error (.thrown what x) => do
    a.act (clearRows x)
    a.act (setError what)
  | .error (.stopped desc x) => do
    a.act (clearRows x)
    a.act (setError desc)
  | .error .memory => a.act (throw .memory)

/-- A heartbeat means that no older table map can be missing. -/
def processHeartbeat (when : Nat) : m Unit := do
  if (← a.look).globDescriptionEvent.isNone then
    a.act (setError "HEARTBEAT_LOG_EVENT without FORMAT_DESCRIPTION_EVENT!!!")
  else
    a.act (swapState .inprocess1 .inprocess)
    let o ← a.look
    if o.onHeartbeat then a.act (call o.onHeartbeat (.onHeartbeat when)) else pure ()

variable (lib : Library) (os : Allocator)

def deliverRows (ev : RowsLogEvent2) (map : TableMapLogEvent) (q : Nat) : m Unit := do
  a.startTransaction ev.when
  let result ← a.act (fillTable lib os ev map q)
  a.finishRows result

/-- The phase is looked at once, before all that follows. -/
def processRows (ev : RowsLogEvent2) : m Unit := do
  let o ← a.look
  if o.state = .inprocess then
    match o.mapOf ev with
    | some map =>
      match watchedTable map o.tables 0 none with
      | some q => a.deliverRows lib os ev map q
      | none => pure ()
    | none => a.act (setError noTableMap)
  else pure ()

/-- The `switch`; the types that are not named do nothing. -/
def processLeaf : LeafEvent → m Unit
  | .query when query => a.processQuery os when query
  | .formatDescription _ event => a.act (processFormatDescription event)
  | .tableMap _ event => a.act (processTableMap event)
  | .rotate _ newLogIdent => a.act (processRotate newLogIdent)
  | .rows event _ => a.processRows lib os event
  | .xid when => a.processXid when
  | .xaPrepareLog when => a.processXid when
  | .other .anonymousGtidLog _ _ => a.act processGtid
  | .other .gtidLog _ _ => a.act processGtid
  | .other _ _ _ => pure ()

def handleLeaf (ev : LeafEvent) : m Unit := do
  a.act clearError
  a.convertToHeartbeat ev.type ev.when
  a.processLeaf lib os ev

end Access

abbrev direct : Access ListenM := ⟨do pure (← get).obj, fun x => x⟩

theorem direct_look_bind {α : Type} (f : Listener → ListenM α) (w : World) :
    (direct.look >>= f).run w = (f w.obj).run w := rfl

theorem triple_look_bind {α : Type} {f : Listener → ListenM α} {w : World}
    {Q : α → World → Prop} {E : Crash → World → Prop} (h : Triple (f w.obj) w Q E) :
    Triple (direct.look >>= f) w Q E := Triple.bind_run rfl h

abbrev finishRows (result : Except FillStop ReplLogXRows) : ListenM Unit := direct.finishRows result

-- ---------------------------------------------------------------------------
-- process_event
-- ---------------------------------------------------------------------------

section

variable (lib : Library) (os : Allocator)

abbrev processRows (ev : RowsLogEvent2) : ListenM Unit := direct.processRows lib os ev

/-- `process_event` on an event that holds no events. -/
abbrev handleLeaf (ev : LeafEvent) : ListenM Unit := direct.handleLeaf lib os ev

variable (needStop : Nat → Bool)

mutual

/-- `process_event`, from look `k` at `need_stop` on. -/
def processEvent (k : Nat) : LogEvent → ListenM Nat
  | .leaf ev => do
    handleLeaf lib os ev
    pure k
  | .transactionPayload _ payload => do
    clearError
    -- The checksum algorithm is asked of the description event.
    if (← get).obj.globDescriptionEvent.isNone then throw .memory
    else processPayload k payload

def processPayload (k : Nat) : Payload → ListenM Nat
  | .nil => pure k
  | .failed desc => do
    setError desc
    pure k
  | .cons ev rest => do
    let k ← processEvent k ev
    if (← get).error.isSome then pure k
    else if needStop k then pure (k + 1)
    else processPayload (k + 1) rest

end

-- ---------------------------------------------------------------------------
-- The replication thread
-- ---------------------------------------------------------------------------

def setErrorMySQL (desc : String) : ListenM Unit :=
  modify fun w => { w with error := some ⟨true, clip 1024 desc⟩ }

def setSize (size : Nat) : ListenM Unit :=
  modifyObj fun o => { o with rpl := { o.rpl with size } }

/-- `start_position += size - 1` -/
def advance : ListenM Unit :=
  modifyObj fun o =>
    { o with rpl := { o.rpl with startPosition := o.rpl.startPosition + (o.rpl.size - 1) } }

abbrev processHeartbeat (when : Nat) : ListenM Unit := direct.processHeartbeat when

/-- How a turn of the loop ends: with `break`, or before look `k`. -/
inductive Turn where
  | done
  | next (k : Nat)
  deriving DecidableEq, Repr

def lookAgain (k : Nat) : Turn := if needStop k then .done else .next (k + 1)

def turn (k : Nat) : Packet → ListenM Turn
  | .fetchError desc => do
    setErrorMySQL desc
    pure .done
  | .eof => do
    setError "mysql_binlog_fetch() EOF received"
    pure .done
  | .failed size desc => do
    setSize size
    setError desc
    pure .done
  | .heartbeat size when => do
    setSize size
    processHeartbeat when
    if (← get).error.isSome then pure .done else pure (lookAgain needStop k)
  | .event size ev => do
    setSize size
    let k ← processEvent lib os needStop k ev
    if (← get).error.isSome then pure .done
    else do
      advance
      pure (lookAgain needStop k)

/-- The loop, until it breaks or has to wait for a packet. -/
def replicationLoop (k : Nat) : List Packet → ListenM Turn
  | [] => pure (.next k)
  | p :: ps => do
    match ← turn lib os needStop k p with
    | .done => pure .done
    | .next k => replicationLoop k ps

end

end RplListener
