import RplListener.Listener.Process

/-!
# The life of a listener

`mysql_rpl_listener_2` from its constructor to the end of its thread: the
tables, `prepare_replication` with the answers of the server, and
`start_replication`. `get_tablemap_events` hands the saved table maps over to the
constructor of another listener.
-/

namespace RplListener

open Bytes Refine

variable (lib : Library) (os : Allocator)

-- ---------------------------------------------------------------------------
-- Saved table maps
-- ---------------------------------------------------------------------------

def eventLen (buf : List UInt8) : Nat := leNat ((buf.drop 9).take 4)

def tableMapEventCode : UInt8 := 19

/-- The copies of the saved events, as many bytes as their headers say. -/
def copyTablemapEvents : TableMapEvents → EStateM Crash Heap (Except String (List (List UInt8)))
  | [] => pure (.ok [])
  | (_, ev) :: evs => do
    if ev.tempBuf.length < 13 ∨ ev.tempBuf.length < eventLen ev.tempBuf then throw .memory
    else
      let evbuff := ev.tempBuf.take (eventLen ev.tempBuf)
      if ← Heap.attempt os then
        let rest ← copyTablemapEvents evs
        pure (rest.map fun bufs => evbuff :: bufs)
      else pure (.error "get_tablemap_events() can not allocate mem ERROR!!!")

def getTablemapEvents (o : Listener) : EStateM Crash Heap (Except String (List (List UInt8))) := do
  if o.state ≠ .ended then pure (.error "get_tablemap_events() ERROR ORDER!!!")
  else if ← Heap.attempt os then copyTablemapEvents os o.globTableMapEvents
  else pure (.error "std::bad_alloc")

/-- `binlog_event_deserialize` of a `TABLE_MAP` event; `none` is an error or an
exception. -/
abbrev Deserialize := List UInt8 → Option TableMapLogEvent

variable (deserialize : Deserialize)

/-- The loop ends at the first event that cannot be read. -/
def loadTablemapEvents : (bufs : List (List UInt8)) → TableMapEvents → EStateM Crash Heap TableMapEvents
  | [], m => pure m
  | buff :: bufs, m =>
    match buff[4]? with
    | none => throw .memory
    | some type =>
      if type ≠ tableMapEventCode then loadTablemapEvents bufs m
      else if buff.length < 13 then throw .memory
      else do
        if ← Heap.attempt os then
          if buff.length < eventLen buff then throw .memory
          else
            let tempBuf := buff.take (eventLen buff)
            match deserialize tempBuf with
            | some ev => loadTablemapEvents bufs (m.store { ev with tempBuf })
            | none => pure m
        else pure m

-- ---------------------------------------------------------------------------
-- The constructor and the tables
-- ---------------------------------------------------------------------------

/-- The arguments of the constructor that are used later. -/
structure InitArgs where
  onRow : Bool
  onHeartbeat : Bool
  onTransaction : Bool
  disp : DisplayBlobs
  masterFileName : Option (List UInt8) := none
  masterFilePos : Nat := 0
  tblmapsCollection : Option (List (List UInt8)) := none

def InitArgs.listener (a : InitArgs) : Listener :=
  let o : Listener :=
    { onRow := a.onRow, onHeartbeat := a.onHeartbeat, onTransaction := a.onTransaction
      disp := a.disp }
  match a.masterFileName with
  | none => o
  | some name =>
    let mLogNm := (cstr name).take 511
    { o with
      mLogNm
      rpl := { fileNameSet := true, fileNameLength := mLogNm.length, startPosition := a.masterFilePos } }

/-- The collection is looked at only together with a file name, and only when a
description event can be had for reading it. -/
def newListener (a : InitArgs) : EStateM Crash Heap Listener := do
  match a.masterFileName, a.tblmapsCollection with
  | some _, some bufs =>
    if ← Heap.attempt os then
      let globTableMapEvents ← loadTablemapEvents os deserialize bufs []
      pure { a.listener with globTableMapEvents }
    else pure a.listener
  | _, _ => pure a.listener

/-- `snprintf` of a name into a buffer of 321 bytes. -/
def storedName (name : List UInt8) : List UInt8 := (cstr name).take 320

def tableAdd (dbName tblName : List UInt8) : ListenM Nat := do
  if (← get).obj.state ≠ .created then pure 500
  else if ← zoom World.heapPart (Heap.attempt os) then
    modifyObj fun o =>
      { o with
        tables := o.tables ++ [{ dbName := storedName dbName, tblName := storedName tblName }] }
    pure 0
  else pure 700

-- ---------------------------------------------------------------------------
-- prepare_replication
-- ---------------------------------------------------------------------------

/-- The answers of the client library and of the server; a text is that of an
error. -/
structure Server where
  init : Bool
  connect : Option String
  version : Except String (List (Option (List UInt8)))
  showVariables : Except String (List (List UInt8 × List UInt8))
  checksum : Option String
  heartbeatPeriod : Option String
  masterStatus : Except String (Option (List UInt8) × Option (List UInt8))

def abandon (fail : ListenM Unit) : ListenM Unit := do
  fail
  swapState .postCreated .ended

/-- The rest of the preparation, unless a check of the server has failed. -/
def checked (error : Option String) (rest : ListenM Unit) : ListenM Unit :=
  match error with
  | some desc => abandon (setErrorMySQL desc)
  | none => rest

def required (ok : Bool) (desc : String) (rest : ListenM Unit) : ListenM Unit :=
  if ok then rest else abandon (setError desc)

def hasVariable (rows : List (List UInt8 × List UInt8)) (name value : String) : Bool :=
  rows.any fun v => cstr v.1 == ascii name && cstr v.2 == ascii value

def isspace (b : UInt8) : Bool := b == 32 || (9 ≤ b && b ≤ 13)

def takeSignChar : List UInt8 → Bool × List UInt8
  | 43 :: rest => (false, rest)
  | 45 :: rest => (true, rest)
  | text => (false, text)

/-- `strtoull` in base 10. A minus negates in 64 bits, and a number that does not
fit is the largest there is. -/
def strtoull (text : List UInt8) : Nat :=
  let (minus, rest) := takeSignChar ((cstr text).dropWhile isspace)
  let digits := rest.takeWhile fun b => 48 ≤ b ∧ b ≤ 57
  let n : Nat := digits.foldl (fun n b => 10 * n + (b.toNat - 48)) 0
  if n < 2 ^ 64 then if minus then sizeT (-(n : Int)) else n else 2 ^ 64 - 1

example : strtoull (ascii " 12x") = 12 := by decide

example : strtoull (ascii "-1") = 2 ^ 64 - 1 := by decide

def setPosition (name pos : List UInt8) : ListenM Unit :=
  modifyObj fun o =>
    let mLogNm := (cstr name).take 511
    { o with
      mLogNm
      rpl := { o.rpl with
        fileNameSet := true, fileNameLength := mLogNm.length, startPosition := strtoull pos } }

def preparePosition (server : Server) : ListenM Unit := do
  if (← get).obj.mLogNm = [] then
    modifyObj fun o => { o with positionWasSetted := false }
    match server.masterStatus with
    | .error desc => abandon (setErrorMySQL desc)
    | .ok (some name, some pos) =>
      setPosition name pos
      swapState .postCreated .prepared
    | .ok _ => abandon (setError "Could not find master log and pos. Master returned NULL!")
  else
    modifyObj fun o => { o with positionWasSetted := true }
    swapState .postCreated .prepared

def prepareVariables (server : Server) : ListenM Unit :=
  match server.showVariables with
  | .error desc => abandon (setErrorMySQL desc)
  | .ok rows =>
    required (hasVariable rows "binlog_format" "ROW")
        "Server variable 'binlog_format' not setted to ROW" <|
      required (hasVariable rows "binlog_row_image" "FULL")
        "Server variable 'binlog_row_image' not setted to FULL" <|
      required (hasVariable rows "binlog_row_metadata" "FULL")
        "Server variable 'binlog_row_metadata' not setted to FULL" <|
      required (hasVariable rows "gtid_mode" "OFF")
        "Server variable 'gtid_mode' not setted to OFF" <|
      checked server.checksum <|
      checked server.heartbeatPeriod <|
      preparePosition server

def prepareVersion (server : Server) : ListenM Unit :=
  match server.version with
  | .error desc => abandon (setErrorMySQL desc)
  | .ok [] => abandon (setError
      "Could not find server version. Master returned no rows for SELECT VERSION()")
  | .ok (none :: _) => abandon (setError
      "Could not find server version. Master reported NULL for SELECT VERSION()")
  | .ok (some version :: _) =>
    required (cstr version ≠ [])
      "Could not find server version. Master reported empty string for SELECT VERSION()"
      (prepareVariables server)

def prepareReplication (server : Server) : ListenM Unit := do
  clearError
  if (← get).obj.state ≠ .created then setError "prepare_replication() ERROR ORDER!!!"
  else
    swapState .created .postCreated
    if (← get).obj.tables.isEmpty then
      abandon (setError "tables are empry!!! call method table_add() to fill list of tables!!!")
    else
      required server.init "mysql_init() failed!!!" (checked server.connect (prepareVersion server))

-- ---------------------------------------------------------------------------
-- The thread
-- ---------------------------------------------------------------------------

/-- `spawn` is the error of the thread functions, if any. -/
def startReplication (spawn : Option String) : ListenM Unit := do
  clearError
  if (← get).obj.state ≠ .prepared then setError "start_replication() ERROR ORDER!!!"
  else
    swapState .prepared .postPrepared
    match spawn with
    | some desc =>
      setError desc
      swapState .postPrepared .ended
    | none =>
      swapState .postPrepared (if (← get).obj.positionWasSetted then .inprocess else .inprocess1)

def endReplication : ListenM Unit := do
  swapState .inprocess1 .ended
  swapState .inprocess .ended

/-- The thread up to its loop: whether it gets there. `binlogOpen` is the error of
`mysql_binlog_open`, if any. -/
def threadStart (binlogOpen : Option String) : ListenM Bool := do
  clearError
  if ← zoom World.heapPart (Heap.attempt os) then
    modifyObj fun o => { o with globDescriptionEvent := some ⟨false⟩, globTableMapEvents := [] }
    match binlogOpen with
    | some desc =>
      setErrorMySQL desc
      endReplication
      pure false
    | none => pure true
  else
    modifyObj fun o => { o with globDescriptionEvent := none }
    setError "std::bad_alloc"
    endReplication
    pure false

/-- `process_replication_thread_fnc`: the packets it gets before it ends, and what
it sees of `need_stop`. -/
def processReplicationThreadFnc (needStop : Nat → Bool) (binlogOpen : Option String)
    (packets : List Packet) : ListenM Unit := do
  if ← threadStart os binlogOpen then
    match ← replicationLoop lib os needStop 0 packets with
    | .done => endReplication
    | .next _ => pure ()
  else pure ()

end RplListener
