import RplListener.Lib.Interleave
import RplListener.Listener.Prepare

/-!
# Client threads and the replication thread

The methods of a listener as programs that are interleaved: every look at
`state`, every compare-and-swap, every callback and every change of what the
threads share is a step of its own. A thread that halts is one whose process
has crashed.

A cancellation is served where the thread has enabled it. The marks of `history`
say who has come how far; no function looks at them.
-/

namespace RplListener

open Bytes Refine Interleave

-- ---------------------------------------------------------------------------
-- What is shared
-- ---------------------------------------------------------------------------

/-- Who takes a step: a client thread or the `k`-th replication thread. -/
inductive Tid where
  | client (n : Nat)
  | repl (k : Nat)
  deriving DecidableEq, Repr

inductive Milestone where
  | preparePassed
  | prepareDone
  | startPassed
  | threadCreated
  deriving DecidableEq, Repr

/-- The listener and what its threads share. An error structure is named by a
number; `threads` has those of the replication threads in the order in which they
were created. -/
structure Shared where
  obj : Listener
  calls : List Call := []
  heap : Heap := {}
  errors : Nat → Option ReplLogXError := fun _ => none
  myConn : Bool := false
  conn : Connection := .closed
  serverVersion : List UInt8 := []
  needStop : Bool := false
  threads : List Nat := []
  /-- The threads that were told to end. -/
  cancelled : Nat → Bool := fun _ => false
  /-- The threads that have cancellation disabled. -/
  disabled : Nat → Bool := fun _ => false
  history : List (Tid × Milestone) := []

namespace Shared

def world (slot : Nat) (s : Shared) : World where
  obj := s.obj
  error := s.errors slot
  calls := s.calls
  heap := s.heap

def withWorld (slot : Nat) (w : World) (s : Shared) : Shared :=
  { s with
    obj := w.obj
    calls := w.calls
    heap := w.heap
    errors := Function.update s.errors slot w.error }

def worldPart (slot : Nat) : Part Shared World where
  get := world slot
  set := withWorld slot
  get_set w s := by simp [world, withWorld]
  set_set w w' s := by simp [withWorld]

def client (slot : Nat) (s : Shared) : Client where
  world := s.world slot
  myConn := s.myConn
  conn := s.conn
  serverVersion := s.serverVersion

def withClient (slot : Nat) (c : Client) (s : Shared) : Shared :=
  { s.withWorld slot c.world with
    myConn := c.myConn
    conn := c.conn
    serverVersion := c.serverVersion }

def clientPart (slot : Nat) : Part Shared Client where
  get := client slot
  set := withClient slot
  get_set c s := by simp [client, withClient, world, withWorld]
  set_set c c' s := by simp [withClient, withWorld]

end Shared

abbrev Code := Prog Crash Shared

def onObj {α : Type} (slot : Nat) (x : ListenM α) : Code α := atomic (zoom (Shared.worldPart slot) x)

def onClient {α : Type} (slot : Nat) (x : ClientM α) : Code α :=
  atomic (zoom (Shared.clientPart slot) x)

def readObj : Code Listener := atomic do pure (← get).obj

def isError (slot : Nat) : Code Bool := atomic do pure ((← get).errors slot).isSome

def readNeedStop : Code Bool := atomic do pure (← get).needStop

def record (me : Tid) (m : Milestone) : EStateM Crash Shared Unit :=
  modify fun s => { s with history := s.history ++ [(me, m)] }

def swapFirst (me : Tid) (old new : ReplState) (m : Milestone) : EStateM Crash Shared Bool := do
  if (← get).obj.state = old then
    modify fun s => { s with obj := { s.obj with state := new } }
    record me m
    pure true
  else pure false

namespace Interleaved

variable (lib : Library) (os : Allocator) (slot : Nat)

-- ---------------------------------------------------------------------------
-- process_event
-- ---------------------------------------------------------------------------

abbrev access : Access Code := ⟨readObj, onObj slot⟩

mutual

def processEvent : LogEvent → Code Unit
  | .leaf ev => (access slot).handleLeaf lib os ev
  | .transactionPayload _ payload => do
    onObj slot clearError
    if (← readObj).globDescriptionEvent.isNone then onObj slot (throw .memory)
    else processPayload payload

def processPayload : Payload → Code Unit
  | .nil => pure ()
  | .failed desc => onObj slot (setError desc)
  | .cons ev rest => do
    processEvent ev
    if ← isError slot then pure ()
    else if ← readNeedStop then pure ()
    else processPayload rest

end

-- ---------------------------------------------------------------------------
-- The replication thread
-- ---------------------------------------------------------------------------

/-- One turn of the loop, after the fetch: whether it ends with `break`. -/
def turn : Packet → Code Bool
  | .fetchError desc => do
    onObj slot (setErrorMySQL desc)
    pure true
  | .eof => do
    onObj slot (setError "mysql_binlog_fetch() EOF received")
    pure true
  | .failed size desc => do
    onObj slot (setSize size)
    onObj slot (setError desc)
    pure true
  | .heartbeat size when => do
    onObj slot (setSize size)
    (access slot).processHeartbeat when
    if ← isError slot then pure true else readNeedStop
  | .event size ev => do
    onObj slot (setSize size)
    processEvent lib os slot ev
    if ← isError slot then pure true
    else
      onObj slot advance
      readNeedStop

def enableCancel (k : Nat) : Code Unit :=
  atomic (modify fun s => { s with disabled := Function.update s.disabled k false })

/-- `pthread_setcancelstate( PTHREAD_CANCEL_DISABLE )`: whether the thread gets so far. -/
def disableCancel (k : Nat) : Code Bool := atomic do
  if (← get).cancelled k then pure false
  else
    modify fun s => { s with disabled := Function.update s.disabled k true }
    pure true

def endReplication : Code Unit := do
  onClient slot closeConn
  onObj slot (swapState .inprocess1 .ended)
  onObj slot (swapState .inprocess .ended)

def abortThread : Code Unit := do
  onClient slot closeConn
  if (← readObj).positionWasSetted then onObj slot (swapState .inprocess .ended)
  else onObj slot (swapState .inprocess1 .ended)

def threadStart (binlogOpen : Option String) : Code Bool := do
  if ← onObj slot (zoom World.heapPart (Heap.attempt os)) then
    onObj slot (modifyObj fun o => { o with globDescriptionEvent := some ⟨false⟩ })
    onObj slot (modifyObj fun o => { o with globTableMapEvents := [] })
    match binlogOpen with
    | some desc =>
      onObj slot (setErrorMySQL desc)
      abortThread slot
      pure false
    | none => pure true
  else
    onObj slot (modifyObj fun o => { o with globDescriptionEvent := none })
    onObj slot (setError "std::bad_alloc")
    abortThread slot
    pure false

/-- The loop of thread `k`. The packets it gets may end before it does: it waits
for the next one then. -/
def replicationLoop (k : Nat) : List Packet → Code Unit
  | [] => do
    enableCancel k
    waitFor fun _ => false
  | p :: ps => do
    enableCancel k
    if ← disableCancel k then
      if ← turn lib os slot p then endReplication slot else replicationLoop k ps
    else pure ()

/-- The thread waits for the state that the parent thread sets last. -/
def awaitStart : Code Unit := do
  if (← readObj).positionWasSetted then waitFor fun s => s.obj.state = .inprocess
  else waitFor fun s => s.obj.state = .inprocess1

/-- `process_replication_thread_fnc`, as soon as the `k`-th thread was created. -/
def processReplicationThreadFnc (k : Nat) (binlogOpen : Option String) (packets : List Packet) :
    Code Unit := do
  waitFor fun s => k < s.threads.length
  let slot ← atomic do pure ((← get).threads.getD k 0)
  enableCancel k
  onObj slot clearError
  awaitStart
  if ← disableCancel k then
    if ← threadStart os slot binlogOpen then replicationLoop lib os slot k packets else pure ()
  else pure ()

-- ---------------------------------------------------------------------------
-- table_add and prepare_replication
-- ---------------------------------------------------------------------------

def addTable (dbName tblName : List UInt8) : ListenM Unit :=
  modifyObj fun o =>
    { o with
      tables := o.tables ++ [{ dbName := storedName dbName, tblName := storedName tblName }] }

def tableAdd (dbName tblName : List UInt8) : Code Nat := do
  if (← readObj).state ≠ .created then pure 500
  else if ← onObj slot (zoom World.heapPart (Heap.attempt os)) then
    onObj slot (addTable dbName tblName)
    pure 0
  else pure 700

def abandon (fail : ListenM Unit) : Code Unit := do
  onObj slot fail
  onObj slot (swapState .postCreated .ended)

def giveUp (fail : ListenM Unit) : Code Unit := do
  onObj slot fail
  onClient slot closeConn
  onObj slot (swapState .postCreated .ended)

def unlessError (error : Option String) (rest : Code Unit) : Code Unit :=
  match error with
  | some desc => giveUp slot (setErrorMySQL desc)
  | none => rest

def demand (ok : Bool) (desc : String) (rest : Code Unit) : Code Unit :=
  if ok then rest else giveUp slot (setError desc)

def withRows {ρ : Type} (answer : Answer ρ) (rest : List ρ → Code Unit) : Code Unit :=
  match answer with
  | .queryError desc => giveUp slot (setErrorMySQL desc)
  | .storeError desc => giveUp slot (setErrorMySQL desc)
  | .rows rows => rest rows

variable (me : Tid) (calls : ServerCalls)

/-- The last compare-and-swap of `prepare_replication`; only the return follows. -/
def finishPrepare : Code Unit := atomic do
  zoom (Shared.worldPart slot) (swapState .postCreated .prepared)
  record me .prepareDone

def preparePosition : Code Unit := do
  if (← readObj).mLogNm = [] then
    onObj slot (modifyObj fun o => { o with positionWasSetted := false })
    match calls.masterStatus with
    | .queryError desc => giveUp slot (setErrorMySQL desc)
    | .storeError desc => abandon slot (setErrorMySQL desc)
    | .rows [] => giveUp slot (setErrorMySQL calls.noStatus)
    | .rows ((some name, some pos) :: _) => do
      onObj slot (setPosition name pos)
      finishPrepare slot me
    | .rows (_ :: _) =>
      giveUp slot (setError "Could not find master log and pos. Master returned NULL!")
  else
    onObj slot (modifyObj fun o => { o with positionWasSetted := true })
    finishPrepare slot me

def prepareVariables : Code Unit :=
  withRows slot calls.showVariables fun rows => do
    let v ← onClient slot (readVariables rows {})
    demand slot v.binlogFormat "Server variable 'binlog_format' not setted to ROW" <|
      demand slot v.binlogRowImage "Server variable 'binlog_row_image' not setted to FULL" <|
      demand slot v.binlogRowMetadata "Server variable 'binlog_row_metadata' not setted to FULL" <|
      demand slot v.gtidMode "Server variable 'gtid_mode' not setted to OFF" <|
      unlessError slot calls.checksum <|
      unlessError slot calls.heartbeatPeriod <|
      preparePosition slot me calls

def prepareVersion : Code Unit :=
  withRows slot calls.version fun
    | [] => giveUp slot (setError
        "Could not find server version. Master returned no rows for SELECT VERSION()")
    | none :: _ => giveUp slot (setError
        "Could not find server version. Master reported NULL for SELECT VERSION()")
    | some version :: _ => do
      onClient slot (modify fun c => { c with serverVersion := (cstr version).take 59 })
      demand slot ((cstr version).take 59 ≠ [])
        "Could not find server version. Master reported empty string for SELECT VERSION()"
        (prepareVariables slot me calls)

def prepareConnection : Code Unit := do
  onClient slot (modify fun c => { c with myConn := calls.init })
  if calls.init then
    onClient slot (modify fun c => { c with conn := .initialized })
    unlessError slot calls.connect do
      onClient slot (modify fun c => { c with conn := .connected })
      prepareVersion slot me calls
  else abandon slot (setError "mysql_init() failed!!!")

def prepareReplication : Code Unit := do
  onObj slot clearError
  if ← atomic (swapFirst me .created .postCreated .preparePassed) then
    if (← readObj).tables.isEmpty then
      abandon slot
        (setError "tables are empry!!! call method table_add() to fill list of tables!!!")
    else prepareConnection slot me calls
  else onObj slot (setError "prepare_replication() ERROR ORDER!!!")

-- ---------------------------------------------------------------------------
-- start_replication and stop_replication
-- ---------------------------------------------------------------------------

/-- The first of the thread functions that fails, if one does. -/
inductive ThreadCalls where
  | noAttr
  | noDetachState
  | noThread
  | created
  deriving DecidableEq, Repr

def failStart (desc : String) : Code Unit := do
  onObj slot (setError desc)
  onObj slot (swapState .postPrepared .ended)

def createThread : Code Unit := atomic do
  modify fun s => { s with threads := s.threads ++ [slot] }
  record me .threadCreated

def setNeedStop (b : Bool) : Code Unit := atomic (modify fun s => { s with needStop := b })

def startReplication (thread : ThreadCalls) : Code Unit := do
  onObj slot clearError
  if ← atomic (swapFirst me .prepared .postPrepared .startPassed) then
    match thread with
    | .noAttr => failStart slot "Can not init attr for replication thread!!!"
    | .noDetachState =>
      failStart slot "Can not set PTHREAD_CREATE_JOINABLE on attr for replication thread!!!"
    | .noThread => do
      setNeedStop false
      failStart slot "Can not create replication thread!!!"
    | .created => do
      setNeedStop false
      createThread slot me
      if (← readObj).positionWasSetted then onObj slot (swapState .postPrepared .inprocess)
      else onObj slot (swapState .postPrepared .inprocess1)
  else onObj slot (setError "start_replication() ERROR ORDER!!!")

def inProcessGlobal : Code Bool := do
  let st := (← readObj).state
  pure (st == .inprocess1 || st == .inprocess)

/-- `in_process`: the phase, or `CREATED` when replication is off. -/
def inProcess : Code ReplState := do
  let st := (← readObj).state
  if st = .inprocess ∨ st = .inprocess1 then pure st else pure .created

def awaitEnd : (looks : Nat) → Code Unit
  | 0 => pure ()
  | looks + 1 => do
    if ← inProcessGlobal then awaitEnd looks else pure ()

/-- `pthread_cancel( repl_thread )`, for the thread that was created last. -/
def cancelThread : Code Unit :=
  atomic (modify fun s => { s with cancelled := Function.update s.cancelled (s.threads.length - 1) true })

/-- `ret` is what `pthread_cancel` returns; a join changes nothing here. -/
def stopReplication (ret : Nat) : Code Nat := do
  if ← inProcessGlobal then
    setNeedStop true
    awaitEnd 41
    if ← inProcessGlobal then
      cancelThread
      onObj slot (swapState .inprocess1 .ended)
      onObj slot (swapState .inprocess .ended)
      pure ret
    else pure 0
  else pure 0

-- ---------------------------------------------------------------------------
-- Looking at the listener
-- ---------------------------------------------------------------------------

/-- The copies are made in one step. -/
def getTablemapEvents : Code (Option (List (List UInt8))) := do
  onObj slot clearError
  if (← readObj).state ≠ .ended then
    onObj slot (setError "get_tablemap_events() ERROR ORDER!!!")
    pure none
  else
    let o ← readObj
    let copied ← onObj slot (zoom World.heapPart do
      if ← Heap.attempt os then copyTablemapEvents os o.globTableMapEvents
      else pure (.error "std::bad_alloc"))
    match copied with
    | .ok bufs => pure (some bufs)
    | .error desc =>
      onObj slot (setError desc)
      pure none

/-- `get_last_sucessful_position`, with a buffer of `maxlen` bytes for the name. -/
def getLastSucessfulPosition (maxlen : Nat) : Code (List UInt8 × Nat) := do
  if (← readObj).rpl.fileNameSet then
    let file := (cstr (← readObj).mLogNm).take (maxlen - 1)
    let pos := (← readObj).rpl.startPosition
    pure (file, pos)
  else pure ([], 0)

end Interleaved

-- ---------------------------------------------------------------------------
-- The whole
-- ---------------------------------------------------------------------------

/-- A call of a client, with what the server and the thread functions answer. -/
inductive ClientCall where
  | tableAdd (dbName tblName : List UInt8)
  | prepareReplication (slot : Nat) (calls : ServerCalls)
  | startReplication (slot : Nat) (thread : Interleaved.ThreadCalls)
  | stopReplication (ret : Nat)
  | getTablemapEvents (slot : Nat)
  | getLastSucessfulPosition (maxlen : Nat)
  | inProcess

def ClientCall.code (os : Allocator) (me : Tid) : ClientCall → Code Unit
  | .tableAdd dbName tblName => do
    let _ ← Interleaved.tableAdd os 0 dbName tblName
  | .prepareReplication slot calls => Interleaved.prepareReplication slot me calls
  | .startReplication slot thread => Interleaved.startReplication slot me thread
  | .stopReplication ret => do
    let _ ← Interleaved.stopReplication 0 ret
  | .getTablemapEvents slot => do
    let _ ← Interleaved.getTablemapEvents os slot
  | .getLastSucessfulPosition maxlen => do
    let _ ← Interleaved.getLastSucessfulPosition maxlen
  | .inProcess => do
    let _ ← Interleaved.inProcess

def clientCode (os : Allocator) (me : Tid) : List ClientCall → Code Unit
  | [] => pure ()
  | c :: cs => do
    c.code os me
    clientCode os me cs

structure Scenario where
  clients : Nat → List ClientCall
  binlogOpen : Nat → Option String
  packets : Nat → List Packet

def Scenario.code (lib : Library) (os : Allocator) (sc : Scenario) : Tid → Code Unit
  | .client n => clientCode os (.client n) (sc.clients n)
  | .repl k => Interleaved.processReplicationThreadFnc lib os k (sc.binlogOpen k) (sc.packets k)

def Scenario.system (lib : Library) (os : Allocator) (sc : Scenario) (o : Listener) (heap : Heap) :
    System Tid Crash Shared where
  state := { obj := o, heap }
  code := sc.code lib os

end RplListener
