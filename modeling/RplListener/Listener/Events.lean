import RplListener.Listener.Prepare
import RplListener.Lib.Owned

/-!
# The objects behind the events

Who creates an event and who deletes it. The listener keeps its description event
and its table maps by pointers; every other event is deleted where it was handled.
An event owns the buffer it was read from. The programs here are those of the
listener with their `new`, `delete` and looks at kept events added.
-/

namespace RplListener

open Bytes Refine

-- ---------------------------------------------------------------------------
-- Kept events
-- ---------------------------------------------------------------------------

/-- `glob_description_event` and `glob_table_map_events`, by the names of their objects. -/
structure Keeper where
  description : Option Nat := none
  tableMaps : List (Nat × Nat) := []
  deriving DecidableEq, Repr

namespace Keeper

variable (k : Keeper)

def mapIds : List Nat := k.tableMaps.map Prod.snd

def ids : List Nat := k.description.toList ++ k.mapIds

def find (tableId : Nat) : Option Nat := (k.tableMaps.find? fun x => x.1 == tableId).map Prod.snd

def without (tableId : Nat) : Keeper :=
  { k with tableMaps := k.tableMaps.filter fun x => x.1 != tableId }

def insert (tableId id : Nat) : Keeper := { k with tableMaps := (tableId, id) :: k.tableMaps }

end Keeper

/-- The listener with its connection, its events and the pointers to them. -/
structure EventWorld where
  client : Client
  events : Heap := {}
  keeper : Keeper := {}

namespace EventWorld

def clientPart : Part EventWorld Client :=
  ⟨EventWorld.client, fun c e => { e with client := c }, fun _ _ => rfl, fun _ _ _ => rfl⟩

def worldPart : Part EventWorld World :=
  ⟨fun e => e.client.world, fun w e => { e with client := { e.client with world := w } },
    fun _ _ => rfl, fun _ _ _ => rfl⟩

def eventsPart : Part EventWorld Heap :=
  ⟨EventWorld.events, fun h e => { e with events := h }, fun _ _ => rfl, fun _ _ _ => rfl⟩

def world (e : EventWorld) : World := e.client.world

end EventWorld

abbrev EventM := EStateM Crash EventWorld

namespace Events

def onWorld {α : Type} (x : ListenM α) : EventM α := zoom EventWorld.worldPart x

def onClient {α : Type} (x : ClientM α) : EventM α := zoom EventWorld.clientPart x

def newEvent : EventM Nat := do
  let e ← get
  set { e with events := e.events.granted }
  pure e.events.asked

def deleteEvent (id : Nat) : EventM Unit :=
  zoom EventWorld.eventsPart (Heap.free (Ptr.block id ()))

def useEvent (id : Nat) : EventM Unit := do
  if id ∈ (← get).events.live then pure () else throw .memory

def useDescription : EventM Unit := do
  match (← get).keeper.description with
  | some id => useEvent id
  | none => throw .memory

def setKeeper (f : Keeper → Keeper) : EventM Unit := modify fun e => { e with keeper := f e.keeper }

-- ---------------------------------------------------------------------------
-- process_event
-- ---------------------------------------------------------------------------

def dropDescription : EventM Unit := do
  match (← get).keeper.description with
  | some old => do
    deleteEvent old
    setKeeper fun k => { k with description := none }
  | none => pure ()

def keepDescription (id : Nat) : EventM Unit := do
  dropDescription
  setKeeper fun k => { k with description := some id }

def dropTableMap (tableId : Nat) : EventM Unit := do
  match (← get).keeper.find tableId with
  | some old => do
    deleteEvent old
    setKeeper fun k => k.without tableId
  | none => pure ()

def keepTableMap (tableId id : Nat) : EventM Unit := do
  dropTableMap tableId
  setKeeper fun k => k.insert tableId id

/-- In `INPROCESS` the table map that is found is looked at. -/
def useTableMap (ev : RowsLogEvent2) : EventM Unit := do
  let e ← get
  if e.world.obj.state = .inprocess ∧ (e.world.obj.globTableMapEvents.find ev.tableId).isSome then
    match e.keeper.find ev.tableId with
    | some id => useEvent id
    | none => throw .memory
  else pure ()

section

variable (lib : Library) (os : Allocator)

def handleLeaf (id : Nat) (ev : LeafEvent) : EventM Unit := do
  useEvent id
  match ev with
  | .formatDescription when event => do
    keepDescription id
    onWorld (RplListener.handleLeaf lib os (.formatDescription when event))
  | .tableMap when event => do
    keepTableMap event.tableId id
    onWorld (RplListener.handleLeaf lib os (.tableMap when event))
  | .rows event isRows => do
    useTableMap event
    onWorld (RplListener.handleLeaf lib os (.rows event isRows))
    deleteEvent id
  | ev => do
    onWorld (RplListener.handleLeaf lib os ev)
    deleteEvent id

variable (needStop : Nat → Bool)

mutual

/-- `process_event` on the event `id`. -/
def processEvent (k id : Nat) : LogEvent → EventM Nat
  | .leaf ev => do
    handleLeaf lib os id ev
    pure k
  | .transactionPayload _ payload => do
    useEvent id
    onWorld clearError
    if (← get).world.obj.globDescriptionEvent.isNone then throw .memory
    else do
      useDescription
      let k ← processPayload k payload
      deleteEvent id
      pure k

def processPayload (k : Nat) : Payload → EventM Nat
  | .nil => pure k
  | .failed desc => do
    onWorld (setError desc)
    pure k
  | .cons ev rest => do
    useDescription
    let id ← newEvent
    let k ← processEvent k id ev
    if (← get).world.error.isSome then pure k
    else if needStop k then pure (k + 1)
    else processPayload (k + 1) rest

end

-- ---------------------------------------------------------------------------
-- The thread
-- ---------------------------------------------------------------------------

/-- A heartbeat is read into an event of its own. -/
def processHeartbeat (when : Nat) : EventM Unit := do
  if (← get).world.obj.globDescriptionEvent.isNone then onWorld (RplListener.processHeartbeat when)
  else do
    useDescription
    let id ← newEvent
    onWorld (RplListener.processHeartbeat when)
    deleteEvent id

def turn (k : Nat) : Packet → EventM Turn
  | .heartbeat size when => do
    onWorld (setSize size)
    processHeartbeat when
    if (← get).world.error.isSome then pure .done else pure (lookAgain needStop k)
  | .event size ev => do
    onWorld (setSize size)
    useDescription
    let id ← newEvent
    let k ← processEvent lib os needStop k id ev
    if (← get).world.error.isSome then pure .done
    else do
      onWorld advance
      pure (lookAgain needStop k)
  | p => onWorld (RplListener.turn lib os needStop k p)

def replicationLoop (k : Nat) : List Packet → EventM Turn
  | [] => pure (.next k)
  | p :: ps => do
    match ← turn lib os needStop k p with
    | .done => pure .done
    | .next k => replicationLoop k ps

def endReplication : EventM Unit := do
  onClient closeConn
  onWorld RplListener.endReplication

/-- The pointers of the constructor's events are overwritten. -/
def threadStart (binlogOpen : Option String) : EventM Bool := do
  onWorld clearError
  if ← onWorld (zoom World.heapPart (Heap.attempt os)) then
    let id ← newEvent
    setKeeper fun _ => { description := some id, tableMaps := [] }
    onWorld (modifyObj fun o =>
      { o with globDescriptionEvent := some ⟨false⟩, globTableMapEvents := [] })
    match binlogOpen with
    | some desc => do
      onWorld (setErrorMySQL desc)
      endReplication
      pure false
    | none => pure true
  else do
    setKeeper fun k => { k with description := none }
    onWorld (modifyObj fun o => { o with globDescriptionEvent := none })
    onWorld (setError "std::bad_alloc")
    endReplication
    pure false

def processReplicationThreadFnc (binlogOpen : Option String) (packets : List Packet) :
    EventM Unit := do
  if ← threadStart os binlogOpen then
    match ← replicationLoop lib os needStop 0 packets with
    | .done => endReplication
    | .next _ => pure ()
  else pure ()

end

-- ---------------------------------------------------------------------------
-- The constructor and the destructor
-- ---------------------------------------------------------------------------

section

variable (os : Allocator) (deserialize : Deserialize)

def loadTablemapEvents : (bufs : List (List UInt8)) → TableMapEvents → EventM TableMapEvents
  | [], m => pure m
  | buff :: bufs, m =>
    match buff[4]? with
    | none => throw .memory
    | some type =>
      if type ≠ tableMapEventCode then loadTablemapEvents bufs m
      else if buff.length < 13 then throw .memory
      else do
        if ← onWorld (zoom World.heapPart (Heap.attempt os)) then
          if buff.length < eventLen buff then throw .memory
          else
            let tempBuf := buff.take (eventLen buff)
            match deserialize tempBuf with
            | some ev => do
              useDescription
              let id ← newEvent
              keepTableMap ev.tableId id
              loadTablemapEvents bufs (m.store { ev with tempBuf })
            | none => pure m
        else pure m

/-- `mysql_rpl_listener_2`: the description event is for reading the collection only. -/
def newListener (a : InitArgs) : EventM Unit := do
  match a.masterFileName, a.tblmapsCollection with
  | some _, some bufs =>
    if ← onWorld (zoom World.heapPart (Heap.attempt os)) then
      let id ← newEvent
      setKeeper fun k => { k with description := some id }
      let globTableMapEvents ← loadTablemapEvents os deserialize bufs []
      deleteEvent id
      setKeeper fun k => { k with description := none }
      onWorld (modifyObj fun _ => { a.listener with globTableMapEvents })
    else onWorld (modifyObj fun _ => a.listener)
  | _, _ => onWorld (modifyObj fun _ => a.listener)

end

def freeColumns (info : TblInfo) : EStateM Crash Heap Unit :=
  if info.columns.isNull then pure () else Heap.free info.columns

/-- `tables_clear`: the caches are freed, and their pointers left. -/
def tablesClear : List ListeningTable → EStateM Crash Heap (List ListeningTable)
  | [] => pure []
  | t :: ts => do
    freeColumns t.info
    let ts ← tablesClear ts
    pure ({ t with info := { t.info with colCount := 0 } } :: ts)

def deleteTableMaps : List (Nat × Nat) → EventM Unit
  | [] => pure ()
  | (_, id) :: maps => do
    deleteEvent id
    deleteTableMaps maps

/-- `stop_replication`, when the thread waits for a packet and is cancelled there. -/
def stopWaiting : ListenM Unit := do
  if (← get).obj.state = .inprocess1 ∨ (← get).obj.state = .inprocess then
    RplListener.endReplication
  else pure ()

def closeMyConn : ClientM Unit := do
  if (← get).myConn then closeConn else pure ()

def destroy : EventM Unit := do
  onWorld stopWaiting
  onClient closeMyConn
  let tables ← onWorld (zoom World.heapPart (tablesClear (← get).world.obj.tables))
  onWorld (modifyObj fun o => { o with tables })
  dropDescription
  deleteTableMaps (← get).keeper.tableMaps
  setKeeper fun k => { k with tableMaps := [] }
  onWorld (modifyObj fun o => { o with globDescriptionEvent := none, globTableMapEvents := [] })

end Events

end RplListener
