import RplListener.Listener.LifeCycle

/-!
# Preparing a listener

`prepare_replication` call by call: what the client library answers to each
query, the connection behind `my_conn`, and the exits that give it back.
-/

namespace RplListener

open Bytes Refine

-- ---------------------------------------------------------------------------
-- The client library
-- ---------------------------------------------------------------------------

abbrev Field := Option (List UInt8)

/-- A query and its result. An error of `mysql_query` or `mysql_store_result`
comes with the text of `mysql_error`; `mysql_fetch_row` gets the rows in order. -/
inductive Answer (ρ : Type) where
  | queryError (desc : String)
  | storeError (desc : String)
  | rows (rows : List ρ)

/-- What the library answers. `noStatus` is the text of `mysql_error` when no row
was fetched. -/
structure ServerCalls where
  init : Bool
  connect : Option String
  version : Answer Field
  showVariables : Answer (Field × Field)
  checksum : Option String
  heartbeatPeriod : Option String
  masterStatus : Answer (Field × Field)
  noStatus : String

inductive Connection where
  | closed | initialized | connected
  deriving DecidableEq, Repr

/-- The listener with its connection; `myConn` is whether the pointer is not NULL. -/
structure Client where
  world : World
  myConn : Bool := false
  conn : Connection := .closed
  serverVersion : List UInt8 := []

def Client.worldPart : Part Client World :=
  ⟨Client.world, fun w c => { c with world := w }, fun _ _ => rfl, fun _ _ _ => rfl⟩

abbrev ClientM := EStateM Crash Client

def onWorld {α : Type} (x : ListenM α) : ClientM α := zoom Client.worldPart x

-- ---------------------------------------------------------------------------
-- The exits
-- ---------------------------------------------------------------------------

def closeConn : ClientM Unit := do
  modify fun c => { c with conn := .closed }
  modify fun c => { c with myConn := false }

def giveUp (fail : ListenM Unit) : ClientM Unit := do
  onWorld fail
  closeConn
  onWorld (swapState .postCreated .ended)

def unlessError (error : Option String) (rest : ClientM Unit) : ClientM Unit :=
  match error with
  | some desc => giveUp (setErrorMySQL desc)
  | none => rest

def demand (ok : Bool) (desc : String) (rest : ClientM Unit) : ClientM Unit :=
  if ok then rest else giveUp (setError desc)

def withRows {ρ : Type} (answer : Answer ρ) (rest : List ρ → ClientM Unit) : ClientM Unit :=
  match answer with
  | .queryError desc => giveUp (setErrorMySQL desc)
  | .storeError desc => giveUp (setErrorMySQL desc)
  | .rows rows => rest rows

-- ---------------------------------------------------------------------------
-- The variables
-- ---------------------------------------------------------------------------

/-- `strcmp( field, text ) == 0`: no comparison with NULL. -/
def strcmpEq (field : Field) (text : String) : ClientM Bool :=
  match field with
  | some s => pure (cstr s == ascii text)
  | none => throw .memory

def testVariable (row : Field × Field) (name value : String) (ok : Bool) : ClientM Bool := do
  if ← strcmpEq row.1 name then
    if ← strcmpEq row.2 value then pure true else pure ok
  else pure ok

structure VariablesOk where
  binlogFormat : Bool := false
  binlogRowImage : Bool := false
  binlogRowMetadata : Bool := false
  gtidMode : Bool := false

def readVariables : (rows : List (Field × Field)) → VariablesOk → ClientM VariablesOk
  | [], v => pure v
  | row :: rows, v => do
    let binlogFormat ← testVariable row "binlog_format" "ROW" v.binlogFormat
    let binlogRowImage ← testVariable row "binlog_row_image" "FULL" v.binlogRowImage
    let binlogRowMetadata ← testVariable row "binlog_row_metadata" "FULL" v.binlogRowMetadata
    let gtidMode ← testVariable row "gtid_mode" "OFF" v.gtidMode
    readVariables rows { binlogFormat, binlogRowImage, binlogRowMetadata, gtidMode }

-- ---------------------------------------------------------------------------
-- prepare_replication
-- ---------------------------------------------------------------------------

namespace Client

/-- The position that was not given to the constructor is asked of the server.
The exit for `mysql_store_result` keeps the connection. -/
def preparePosition (calls : ServerCalls) : ClientM Unit := do
  if (← get).world.obj.mLogNm = [] then
    onWorld (modifyObj fun o => { o with positionWasSetted := false })
    match calls.masterStatus with
    | .queryError desc => giveUp (setErrorMySQL desc)
    | .storeError desc => onWorld (abandon (setErrorMySQL desc))
    | .rows [] => giveUp (setErrorMySQL calls.noStatus)
    | .rows ((some name, some pos) :: _) =>
      onWorld (setPosition name pos)
      onWorld (swapState .postCreated .prepared)
    | .rows (_ :: _) =>
      giveUp (setError "Could not find master log and pos. Master returned NULL!")
  else
    onWorld (modifyObj fun o => { o with positionWasSetted := true })
    onWorld (swapState .postCreated .prepared)

def prepareVariables (calls : ServerCalls) : ClientM Unit :=
  withRows calls.showVariables fun rows => do
    let v ← readVariables rows {}
    demand v.binlogFormat "Server variable 'binlog_format' not setted to ROW" <|
      demand v.binlogRowImage "Server variable 'binlog_row_image' not setted to FULL" <|
      demand v.binlogRowMetadata "Server variable 'binlog_row_metadata' not setted to FULL" <|
      demand v.gtidMode "Server variable 'gtid_mode' not setted to OFF" <|
      unlessError calls.checksum <|
      unlessError calls.heartbeatPeriod <|
      preparePosition calls

/-- `server_version` has 60 bytes. -/
def prepareVersion (calls : ServerCalls) : ClientM Unit :=
  withRows calls.version fun
    | [] => giveUp (setError
        "Could not find server version. Master returned no rows for SELECT VERSION()")
    | none :: _ => giveUp (setError
        "Could not find server version. Master reported NULL for SELECT VERSION()")
    | some version :: _ => do
      modify fun c => { c with serverVersion := (cstr version).take 59 }
      demand ((← get).serverVersion ≠ [])
        "Could not find server version. Master reported empty string for SELECT VERSION()"
        (prepareVariables calls)

def prepareConnection (calls : ServerCalls) : ClientM Unit := do
  modify fun c => { c with myConn := calls.init }
  if calls.init then
    modify fun c => { c with conn := .initialized }
    unlessError calls.connect do
      modify fun c => { c with conn := .connected }
      prepareVersion calls
  else onWorld (abandon (setError "mysql_init() failed!!!"))

def prepareReplication (calls : ServerCalls) : ClientM Unit := do
  onWorld clearError
  if (← get).world.obj.state ≠ .created then
    onWorld (setError "prepare_replication() ERROR ORDER!!!")
  else
    onWorld (swapState .created .postCreated)
    if (← get).world.obj.tables.isEmpty then
      onWorld (abandon
        (setError "tables are empry!!! call method table_add() to fill list of tables!!!"))
    else prepareConnection calls

end Client

def addTables (os : Allocator) : (adds : List (List UInt8 × List UInt8)) → ClientM Unit
  | [] => pure ()
  | (dbName, tblName) :: adds => do
    let _ ← onWorld (tableAdd os dbName tblName)
    addTables os adds

/-- `mysql_rpl_listener__prepare`; `rplH` is whether the handle holds a listener. -/
def mysqlRplListenerPrepare (rplH : Bool) (calls : ServerCalls) : ClientM Nat := do
  onWorld clearError
  if rplH then
    Client.prepareReplication calls
    if (← get).world.error.isSome then pure 1020 else pure 0
  else pure 1010

end RplListener
