import RplListener.Listener.LifeCycle
import RplListener.Listener.Visits

/-!
# Handing the table maps over

The way of saved table maps from a listener that has ended to a new one. The
constructor takes them in, and the thread of the new listener clears them before
it handles its first event.
-/

namespace RplListener

open Bytes Refine

variable {lib : Library} {os : Allocator} {deserialize : Deserialize} {w w' : World}

-- ---------------------------------------------------------------------------
-- The way
-- ---------------------------------------------------------------------------

variable (os deserialize) in
/-- The table maps of `old` are saved and given to a new listener with the other
arguments, which gets a table, is prepared and is started: whether all of it
succeeds. -/
def handOver (old : Listener) (args : InitArgs) (dbName tblName : List UInt8) (server : Server) :
    ListenM Bool := do
  match ← zoom World.heapPart (getTablemapEvents os old) with
  | .error _ => pure false
  | .ok bufs =>
    let o ← zoom World.heapPart (newListener os deserialize { args with tblmapsCollection := some bufs })
    modifyObj fun _ => o
    if (← tableAdd os dbName tblName) ≠ 0 then pure false
    else
      prepareReplication server
      if (← get).error.isSome then pure false
      else
        startReplication none
        if (← get).error.isSome then pure false else threadStart os none

theorem threadStart_maps {binlogOpen : Option String}
    (h : (threadStart os binlogOpen).run w = .ok true w') : w'.obj.globTableMapEvents = [] := by
  obtain ⟨_, _, -, h⟩ := run_bind_inv h
  obtain ⟨_, _, -, h⟩ := run_bind_inv h
  split at h
  case isTrue =>
    obtain ⟨_, w₁, hclear, h⟩ := run_bind_inv h
    cases hclear
    cases binlogOpen with
    | none =>
      cases h
      rfl
    | some desc =>
      obtain ⟨_, _, -, h⟩ := run_bind_inv h
      obtain ⟨_, _, -, h⟩ := run_bind_inv h
      cases h
  case isFalse =>
    obtain ⟨_, _, -, h⟩ := run_bind_inv h
    obtain ⟨_, _, -, h⟩ := run_bind_inv h
    obtain ⟨_, _, -, h⟩ := run_bind_inv h
    cases h

/-- Nothing that was saved is there when the thread gets to its first event. -/
theorem handOver_maps {old : Listener} {args : InitArgs} {dbName tblName : List UInt8}
    {server : Server}
    (h : (handOver os deserialize old args dbName tblName server).run w = .ok true w') :
    w'.obj.globTableMapEvents = [] := by
  obtain ⟨saved, _, -, h⟩ := run_bind_inv h
  cases saved with
  | error desc => cases h
  | ok bufs =>
    obtain ⟨o, _, -, h⟩ := run_bind_inv h
    obtain ⟨_, _, -, h⟩ := run_bind_inv h
    obtain ⟨_, _, -, h⟩ := run_bind_inv h
    split at h
    case isTrue => cases h
    case isFalse =>
      obtain ⟨_, w₁, -, h⟩ := run_bind_inv h
      rw [run_get_bind] at h
      split at h
      case isTrue => cases h
      case isFalse =>
        obtain ⟨_, w₂, -, h⟩ := run_bind_inv h
        rw [run_get_bind] at h
        split at h
        case isTrue => cases h
        case isFalse => exact threadStart_maps h

-- ---------------------------------------------------------------------------
-- What survives
-- ---------------------------------------------------------------------------

/-- The two events say the same, whatever buffers they were read from. -/
def TableMapLogEvent.Same (ev ev' : TableMapLogEvent) : Prop :=
  { ev with tempBuf := [] } = { ev' with tempBuf := [] }

variable (lib os) in
/-- Every table of the old listener is known in the state `w`, so that a rows
event does not fail for want of its table map. -/
structure Survives (old : Listener) (w : World) : Prop where
  resolves : ∀ id ev, old.globTableMapEvents.find id = some ev →
    ∃ ev', w.obj.globTableMapEvents.find id = some ev' ∧ ev.Same ev'
  decodes : ∀ ev isRows, (old.mapOf ev).isSome → ∀ w',
    (handleLeaf lib os (.rows ev isRows)).run w = .ok () w' → w'.error ≠ some rowsEventError

theorem TableMapEvents.find_cons_self (id : Nat) (ev : TableMapLogEvent) (m : TableMapEvents) :
    TableMapEvents.find ((id, ev) :: m) id = some ev := by
  simp [TableMapEvents.find]

/-- Saved table maps survive exactly when there are none. -/
theorem handOver_survives_iff {old : Listener} {args : InitArgs} {dbName tblName : List UInt8}
    {server : Server}
    (hrun : (handOver os deserialize old args dbName tblName server).run w = .ok true w') :
    Survives lib os old w' ↔ old.globTableMapEvents = [] := by
  constructor
  · intro hs
    cases hm : old.globTableMapEvents with
    | nil => rfl
    | cons x m =>
      have hfind := TableMapEvents.find_cons_self x.1 x.2 m
      obtain ⟨ev', hev', -⟩ := hs.resolves x.1 x.2 (hm ▸ hfind)
      rw [handOver_maps hrun] at hev'
      cases hev'
  · intro hm
    refine ⟨fun id ev h => ?_, fun ev isRows h => ?_⟩
    · rw [hm] at h
      cases h
    · rw [Listener.mapOf, hm] at h
      cases h

def sampleServer : Server where
  init := true
  connect := none
  version := .ok [some (ascii "8.0.0")]
  showVariables := .ok ([("binlog_format", "ROW"), ("binlog_row_image", "FULL"),
    ("binlog_row_metadata", "FULL"), ("gtid_mode", "OFF")].map fun p => (ascii p.1, ascii p.2))
  checksum := none
  heartbeatPeriod := none
  masterStatus := .ok (none, none)

def sampleArgs : InitArgs where
  onRow := true
  onHeartbeat := true
  onTransaction := true
  disp := ⟨true, false, false⟩
  masterFileName := some (ascii "b.000001")
  masterFilePos := 156

def savedBytes : List UInt8 := [0, 0, 0, 0, 19, 1, 0, 0, 0, 13, 0, 0, 0]

def savedTable : TableMapLogEvent := { sampleTable with tempBuf := savedBytes }

def deserializeSaved : Deserialize := fun buf => if buf = savedBytes then some savedTable else none

def endedListener (m : TableMapEvents) : Listener :=
  { (sampleWorld true true true).obj with state := .ended, globTableMapEvents := m }

def handOverSample (m : TableMapEvents) : EStateM.Result Crash World Bool :=
  (handOver sampleAllocator deserializeSaved (endedListener m) sampleArgs (ascii "d") (ascii "t")
    sampleServer).run (sampleWorld true true true)

theorem handOver_survives_sample : ∃ w', handOverSample [] = .ok true w' ∧
    Survives sampleLibrary sampleAllocator (endedListener []) w' := by
  obtain ⟨b, w', hrun, hb⟩ := exists_of_returned
    (show returned (fun b _ => b) (handOverSample []) = true by decide +kernel)
  cases hb
  exact ⟨w', hrun, (handOver_survives_iff hrun).mpr rfl⟩

/-- A saved table is unknown to the new thread, and its rows event fails. -/
theorem savedTable_lost : (∀ p ∈ [(1, savedTable)], deserializeSaved p.2.tempBuf = some p.2) ∧
    ∃ w', handOverSample [(1, savedTable)] = .ok true w' ∧
      (∃ w'', (handleLeaf sampleLibrary sampleAllocator sampleRows).run w' = .ok () w'' ∧
        w''.error = some rowsEventError) ∧
      ¬ Survives sampleLibrary sampleAllocator (endedListener [(1, savedTable)]) w' := by
  refine ⟨by simp [deserializeSaved, savedTable], ?_⟩
  obtain ⟨b, w', hrun, hb⟩ := exists_of_returned (show returned
    (fun b w' => b && returned (fun _ w'' => w''.error == some rowsEventError)
      ((handleLeaf sampleLibrary sampleAllocator sampleRows).run w'))
    (handOverSample [(1, savedTable)]) = true by decide +kernel)
  obtain ⟨rfl, hrows⟩ : b = true ∧ _ := by simpa using hb
  obtain ⟨_, w'', hrows, herr⟩ := exists_of_returned hrows
  have herr : w''.error = some rowsEventError := by simpa using herr
  refine ⟨w', hrun, ⟨w'', hrows, herr⟩, fun hs => ?_⟩
  exact hs.decodes sampleInsert rfl rfl w'' hrows herr

end RplListener
