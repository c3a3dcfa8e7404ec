import RplListener.Listener.Watched
import RplListener.Rows.RoundTrip

/-!
# What a run handles

A run of the replication loop handles heartbeats and single events, the events
of payloads among them. `visits` lists them in their order, each with the state
it was found in, and a property that every such step keeps is kept by the loop.
-/

namespace RplListener

open Bytes Refine

variable (lib : Library) (os : Allocator) (needStop : Nat → Bool)

/-- A step and the state it was taken in. -/
abbrev Visit := Handled × World

def handledOf (visits : List Visit) : List Handled := visits.map Prod.fst

@[simp] theorem handledOf_nil : handledOf [] = [] := rfl

@[simp] theorem handledOf_cons (v : Visit) (vs : List Visit) :
    handledOf (v :: vs) = v.1 :: handledOf vs := rfl

@[simp] theorem handledOf_append (vs vs' : List Visit) :
    handledOf (vs ++ vs') = handledOf vs ++ handledOf vs' := List.map_append

def World.withRpl (w : World) (rpl : MysqlRpl) : World := { w with obj := { w.obj with rpl } }

def World.withSize (w : World) (size : Nat) : World := w.withRpl { w.obj.rpl with size }

theorem setSize_run (w : World) (size : Nat) : (setSize size).run w = .ok () (w.withSize size) := rfl

mutual

def LogEvent.visits (k : Nat) : LogEvent → World → List Visit
  | .leaf ev, w => [(.event ev, w)]
  | .transactionPayload _ payload, w =>
    if w.obj.globDescriptionEvent.isNone then [] else payload.visits k { w with error := none }

def Payload.visits (k : Nat) : Payload → World → List Visit
  | .cons ev rest, w => ev.visits k w ++
    match (processEvent lib os needStop k ev).run w with
    | .ok k' w' =>
      if w'.error.isSome then [] else if needStop k' then [] else rest.visits (k' + 1) w'
    | .error _ _ => []
  | _, _ => []

end

def Packet.visits (k : Nat) (w : World) : Packet → List Visit
  | .heartbeat size when => [(.heartbeat when, w.withSize size)]
  | .event size ev => ev.visits lib os needStop k (w.withSize size)
  | _ => []

def loopVisits (k : Nat) : List Packet → World → List Visit
  | [], _ => []
  | p :: ps, w => p.visits lib os needStop k w ++
    match (turn lib os needStop k p).run w with
    | .ok (.next k') w' => loopVisits k' ps w'
    | _ => []

-- ---------------------------------------------------------------------------
-- Kept properties
-- ---------------------------------------------------------------------------

/-- A property of the state and of the visits so far, that a step keeps when it
starts in a state that meets `G`. What a crash leaves meets `E`, with the visits
up to it. -/
structure Invariant (I : World → List Visit → Prop) (G : Visit → Prop)
    (E : Crash → World → List Visit → Prop) : Prop where
  rpl : ∀ {w h} rpl, I w h → I (w.withRpl rpl) h
  fail : ∀ {w h} e, I w h → I (w.fail e) h
  step : ∀ {w h} x, w.error = none → I w h → G (x, w) →
    Triple (handle lib os x) w (fun _ w' => I w' (h ++ [(x, w)])) fun c w' => E c w' (h ++ [(x, w)])
  memory : ∀ {w h}, I w h → E .memory w h

variable {lib os needStop}
variable {I : World → List Visit → Prop} {G : Visit → Prop}
variable {E : Crash → World → List Visit → Prop}

theorem turn_next_error {k k' : Nat} {p : Packet} {w w' : World}
    (hrun : (turn lib os needStop k p).run w = .ok (.next k') w') : w'.error = none := by
  cases p with
  | fetchError | eof | failed => cases hrun
  | heartbeat size when =>
    unfold turn at hrun
    obtain ⟨_, _, -, hrun⟩ := run_bind_inv hrun
    obtain ⟨_, w₁, -, hrun⟩ := run_bind_inv hrun
    rw [run_get_bind] at hrun
    split at hrun
    case isTrue => cases hrun
    case isFalse h₁ =>
      obtain ⟨-, rfl⟩ := run_pure_inv hrun
      simpa using h₁
  | event size ev =>
    unfold turn at hrun
    obtain ⟨_, _, -, hrun⟩ := run_bind_inv hrun
    obtain ⟨_, w₁, -, hrun⟩ := run_bind_inv hrun
    rw [run_get_bind] at hrun
    split at hrun
    case isTrue => cases hrun
    case isFalse h₁ =>
      obtain ⟨_, w₂, hadvance, hrun⟩ := run_bind_inv hrun
      cases hadvance
      obtain ⟨-, rfl⟩ := run_pure_inv hrun
      simpa using h₁

namespace Invariant

theorem nothing {w : World} {h : List Visit} (hw : I w h) : I w (h ++ []) := by
  rwa [List.append_nil]

mutual

theorem processEvent (hI : Invariant lib os I G E) (k : Nat) (ev : LogEvent) {w : World}
    {h : List Visit} (he : w.error = none) (hw : I w h)
    (hG : ∀ v ∈ ev.visits lib os needStop k w, G v) :
    Triple (RplListener.processEvent lib os needStop k ev) w
      (fun _ w' => I w' (h ++ ev.visits lib os needStop k w))
      fun c w' => E c w' (h ++ ev.visits lib os needStop k w) := by
  match ev with
  | .leaf ev =>
    unfold RplListener.processEvent LogEvent.visits
    refine Triple.bind (hI.step (.event ev) he hw (hG (.event ev, w) (by simp [LogEvent.visits]))) ?_
    rintro _ w' hw'
    exact Triple.pure hw'
  | .transactionPayload when payload =>
    unfold RplListener.processEvent
    refine Triple.bind_run (clearError_run he) (Triple.get_bind ?_)
    unfold LogEvent.visits at hG ⊢
    rw [World.clear_of_none he] at hG ⊢
    split
    case isTrue => exact Triple.throw (by simpa using hI.memory hw)
    case isFalse hn =>
      rw [if_neg hn] at hG
      exact hI.processPayload k payload he hw hG

theorem processPayload (hI : Invariant lib os I G E) (k : Nat) (payload : Payload)
    {w : World} {h : List Visit} (he : w.error = none) (hw : I w h)
    (hG : ∀ v ∈ payload.visits lib os needStop k w, G v) :
    Triple (RplListener.processPayload lib os needStop k payload) w
      (fun _ w' => I w' (h ++ payload.visits lib os needStop k w))
      fun c w' => E c w' (h ++ payload.visits lib os needStop k w) := by
  match payload with
  | .nil =>
    unfold RplListener.processPayload Payload.visits
    exact Triple.pure (nothing hw)
  | .failed desc =>
    unfold RplListener.processPayload Payload.visits
    exact Triple.of_run (a := k) rfl (nothing (hI.fail ⟨false, clip 1024 desc⟩ hw))
  | .cons ev rest =>
    unfold RplListener.processPayload
    unfold Payload.visits at hG ⊢
    have hev := hI.processEvent k ev he hw fun v hv => hG v (List.mem_append_left _ hv)
    have hG' := fun v hv => hG v (List.mem_append_right _ hv)
    rw [← List.append_assoc]
    cases hrun : (RplListener.processEvent lib os needStop k ev).run w with
    | error c w' =>
      refine Triple.of_run_error (run_bind_error hrun _) ?_
      rw [List.append_nil]
      exact hev.error hrun
    | ok k' w' =>
      have hw' := hev.ok hrun
      simp only [hrun] at hG' ⊢
      refine Triple.bind_run hrun (Triple.get_bind ?_)
      split
      case isTrue => exact Triple.pure (nothing hw')
      case isFalse hn =>
        rw [if_neg hn] at hG'
        split
        case isTrue => exact Triple.pure (nothing hw')
        case isFalse hs =>
          rw [if_neg hs] at hG'
          exact hI.processPayload (k' + 1) rest (by simpa using hn) hw' hG'

end

theorem turn (hI : Invariant lib os I G E) (k : Nat) (p : Packet) {w : World} {h : List Visit}
    (he : w.error = none) (hw : I w h) (hG : ∀ v ∈ p.visits lib os needStop k w, G v) :
    Triple (RplListener.turn lib os needStop k p) w
      (fun _ w' => I w' (h ++ p.visits lib os needStop k w))
      fun c w' => E c w' (h ++ p.visits lib os needStop k w) := by
  cases p with
  | fetchError desc => exact Triple.of_run (a := .done) rfl (nothing (hI.fail _ hw))
  | eof => exact Triple.of_run (a := .done) rfl (nothing (hI.fail _ hw))
  | failed size desc => exact Triple.of_run (a := .done) rfl (nothing (hI.fail _ (hI.rpl _ hw)))
  | heartbeat size when =>
    refine Triple.bind_run (setSize_run w size) ?_
    refine Triple.bind (hI.step (.heartbeat when) he (hI.rpl _ hw) (hG (.heartbeat when, _) ?_)) ?_
    · exact List.mem_singleton.mpr rfl
    rintro _ w' hw'
    refine Triple.get_bind ?_
    split <;> exact Triple.pure hw'
  | event size ev =>
    refine Triple.bind_run (setSize_run w size) ?_
    refine Triple.bind (hI.processEvent k ev (w := w.withSize size) he (hI.rpl _ hw) hG) ?_
    rintro k' w' hw'
    refine Triple.get_bind ?_
    split
    case isTrue => exact Triple.pure hw'
    case isFalse => exact Triple.of_run (a := lookAgain needStop k') rfl (hI.rpl _ hw')

theorem replicationLoop (hI : Invariant lib os I G E) (packets : List Packet) (k : Nat) {w : World}
    {h : List Visit} (he : w.error = none) (hw : I w h)
    (hG : ∀ v ∈ loopVisits lib os needStop k packets w, G v) :
    Triple (RplListener.replicationLoop lib os needStop k packets) w
      (fun _ w' => I w' (h ++ loopVisits lib os needStop k packets w))
      fun c w' => E c w' (h ++ loopVisits lib os needStop k packets w) := by
  induction packets generalizing k w h with
  | nil => exact Triple.pure (nothing hw)
  | cons p ps ih =>
    unfold RplListener.replicationLoop
    unfold loopVisits at hG ⊢
    have hp := hI.turn k p he hw fun v hv => hG v (List.mem_append_left _ hv)
    have hG' := fun v hv => hG v (List.mem_append_right _ hv)
    rw [← List.append_assoc]
    cases hrun : (RplListener.turn lib os needStop k p).run w with
    | error c w' =>
      refine Triple.of_run_error (run_bind_error hrun _) ?_
      rw [List.append_nil]
      exact hp.error hrun
    | ok t w' =>
      have hw' := hp.ok hrun
      rw [hrun] at hG'
      refine Triple.bind_run hrun ?_
      cases t with
      | done => exact Triple.pure (nothing hw')
      | next k' => exact ih k' (turn_next_error hrun) hw' hG'

end Invariant

-- ---------------------------------------------------------------------------
-- Runs to the end of the stream
-- ---------------------------------------------------------------------------

mutual

/-- The events of a stream, those of payloads in the place of the payload. -/
def LogEvent.leaves : LogEvent → List Handled
  | .leaf ev => [.event ev]
  | .transactionPayload _ payload => payload.leaves

def Payload.leaves : Payload → List Handled
  | .cons ev rest => ev.leaves ++ rest.leaves
  | _ => []

end

def Packet.leaves : Packet → List Handled
  | .heartbeat _ when => [.heartbeat when]
  | .event _ ev => ev.leaves
  | _ => []

section

variable (lib os needStop)

mutual

/-- A loop over a payload sees `need_stop` while there are events left in it. -/
inductive LogEvent.Cut : Nat → LogEvent → World → Prop
  | payload {k when payload w} (h : Payload.Cut k payload { w with error := none }) :
    LogEvent.Cut k (.transactionPayload when payload) w

inductive Payload.Cut : Nat → Payload → World → Prop
  | here {k k' ev rest w w'} (hev : (processEvent lib os needStop k ev).run w = .ok k' w')
    (herr : w'.error = none) (hstop : needStop k' = true) (hrest : rest ≠ .nil) :
    Payload.Cut k (.cons ev rest) w
  | head {k ev rest w} (h : LogEvent.Cut k ev w) : Payload.Cut k (.cons ev rest) w
  | tail {k k' ev rest w w'} (hev : (processEvent lib os needStop k ev).run w = .ok k' w')
    (h : Payload.Cut (k' + 1) rest w') : Payload.Cut k (.cons ev rest) w

end

def Packet.Cut (k : Nat) (w : World) : Packet → Prop
  | .event size ev => ev.Cut lib os needStop k (w.withSize size)
  | _ => False

end

mutual

theorem LogEvent.not_cut (hstop : ∀ j, needStop j = false) {k : Nat} {ev : LogEvent} {w : World} :
    ¬ ev.Cut lib os needStop k w := by
  rintro ⟨h⟩
  exact Payload.not_cut hstop h

theorem Payload.not_cut (hstop : ∀ j, needStop j = false) {k : Nat} {payload : Payload}
    {w : World} : ¬ payload.Cut lib os needStop k w := by
  intro h
  match h with
  | .here _ _ h _ =>
    rw [hstop] at h
    cases h
  | .head h => exact LogEvent.not_cut hstop h
  | .tail _ h => exact Payload.not_cut hstop h

end

theorem Packet.not_cut (hstop : ∀ j, needStop j = false) {k : Nat} {p : Packet} {w : World} :
    ¬ p.Cut lib os needStop k w := by
  cases p with
  | event => exact LogEvent.not_cut hstop
  | fetchError | eof | failed | heartbeat => exact id

mutual

theorem LogEvent.handledOf_visits {k k' : Nat} {ev : LogEvent} {w w' : World}
    (hcut : ¬ ev.Cut lib os needStop k w)
    (hrun : (processEvent lib os needStop k ev).run w = .ok k' w') (herr : w'.error = none) :
    handledOf (ev.visits lib os needStop k w) = ev.leaves := by
  match ev with
  | .leaf ev =>
    unfold LogEvent.visits LogEvent.leaves
    rfl
  | .transactionPayload when payload =>
    unfold processEvent at hrun
    unfold LogEvent.visits LogEvent.leaves
    obtain ⟨_, _, hclear, hrun⟩ := run_bind_inv hrun
    cases hclear
    rw [run_get_bind] at hrun
    split at hrun
    case isTrue => cases hrun
    case isFalse hn =>
      rw [if_neg hn]
      exact Payload.handledOf_visits (fun h => hcut (.payload h)) hrun herr

theorem Payload.handledOf_visits {k k' : Nat} {payload : Payload} {w w' : World}
    (hcut : ¬ payload.Cut lib os needStop k w)
    (hrun : (processPayload lib os needStop k payload).run w = .ok k' w') (herr : w'.error = none) :
    handledOf (payload.visits lib os needStop k w) = payload.leaves := by
  match payload with
  | .nil =>
    unfold Payload.visits Payload.leaves
    rfl
  | .failed desc =>
    unfold processPayload at hrun
    cases hrun
    cases herr
  | .cons ev rest =>
    unfold processPayload at hrun
    unfold Payload.visits Payload.leaves
    obtain ⟨k₁, w₁, hev, hrun⟩ := run_bind_inv hrun
    rw [run_get_bind] at hrun
    rw [hev, handledOf_append]
    dsimp only
    split at hrun
    case isTrue h₁ =>
      cases hrun
      rw [herr] at h₁
      cases h₁
    case isFalse h₁ =>
      have h₁' : w₁.error = none := by simpa using h₁
      rw [if_neg h₁, LogEvent.handledOf_visits (fun h => hcut (.head h)) hev h₁']
      split at hrun
      case isTrue hs =>
        -- A stop that is seen here finds nothing left.
        have hnil : rest = .nil := by
          by_contra hne
          exact hcut (.here hev h₁' hs hne)
        rw [if_pos hs, hnil]
        unfold Payload.leaves
        rfl
      case isFalse hs =>
        rw [if_neg hs, Payload.handledOf_visits (fun h => hcut (.tail hev h)) hrun herr]

end

theorem Packet.handledOf_visits {k : Nat} {t : Turn} {p : Packet} {w w' : World}
    (hcut : ¬ p.Cut lib os needStop k w)
    (hrun : (turn lib os needStop k p).run w = .ok t w') (herr : w'.error = none) :
    handledOf (p.visits lib os needStop k w) = p.leaves ∧ ∃ j, t = lookAgain needStop j := by
  cases p with
  | fetchError desc => cases hrun; cases herr
  | eof => cases hrun; cases herr
  | failed size desc => cases hrun; cases herr
  | heartbeat size when =>
    unfold turn at hrun
    obtain ⟨_, _, -, hrun⟩ := run_bind_inv hrun
    obtain ⟨_, w₁, -, hrun⟩ := run_bind_inv hrun
    rw [run_get_bind] at hrun
    split at hrun
    case isTrue h₁ =>
      cases hrun
      rw [herr] at h₁
      cases h₁
    case isFalse =>
      cases hrun
      exact ⟨rfl, k, rfl⟩
  | event size ev =>
    unfold turn at hrun
    obtain ⟨_, _, hsize, hrun⟩ := run_bind_inv hrun
    cases hsize
    obtain ⟨k₁, w₁, hev, hrun⟩ := run_bind_inv hrun
    rw [run_get_bind] at hrun
    split at hrun
    case isTrue h₁ =>
      cases hrun
      rw [herr] at h₁
      cases h₁
    case isFalse h₁ =>
      cases hrun
      exact ⟨LogEvent.handledOf_visits hcut hev (by simpa using h₁), k₁, rfl⟩

/-- A run without an error that is not told to stop handles all events. -/
theorem handledOf_loopVisits (hstop : ∀ j, needStop j = false) {k : Nat} {t : Turn}
    {packets : List Packet} {w w' : World}
    (hrun : (replicationLoop lib os needStop k packets).run w = .ok t w') (herr : w'.error = none) :
    handledOf (loopVisits lib os needStop k packets w) = packets.flatMap Packet.leaves := by
  induction packets generalizing k w with
  | nil => rfl
  | cons p ps ih =>
    unfold replicationLoop at hrun
    obtain ⟨t₁, w₁, hp, hrun⟩ := run_bind_inv hrun
    unfold loopVisits
    rw [hp, handledOf_append, List.flatMap_cons]
    cases t₁ with
    | done =>
      cases hrun
      obtain ⟨-, j, hj⟩ := Packet.handledOf_visits (Packet.not_cut hstop) hp herr
      simp [lookAgain, hstop] at hj
    | next k₁ =>
      rw [(Packet.handledOf_visits (Packet.not_cut hstop) hp (turn_next_error hp)).1, ih hrun]

-- ---------------------------------------------------------------------------
-- A sample stream
-- ---------------------------------------------------------------------------

theorem gtidLog_unlisted : LogEventType.gtidLog.listed = false := rfl

def sampleTable : TableMapLogEvent where
  tempBuf := []
  tableId := 1
  dbName := ascii "d"
  tableName := ascii "t"
  mColtype := [1]
  mOptionalMetadata := [1, 1, 128, 4, 2, 1, 97]
  columns := [⟨1, 0⟩]
  columns_length := rfl
  colcnt_lt := by decide

def sampleInsert : RowsLogEvent2 where
  typeCode := .writeRows
  when := 7
  tableId := 1
  ndbLength := none
  mCols := [true]
  mColsAi := []
  mRowsBuf := [1]
  size_lt := by decide

def samplePacket (ev : LeafEvent) : Packet := .event 32 (.leaf ev)

def sampleRows : LeafEvent := .rows sampleInsert rfl

def sampleWorld (onRow onHeartbeat onTransaction : Bool) : World where
  obj :=
    { onRow, onHeartbeat, onTransaction, positionWasSetted := true, state := .inprocess
      tables := [{ dbName := ascii "d", tblName := ascii "t" }]
      mLogNm := ascii "b.000001"
      rpl := { fileNameSet := true, fileNameLength := 8, startPosition := 156, size := 1 }
      disp := ⟨true, false, false⟩
      globDescriptionEvent := some ⟨false⟩ }

end RplListener
