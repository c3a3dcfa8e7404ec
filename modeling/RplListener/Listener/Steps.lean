import RplListener.Listener.Process
import RplListener.Rows.TypeCode

/-!
# What one step does

What handling an event or a heartbeat leaves behind, from a state without an
error. Every kind of event but one has its result written out; the rows of a
watched table are in `Delivery`.
-/

namespace RplListener

open Bytes Refine

variable {lib : Library} {os : Allocator} {w : World}

-- ---------------------------------------------------------------------------
-- Changes of the state
-- ---------------------------------------------------------------------------

namespace World

variable (w)

def put (o : Listener) : World := { w with obj := o }

def say (cs : List Call) : World := { w with calls := w.calls ++ cs }

def fail (e : ReplLogXError) : World := { w with error := some e }

def ask : World := { w with heap := { w.heap with asked := w.heap.asked + 1 } }

variable {w}

@[simp] theorem put_obj (o : Listener) : (w.put o).obj = o := rfl
@[simp] theorem put_error (o : Listener) : (w.put o).error = w.error := rfl
@[simp] theorem put_calls (o : Listener) : (w.put o).calls = w.calls := rfl
@[simp] theorem put_heap (o : Listener) : (w.put o).heap = w.heap := rfl
@[simp] theorem say_obj (cs : List Call) : (w.say cs).obj = w.obj := rfl
@[simp] theorem say_error (cs : List Call) : (w.say cs).error = w.error := rfl
@[simp] theorem say_calls (cs : List Call) : (w.say cs).calls = w.calls ++ cs := rfl
@[simp] theorem say_heap (cs : List Call) : (w.say cs).heap = w.heap := rfl
@[simp] theorem fail_obj (e : ReplLogXError) : (w.fail e).obj = w.obj := rfl
@[simp] theorem fail_error (e : ReplLogXError) : (w.fail e).error = some e := rfl
@[simp] theorem fail_calls (e : ReplLogXError) : (w.fail e).calls = w.calls := rfl
@[simp] theorem ask_obj : w.ask.obj = w.obj := rfl
@[simp] theorem ask_error : w.ask.error = w.error := rfl
@[simp] theorem ask_calls : w.ask.calls = w.calls := rfl

theorem say_nil (w : World) : w.say [] = w := by
  cases w
  simp [say]

theorem clear_of_none (he : w.error = none) : { w with error := none } = w := by
  cases w
  cases he
  rfl

end World

namespace Listener

variable (o : Listener)

def settle : Listener := { o with state := if o.state = .inprocess1 then .inprocess else o.state }

def opened : Listener := { o.settle with inTransaction := 1 }

def ended : Listener := { o with inTransaction := 0 }.settle

def closing : Bool := 1 < o.inTransaction && o.state == .inprocess && o.onTransaction

def commits (when : Nat) : List Call :=
  if o.closing then [.onTransaction when .commit] else []

def heartbeats (when : Nat) : List Call :=
  if o.state = .inprocess ∧ o.onHeartbeat then [.onHeartbeat when] else []

def started : Nat := if o.inTransaction = 1 then 2 else o.inTransaction

def starts (when : Nat) : List Call :=
  if o.inTransaction = 1 ∧ o.onTransaction then [.onTransaction when .start] else []

end Listener

-- ---------------------------------------------------------------------------
-- Pieces
-- ---------------------------------------------------------------------------

theorem swapState_run : (swapState .inprocess1 .inprocess).run w = .ok () (w.put w.obj.settle) := by
  have h : (if w.obj.state = .inprocess1 then { w.obj with state := .inprocess } else w.obj) =
      w.obj.settle := by
    unfold Listener.settle
    split <;> rfl
  exact congrArg (fun o => EStateM.Result.ok () (w.put o)) h

theorem clearError_run (he : w.error = none) : clearError.run w = .ok () w :=
  congrArg (EStateM.Result.ok ()) (World.clear_of_none he)

theorem call_run {registered : Bool} (h : registered = true) (c : Call) :
    (call registered c).run w = .ok () (w.say [c]) := by
  subst h
  rfl

theorem endTransaction_run : direct.endTransaction.run w = .ok () (w.put w.obj.ended) :=
  swapState_run (w := w.put { w.obj with inTransaction := 0 })

theorem Listener.closing_iff {o : Listener} : o.closing = true ↔
    o.inTransaction > 1 ∧ o.state = .inprocess ∧ o.onTransaction = true := by
  simp [Listener.closing, and_assoc]

theorem commitTransaction_run (when : Nat) :
    (direct.commitTransaction when).run w = .ok w.obj.closing (w.say (w.obj.commits when)) := by
  unfold Access.commitTransaction
  rw [direct_look_bind]
  dsimp only
  split
  case isTrue h =>
    have hc := Listener.closing_iff.mpr h
    rw [run_bind_ok (call_run h.2.2 _), Listener.commits, hc]
    rfl
  case isFalse h =>
    have hc : w.obj.closing = false := Bool.eq_false_iff.mpr (mt Listener.closing_iff.mp h)
    rw [Listener.commits, hc, if_neg Bool.false_ne_true, World.say_nil]
    rfl

theorem convertToHeartbeat_listed {type : LogEventType} (h : type.listed = true) (when : Nat) :
    (direct.convertToHeartbeat type when).run w = .ok () w := by
  unfold Access.convertToHeartbeat
  rw [direct_look_bind, if_neg (by simp [h])]
  rfl

theorem convertToHeartbeat_unlisted {type : LogEventType} (h : type.listed = false) (when : Nat) :
    (direct.convertToHeartbeat type when).run w = .ok () (w.say (w.obj.heartbeats when)) := by
  unfold Access.convertToHeartbeat Listener.heartbeats
  rw [direct_look_bind]
  dsimp only
  by_cases h' : w.obj.state = .inprocess ∧ w.obj.onHeartbeat = true
  · rw [if_pos ⟨h, h'⟩, call_run h'.2, if_pos h']
  · rw [if_neg fun hc => h' hc.2, if_neg h', World.say_nil]
    rfl

-- ---------------------------------------------------------------------------
-- Events
-- ---------------------------------------------------------------------------

theorem handleLeaf_listed {ev : LeafEvent} (he : w.error = none) (h : ev.type.listed = true) :
    (handleLeaf lib os ev).run w = (direct.processLeaf lib os ev).run w := by
  unfold handleLeaf Access.handleLeaf
  rw [run_bind_ok (clearError_run he),
    run_bind_ok (convertToHeartbeat_listed h _)]

theorem handle_formatDescription (he : w.error = none) (when : Nat) (event : FormatDescription) :
    (handleLeaf lib os (.formatDescription when event)).run w = .ok () (w.put
      { w.obj with
        globDescriptionEvent := some event
        rpl := if w.obj.rpl.startPosition ≠ 4 then { w.obj.rpl with size := 1 } else w.obj.rpl }) :=
  handleLeaf_listed he rfl

theorem handle_tableMap (he : w.error = none) (when : Nat) (event : TableMapLogEvent) :
    (handleLeaf lib os (.tableMap when event)).run w = .ok ()
      (w.put { w.obj with globTableMapEvents := w.obj.globTableMapEvents.store event }) :=
  handleLeaf_listed he rfl

theorem handle_rotate (he : w.error = none) (when : Nat) (newLogIdent : List UInt8) :
    ∃ mLogNm rpl, (handleLeaf lib os (.rotate when newLogIdent)).run w =
      .ok () (w.put { w.obj with mLogNm, rpl }) := by
  rw [handleLeaf_listed he rfl]
  unfold Access.processLeaf processRotate
  by_cases h : newLogIdent.length ≠ w.obj.rpl.fileNameLength ∨
      newLogIdent ≠ w.obj.mLogNm.take w.obj.rpl.fileNameLength
  · exact ⟨_, _, congrArg (fun o => EStateM.Result.ok () (w.put o)) (if_pos h)⟩
  · exact ⟨_, _, congrArg (fun o => EStateM.Result.ok () (w.put o)) (if_neg h)⟩

theorem processXid_run (when : Nat) :
    (direct.processXid when).run w = .ok () ((w.say (w.obj.commits when)).put w.obj.ended) := by
  unfold Access.processXid
  rw [run_bind_ok (commitTransaction_run when)]
  exact endTransaction_run

theorem handle_xid (he : w.error = none) (when : Nat) : (handleLeaf lib os (.xid when)).run w =
    .ok () ((w.say (w.obj.commits when)).put w.obj.ended) := by
  rw [handleLeaf_listed he rfl]
  exact processXid_run when

theorem handle_xaPrepareLog (he : w.error = none) (when : Nat) :
    (handleLeaf lib os (.xaPrepareLog when)).run w =
      .ok () ((w.say (w.obj.commits when)).put w.obj.ended) := by
  rw [handleLeaf_listed he rfl]
  exact processXid_run when

def LogEventType.isGtid : LogEventType → Bool
  | .anonymousGtidLog | .gtidLog => true
  | _ => false

theorem handle_other (he : w.error = none) {type : LogEventType} (when : Nat)
    (unlisted : type.listed = false) :
    (handleLeaf lib os (.other type when unlisted)).run w = .ok ()
      ((w.say (w.obj.heartbeats when)).put (if type.isGtid then w.obj.settle else w.obj)) := by
  unfold handleLeaf Access.handleLeaf
  rw [run_bind_ok (clearError_run he)]
  refine (run_bind_ok (convertToHeartbeat_unlisted unlisted when) _).trans ?_
  cases type <;> first | rfl | exact swapState_run

theorem handle_heartbeat (when : Nat) : (processHeartbeat when).run w =
    .ok () (if w.obj.globDescriptionEvent.isNone then
        w.fail ⟨false, clip 1024 "HEARTBEAT_LOG_EVENT without FORMAT_DESCRIPTION_EVENT!!!"⟩
      else (w.say (if w.obj.onHeartbeat then [.onHeartbeat when] else [])).put w.obj.settle) := by
  unfold processHeartbeat Access.processHeartbeat
  rw [direct_look_bind]
  split
  case isTrue => rfl
  case isFalse =>
    rw [run_bind_ok swapState_run, direct_look_bind]
    dsimp only
    change ((if w.obj.onHeartbeat then call w.obj.onHeartbeat _ else _) : ListenM Unit).run _ = _
    split
    case isTrue h => rw [call_run h]; rfl
    case isFalse => rw [World.say_nil]; rfl

-- ---------------------------------------------------------------------------
-- Queries
-- ---------------------------------------------------------------------------

def opensTransaction (query : List UInt8) : Prop :=
  cstr query = ascii "BEGIN" ∨ cstr query = ascii "XA START"

def closesTransaction (query : List UInt8) : Prop := cstr query = ascii "COMMIT"

instance (query : List UInt8) : Decidable (opensTransaction query) :=
  inferInstanceAs (Decidable (_ ∨ _))

instance (query : List UInt8) : Decidable (closesTransaction query) :=
  inferInstanceAs (Decidable (_ = _))

theorem not_opens_of_closes {query : List UInt8} (h : closesTransaction query) :
    ¬ opensTransaction query := by
  intro ho
  rw [closesTransaction] at h
  rw [opensTransaction, h] at ho
  exact absurd ho (by decide)

theorem attempt_run {b : Bool} (hg : os.grant w.heap.asked = b) :
    (zoom World.heapPart (Heap.attempt os) : ListenM Bool).run w = .ok b w.ask := by
  subst hg
  rfl

theorem handle_query_noMem (he : w.error = none) (hg : os.grant w.heap.asked = false) (when : Nat)
    (query : List UInt8) : (handleLeaf lib os (.query when query)).run w =
      .ok () (w.ask.fail ⟨false, clip 1024 "out of mem!!!"⟩) := by
  rw [handleLeaf_listed he rfl]
  unfold Access.processLeaf Access.processQuery
  rw [run_bind_ok (attempt_run hg)]
  rfl

theorem openTransaction_run (query : List UInt8) : (direct.openTransaction (cstr query)).run w =
    .ok () (if opensTransaction query then w.put w.obj.opened else w) := by
  by_cases h : opensTransaction query
  · rw [if_pos h]
    refine (congrArg (EStateM.run · w) (if_pos h)).trans ?_
    rw [run_bind_ok swapState_run]
    rfl
  · rw [if_neg h]
    exact congrArg (EStateM.run · w) (if_neg h)

theorem closeTransaction_run (query : List UInt8) (when : Nat) :
    (direct.closeTransaction (cstr query) when).run w =
      if closesTransaction query then .ok (!w.obj.closing) ((w.say (w.obj.commits when)).put w.obj.ended)
      else .ok true w := by
  by_cases h : closesTransaction query
  · rw [if_pos h]
    refine (congrArg (EStateM.run · w) (if_pos h)).trans ?_
    rw [run_bind_ok (commitTransaction_run when), run_bind_ok endTransaction_run]
    rfl
  · rw [if_neg h]
    exact congrArg (EStateM.run · w) (if_neg h)

/-- A `COMMIT` for which the callback was called goes on to the heartbeat. -/
theorem handle_query (he : w.error = none) (hg : os.grant w.heap.asked = true) (when : Nat)
    (query : List UInt8) : (handleLeaf lib os (.query when query)).run w =
      if opensTransaction query then .ok () (w.ask.put w.obj.opened)
      else if closesTransaction query then
        if w.obj.closing ∧ w.obj.onHeartbeat = false then
          .error .nullCall ((w.ask.say [.onTransaction when .commit]).put w.obj.ended)
        else .ok () ((w.ask.say (if w.obj.closing then
          [.onTransaction when .commit, .onHeartbeat when] else [])).put w.obj.ended)
      else .ok () w.ask := by
  rw [handleLeaf_listed he rfl]
  unfold Access.processLeaf Access.processQuery
  rw [run_bind_ok (attempt_run hg), if_pos rfl, run_bind_ok (openTransaction_run query)]
  by_cases ho : opensTransaction query
  · have hc : ¬ closesTransaction query := fun hc => not_opens_of_closes hc ho
    rw [if_pos ho, if_pos ho, run_bind_ok ((closeTransaction_run query when).trans (if_neg hc))]
    rfl
  · rw [if_neg ho, if_neg ho]
    by_cases hc : closesTransaction query
    · rw [if_pos hc, run_bind_ok ((closeTransaction_run query when).trans (if_pos hc))]
      unfold Access.queryHeartbeat Listener.commits
      change ((if (!w.obj.closing) = false then call w.obj.onHeartbeat _ else _) : ListenM Unit).run
        ((w.ask.say (if w.obj.closing then _ else _)).put w.obj.ended) = _
      cases w.obj.closing with
      | false =>
        rw [if_neg (by simp), if_neg (by simp)]
        rfl
      | true =>
        cases w.obj.onHeartbeat with
        | false =>
          rw [if_pos (by simp)]
          rfl
        | true =>
          rw [if_pos (show (!true) = false from rfl),
            if_neg (show ¬(true = true ∧ true = false) by simp), call_run rfl]
          simp [World.say, World.put, World.ask]
    · rw [if_neg hc, run_bind_ok ((closeTransaction_run query when).trans (if_neg hc))]
      rfl

end RplListener
