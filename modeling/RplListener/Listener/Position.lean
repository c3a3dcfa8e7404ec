import RplListener.Listener.Visits

/-!
# The position

The file name and the position change in few places: a rotation and a format
description change them while they are handled, and the loop adds the size of
the packet afterwards. No other event touches them, inside a payload or outside.
-/

namespace RplListener

open Bytes Refine

variable {lib : Library} {os : Allocator} {needStop : Nat → Bool} {w w' : World} {k k' : Nat}

-- ---------------------------------------------------------------------------
-- Events that move
-- ---------------------------------------------------------------------------

def Listener.place (o : Listener) : List UInt8 × MysqlRpl := (o.mLogNm, o.rpl)

/-- `get_last_sucessful_position`, into a buffer of `fileMaxlen` bytes. -/
def Listener.getLastSucessfulPosition (o : Listener) (fileMaxlen : Nat) : List UInt8 × Nat :=
  if o.rpl.fileNameSet then (o.mLogNm.take (fileMaxlen - 1), o.rpl.startPosition) else ([], 0)

def Handled.moves : Handled → Bool
  | .event (.rotate ..) | .event (.formatDescription ..) => true
  | _ => false

theorem Step.place {x : Handled} (h : Step os w x w') (hx : x.moves = false) :
    w'.obj.place = w.obj.place := by
  cases h with
  | formatDescription | rotate => cases hx
  | rows h =>
    cases h with
    | early | noMap | unwatched => rfl
    | delivery _ _ _ hd => rw [hd.obj]; rfl
  | @other type =>
    cases type.isGtid <;> rfl
  | noMem | opens | commits | closes | query | tableMap | xid | xaPrepareLog | noDescription |
    heartbeat => rfl

/-- No rotation and no format description, at any depth. -/
def LogEvent.Plain (ev : LogEvent) : Prop := ∀ x ∈ ev.leaves, x.moves = false

def Payload.Plain (payload : Payload) : Prop := ∀ x ∈ payload.leaves, x.moves = false

theorem Payload.Plain.head {ev : LogEvent} {rest : Payload} (h : (Payload.cons ev rest).Plain) :
    ev.Plain := fun x hx => h x (by unfold Payload.leaves; exact List.mem_append_left _ hx)

theorem Payload.Plain.tail {ev : LogEvent} {rest : Payload} (h : (Payload.cons ev rest).Plain) :
    rest.Plain := fun x hx => h x (by unfold Payload.leaves; exact List.mem_append_right _ hx)

theorem LogEvent.Plain.payload {when : Nat} {payload : Payload}
    (h : (LogEvent.transactionPayload when payload).Plain) : payload.Plain :=
  fun x hx => h x (by unfold LogEvent.leaves; exact hx)

mutual

theorem processEvent_place {ev : LogEvent} {k k' : Nat} {w w' : World} (hp : ev.Plain)
    (he : w.error = none) (hrun : (processEvent lib os needStop k ev).run w = .ok k' w') : w'.obj.place = w.obj.place := by
  match ev with
  | .leaf ev =>
    unfold processEvent at hrun
    obtain ⟨_, w₁, hleaf, hrun⟩ := run_bind_inv hrun
    obtain ⟨-, rfl⟩ := run_pure_inv hrun
    exact ((handle_step he (.event ev)).ok hleaf).place (hp _ (by unfold LogEvent.leaves; simp))
  | .transactionPayload when payload =>
    unfold processEvent at hrun
    rw [run_bind_ok (clearError_run he), run_get_bind] at hrun
    split at hrun
    case isTrue => cases hrun
    case isFalse => exact processPayload_place hp.payload he hrun

theorem processPayload_place {payload : Payload} {k k' : Nat} {w w' : World} (hp : payload.Plain)
    (he : w.error = none) (hrun : (processPayload lib os needStop k payload).run w = .ok k' w') :
    w'.obj.place = w.obj.place := by
  match payload with
  | .nil =>
    unfold processPayload at hrun
    obtain ⟨-, rfl⟩ := run_pure_inv hrun
    rfl
  | .failed desc =>
    unfold processPayload at hrun
    cases hrun
    rfl
  | .cons ev rest =>
    unfold processPayload at hrun
    obtain ⟨k₁, w₁, hev, hrun⟩ := run_bind_inv hrun
    have hw₁ := processEvent_place hp.head he hev
    rw [run_get_bind] at hrun
    split at hrun
    case isTrue =>
      obtain ⟨-, rfl⟩ := run_pure_inv hrun
      exact hw₁
    case isFalse h₁ =>
      split at hrun
      case isTrue =>
        obtain ⟨-, rfl⟩ := run_pure_inv hrun
        exact hw₁
      case isFalse => exact (processPayload_place hp.tail (by simpa using h₁) hrun).trans hw₁

end

-- ---------------------------------------------------------------------------
-- One turn
-- ---------------------------------------------------------------------------

def World.advanced (w : World) : World :=
  w.withRpl { w.obj.rpl with startPosition := w.obj.rpl.startPosition + (w.obj.rpl.size - 1) }

theorem turn_event_inv {size : Nat} {ev : LogEvent} {t : Turn}
    (hrun : (turn lib os needStop k (.event size ev)).run w = .ok t w') (herr : w'.error = none) :
    ∃ j w₁, (processEvent lib os needStop k ev).run (w.withSize size) = .ok j w₁ ∧
      w₁.error = none ∧ w' = w₁.advanced := by
  unfold turn at hrun
  obtain ⟨_, _, hsize, hrun⟩ := run_bind_inv hrun
  cases hsize
  obtain ⟨j, w₁, hev, hrun⟩ := run_bind_inv hrun
  rw [run_get_bind] at hrun
  split at hrun
  case isTrue h₁ =>
    cases hrun
    rw [herr] at h₁
    cases h₁
  case isFalse h₁ =>
    obtain ⟨_, w₂, hadvance, hrun⟩ := run_bind_inv hrun
    cases hadvance
    obtain ⟨-, rfl⟩ := run_pure_inv hrun
    exact ⟨j, w₁, hev, by simpa using h₁, rfl⟩

theorem processEvent_leaf_inv {ev : LeafEvent}
    (hrun : (processEvent lib os needStop k (.leaf ev)).run w = .ok k' w') :
    (handleLeaf lib os ev).run w = .ok () w' := by
  unfold processEvent at hrun
  obtain ⟨_, _, hleaf, hrun⟩ := run_bind_inv hrun
  obtain ⟨-, rfl⟩ := run_pure_inv hrun
  exact hleaf

end RplListener
