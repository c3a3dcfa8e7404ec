import RplListener.Listener.LifeCycle
import RplListener.Listener.Position
import RplListener.Listener.Reports

/-!
# Errors

Where the handling of an event fails, at any depth of payloads, and what follows
when the failure is reported: the thread handles nothing more, and the position is
the one before the event.
-/

namespace RplListener

open Bytes Refine

variable {lib : Library} {os : Allocator} {needStop : Nat → Bool} {w w' : World} {k k' : Nat}

-- ---------------------------------------------------------------------------
-- Failures
-- ---------------------------------------------------------------------------

/-- A failure, with the state in which it is found: an event that cannot be read, or
one that cannot be handled. -/
inductive Failure where
  | unread (desc : String) (w : World)
  | handled (x : Handled) (w : World)

namespace Failure

variable (lib os)

def run : Failure → EStateM.Result Crash World Unit
  | .unread desc w => (setError desc).run w
  | .handled x w => (handle lib os x).run w

def Unset : Failure → Prop
  | .unread _ _ => False
  | .handled x w => x.Unset lib os w

def OneArray : Failure → Prop
  | .handled (.event (.rows ev _)) w => w.OneArray lib os ev
  | _ => False

def ManyCells : Failure → Prop
  | .handled (.event (.rows ev _)) w => w.ManyCells lib ev
  | _ => False

def Found : Failure → Prop
  | .unread _ _ => True
  | .handled x w => w.error = none ∧ (∀ t ∈ w.obj.tables, t.info.Roomy) ∧ x.Failing lib os w

def Sound (base : List Nat) : Failure → Prop
  | .unread _ w | .handled _ w => w.Sound base

variable {lib os} {f : Failure}

theorem Found.ends (h : f.Found lib os) :
    (∃ s, f.run lib os = .ok () s ∧ s.error.isSome ∧ ¬ f.Unset lib os) ∨
      f.Unset lib os ∧ ∃ s, f.run lib os = .error .memory s := by
  cases f with
  | unread desc w => exact .inl ⟨_, rfl, rfl, id⟩
  | handled x w =>
    obtain ⟨he, hroom, hfailing⟩ := h
    by_cases hu : x.Unset lib os w
    · exact .inr ⟨hu, hu.crashes hroom⟩
    · obtain ⟨s, hrun, herr⟩ := hfailing.reports he hroom hu
      exact .inl ⟨s, hrun, herr, hu⟩

theorem Found.isSome {s : World} (h : f.Found lib os) (hrun : f.run lib os = .ok () s) :
    s.error.isSome := by
  obtain ⟨s', hrun', herr, -⟩ | ⟨-, s', hrun'⟩ := h.ends
  · rw [hrun] at hrun'
    cases hrun'
    exact herr
  · rw [hrun] at hrun'
    cases hrun'

end Failure

section

variable (lib os needStop)

mutual

/-- Handling the event from look `k` on comes to a failure: what was handled until
then, with the event that fails. -/
inductive LogEvent.Fails : Nat → LogEvent → World → List Visit → Failure → Prop
  | leaf {k ev w} (h : (Handled.event ev).Failing lib os w) :
    LogEvent.Fails k (.leaf ev) w [(.event ev, w)] (.handled (.event ev) w)
  | payload {k when payload w vs f} (hdesc : ¬ w.obj.globDescriptionEvent.isNone)
    (h : Payload.Fails k payload { w with error := none } vs f) :
    LogEvent.Fails k (.transactionPayload when payload) w vs f

inductive Payload.Fails : Nat → Payload → World → List Visit → Failure → Prop
  | failed {k desc w} : Payload.Fails k (.failed desc) w [] (.unread desc w)
  | head {k ev rest w vs f} (h : LogEvent.Fails k ev w vs f) : Payload.Fails k (.cons ev rest) w vs f
  | tail {k k' ev rest w w' vs f} (hev : (processEvent lib os needStop k ev).run w = .ok k' w')
    (herr : w'.error = none) (hstop : needStop k' = false)
    (h : Payload.Fails (k' + 1) rest w' vs f) :
    Payload.Fails k (.cons ev rest) w (ev.visits lib os needStop k w ++ vs) f

end

inductive Packet.Fails (k : Nat) (w : World) : Packet → List Visit → Failure → Prop
  | heartbeat {size when} (h : (Handled.heartbeat when).Failing lib os (w.withSize size)) :
    Packet.Fails k w (.heartbeat size when) [(.heartbeat when, w.withSize size)]
      (.handled (.heartbeat when) (w.withSize size))
  | failed {size desc} : Packet.Fails k w (.failed size desc) [] (.unread desc (w.withSize size))
  | event {size ev vs f} (h : ev.Fails lib os needStop k (w.withSize size) vs f) :
    Packet.Fails k w (.event size ev) vs f

end

theorem processEvent_roomy {ev : LogEvent} (he : w.error = none)
    (hroom : ∀ t ∈ w.obj.tables, t.info.Roomy)
    (hev : (processEvent lib os needStop k ev).run w = .ok k' w') : ∀ t ∈ w'.obj.tables, t.info.Roomy :=
  ((cached_invariant.processEvent (h := []) k ev he ⟨⟨hroom, rfl⟩, by simp⟩ fun _ _ => trivial).ok
    hev).1.roomy

mutual

theorem LogEvent.Fails.found {k : Nat} {ev : LogEvent} {w : World} {vs : List Visit} {f : Failure}
    (he : w.error = none) (hroom : ∀ t ∈ w.obj.tables, t.info.Roomy) (h : ev.Fails lib os needStop k w vs f) :
    f.Found lib os := by
  match h with
  | .leaf h => exact ⟨he, hroom, h⟩
  | .payload hdesc h => exact Payload.Fails.found (w := { w with error := none }) rfl hroom h

theorem Payload.Fails.found {k : Nat} {payload : Payload} {w : World} {vs : List Visit} {f : Failure}
    (he : w.error = none) (hroom : ∀ t ∈ w.obj.tables, t.info.Roomy) (h : payload.Fails lib os needStop k w vs f) :
    f.Found lib os := by
  match h with
  | .failed => trivial
  | .head h => exact LogEvent.Fails.found he hroom h
  | .tail hev herr hstop h => exact Payload.Fails.found herr (processEvent_roomy he hroom hev) h

end

theorem Packet.Fails.found {p : Packet} {vs : List Visit} {f : Failure} (he : w.error = none)
    (hroom : ∀ t ∈ w.obj.tables, t.info.Roomy) (h : p.Fails lib os needStop k w vs f) :
    f.Found lib os := by
  cases h with
  | heartbeat h => exact ⟨he, hroom, h⟩
  | failed => trivial
  | @event size ev vs f h => exact LogEvent.Fails.found (w := w.withSize size) he hroom h

-- ---------------------------------------------------------------------------
-- The way out
-- ---------------------------------------------------------------------------

def Failure.result {α : Type} (lib : Library) (os : Allocator) (f : Failure) (a : α) :
    EStateM.Result Crash World α :=
  match f.run lib os with
  | .ok _ s => .ok a s
  | .error c s => .error c s

theorem Failure.result_unit (f : Failure) : f.result lib os () = f.run lib os := by
  unfold Failure.result
  cases f.run lib os with
  | ok _ s => rfl
  | error c s => rfl

theorem run_bind_result {α β : Type} {f : Failure} {x : ListenM α} {g : α → ListenM β} {a : α} {b : β}
    (hx : x.run w = f.result lib os a)
    (hg : ∀ s, f.run lib os = .ok () s → (g a).run s = .ok b s) :
    (x >>= g).run w = f.result lib os b := by
  unfold Failure.result at hx ⊢
  cases hrun : f.run lib os with
  | ok _ s =>
    rw [hrun] at hx
    exact (run_bind_ok hx g).trans (hg s hrun)
  | error c s =>
    rw [hrun] at hx
    exact run_bind_error hx g

mutual

/-- `process_event` returns with what the failure left, or does not return. -/
theorem LogEvent.Fails.run {k : Nat} {ev : LogEvent} {w : World} {vs : List Visit} {f : Failure}
    (h : ev.Fails lib os needStop k w vs f) (hfound : f.Found lib os) :
    (∃ k', (processEvent lib os needStop k ev).run w = f.result lib os k') ∧
      ev.visits lib os needStop k w = vs := by
  match h with
  | .leaf h =>
    refine ⟨⟨k, ?_⟩, by unfold LogEvent.visits; rfl⟩
    unfold processEvent
    exact run_bind_result (Failure.result_unit (.handled (.event _) w)).symm fun s hs => rfl
  | .payload hdesc h =>
    obtain ⟨⟨k', hrun⟩, hvs⟩ := Payload.Fails.run h hfound
    refine ⟨⟨k', ?_⟩, ?_⟩
    · unfold processEvent
      refine (run_bind_ok (x := clearError) (a := ()) rfl _).trans ?_
      rw [run_get_bind, if_neg hdesc]
      exact hrun
    · unfold LogEvent.visits
      rw [if_neg hdesc]
      exact hvs

theorem Payload.Fails.run {k : Nat} {payload : Payload} {w : World} {vs : List Visit}
    {f : Failure} (h : payload.Fails lib os needStop k w vs f) (hfound : f.Found lib os) :
    (∃ k', (processPayload lib os needStop k payload).run w = f.result lib os k') ∧
      payload.visits lib os needStop k w = vs := by
  match h with
  | .failed =>
    refine ⟨⟨k, ?_⟩, by unfold Payload.visits; rfl⟩
    unfold processPayload
    rfl
  | .head h =>
    obtain ⟨⟨k', hrun⟩, hvs⟩ := LogEvent.Fails.run h hfound
    refine ⟨⟨k', ?_⟩, ?_⟩
    · unfold processPayload
      refine run_bind_result hrun fun s hs => ?_
      rw [run_get_bind, if_pos (hfound.isSome hs)]
      rfl
    · unfold Payload.visits
      rw [hrun, hvs]
      unfold Failure.result
      cases hf : f.run lib os with
      | ok _ s =>
        dsimp only
        rw [if_pos (hfound.isSome hf), List.append_nil]
      | error c s => exact List.append_nil _
  | .tail hev hnone hstop h =>
    obtain ⟨⟨k', hrun⟩, hvs⟩ := Payload.Fails.run h hfound
    refine ⟨⟨k', ?_⟩, ?_⟩
    · unfold processPayload
      rw [run_bind_ok hev, run_get_bind, if_neg (by simp [hnone]), if_neg (by simp [hstop])]
      exact hrun
    · unfold Payload.visits
      simp only [hev, hnone, hstop, Option.isSome_none, Bool.false_eq_true, if_false]
      rw [hvs]

end

theorem Packet.Fails.turn {p : Packet} {vs : List Visit} {f : Failure}
    (h : p.Fails lib os needStop k w vs f)
    (hfound : f.Found lib os) : (RplListener.turn lib os needStop k p).run w = f.result lib os .done ∧
      p.visits lib os needStop k w = vs := by
  have hdone (s : World) (hs : f.run lib os = .ok () s) (y : ListenM Turn) :
      ((do if (← get).error.isSome then pure .done else y) : ListenM Turn).run s = .ok .done s := by
    rw [run_get_bind, if_pos (hfound.isSome hs)]
    rfl
  cases h with
  | @heartbeat size when h =>
    refine ⟨(run_bind_ok (setSize_run w size) _).trans ?_, rfl⟩
    exact run_bind_result (Failure.result_unit (.handled (.heartbeat when) _)).symm fun s hs => hdone s hs _
  | failed => exact ⟨rfl, rfl⟩
  | @event size ev vs f h =>
    obtain ⟨⟨k', hrun⟩, hvs⟩ := h.run hfound
    refine ⟨(run_bind_ok (setSize_run w size) _).trans ?_, hvs⟩
    exact run_bind_result hrun fun s hs => hdone s hs _

-- ---------------------------------------------------------------------------
-- The position
-- ---------------------------------------------------------------------------

/-- An event that reports an error does not move, even if it could. -/
theorem handleLeaf_moves {ev : LeafEvent} (he : w.error = none)
    (hrun : (handleLeaf lib os ev).run w = .ok () w') (herr : w'.error.isSome) :
    (Handled.event ev).moves = false := by
  have hstep := (handle_step he (.event ev)).ok hrun
  cases ev with
  | rotate when newLogIdent =>
    cases hstep with
    | rotate => simp [he] at herr
  | formatDescription when event =>
    cases hstep with
    | formatDescription => simp [he] at herr
  | query | tableMap | rows | xid | xaPrepareLog | other => rfl

def Listener.Live (o : Listener) : Prop := o.state = .inprocess1 ∨ o.state = .inprocess

theorem Listener.Live.settle {o : Listener} (h : o.Live) : o.settle.Live := by
  unfold Listener.settle
  split
  · exact .inr rfl
  · exact h

theorem Step.live {x : Handled} (h : Step os w x w') (hw : w.obj.Live) : w'.obj.Live := by
  cases h with
  | opens | heartbeat => exact hw.settle
  | commits | closes | xid | xaPrepareLog =>
    exact Listener.Live.settle (o := { w.obj with inTransaction := 0 }) hw
  | @other type =>
    cases type.isGtid
    · exact hw
    · exact hw.settle
  | rows h =>
    cases h with
    | early | noMap | unwatched => exact hw
    | delivery _ _ _ hd => rw [hd.obj]; exact hw
  | noMem | query | formatDescription | tableMap | rotate | noDescription => exact hw

theorem replicationLoop_append {pre : List Packet} (post : List Packet) {k k' : Nat} {w w' : World}
    (h : (replicationLoop lib os needStop k pre).run w = .ok (.next k') w') :
    (replicationLoop lib os needStop k (pre ++ post)).run w =
        (replicationLoop lib os needStop k' post).run w' ∧
      loopVisits lib os needStop k (pre ++ post) w =
        loopVisits lib os needStop k pre w ++ loopVisits lib os needStop k' post w' := by
  induction pre generalizing k w with
  | nil =>
    cases h
    exact ⟨rfl, rfl⟩
  | cons p ps ih =>
    unfold replicationLoop at h
    obtain ⟨t, w₁, hp, h⟩ := run_bind_inv h
    cases t with
    | done => cases h
    | next k₁ =>
      obtain ⟨hrun, hvisits⟩ := ih h
      constructor
      · rw [List.cons_append, replicationLoop, run_bind_ok hp]
        exact hrun
      · rw [List.cons_append, loopVisits, loopVisits, hp, List.append_assoc]
        exact congrArg (_ ++ ·) hvisits

end RplListener
