import RplListener.Listener.Visits

/-!
# Compressed events

Handling a payload event has the effect of handling the events it carries one
by one, until the first error, as long as nobody asks the thread to stop.
-/

namespace RplListener

open Bytes Refine

variable {lib : Library} {os : Allocator} {needStop needStop' : Nat → Bool}

-- ---------------------------------------------------------------------------
-- The plain path
-- ---------------------------------------------------------------------------

def Payload.ofList : List LogEvent → Payload
  | [] => .nil
  | ev :: evs => .cons ev (ofList evs)

variable (lib os) in
/-- `process_event` on one event after the other, until the first error. -/
def processEvents : List LogEvent → ListenM Unit
  | [] => pure ()
  | ev :: evs => do
    discard (processEvent lib os (fun _ => false) 0 ev)
    if (← get).error.isSome then pure () else processEvents evs

-- ---------------------------------------------------------------------------
-- Looks at need_stop
-- ---------------------------------------------------------------------------

mutual

def LogEvent.looks : LogEvent → Nat
  | .leaf _ => 0
  | .transactionPayload _ payload => payload.looks

def Payload.looks : Payload → Nat
  | .cons ev rest => ev.looks + 1 + rest.looks
  | _ => 0

end

/-- Nobody asks to stop from look `k` on, for `n` looks. -/
def Quiet (needStop : Nat → Bool) (k n : Nat) : Prop :=
  ∀ j, k ≤ j → j < k + n → needStop j = false

theorem Quiet.sub {k n j m : Nat} (h : Quiet needStop k n) (hj : k ≤ j) (hm : j + m ≤ k + n) :
    Quiet needStop j m := fun i hi hlt => h i (hj.trans hi) (hlt.trans_le hm)

def Looked (k n a : Nat) : Prop := k ≤ a ∧ a ≤ k + n

mutual

theorem processEvent_quiet (ev : LogEvent) {k k' : Nat} (hk : Quiet needStop k ev.looks)
    (hk' : Quiet needStop' k' ev.looks) (w : World) :
    Alike (fun a b => Looked k ev.looks a ∧ Looked k' ev.looks b)
      (processEvent lib os needStop k ev) (processEvent lib os needStop' k' ev) w := by
  match ev with
  | .leaf ev =>
    unfold processEvent LogEvent.looks
    refine Alike.bind (Alike.refl (R := fun _ _ => True) (fun _ => trivial) _ _) fun _ _ s _ => ?_
    exact Alike.pure ⟨⟨Nat.le_refl _, Nat.le_refl _⟩, Nat.le_refl _, Nat.le_refl _⟩
  | .transactionPayload when payload =>
    unfold processEvent LogEvent.looks at *
    refine Alike.bind (Alike.refl (R := fun _ _ => True) (fun _ => trivial) _ _) fun _ _ s _ => ?_
    refine Alike.bind (Alike.refl (R := Eq) (fun _ => rfl) get s) ?_
    rintro w _ s rfl
    split
    case isTrue => exact ⟨rfl, rfl⟩
    case isFalse => exact processPayload_quiet payload hk hk' s

theorem processPayload_quiet (payload : Payload) {k k' : Nat} (hk : Quiet needStop k payload.looks)
    (hk' : Quiet needStop' k' payload.looks) (w : World) :
    Alike (fun a b => Looked k payload.looks a ∧ Looked k' payload.looks b)
      (processPayload lib os needStop k payload) (processPayload lib os needStop' k' payload) w := by
  match payload with
  | .nil =>
    unfold processPayload Payload.looks
    exact Alike.pure ⟨⟨Nat.le_refl _, Nat.le_refl _⟩, Nat.le_refl _, Nat.le_refl _⟩
  | .failed desc =>
    unfold processPayload Payload.looks
    refine Alike.bind (Alike.refl (R := fun _ _ => True) (fun _ => trivial) _ _) fun _ _ s _ => ?_
    exact Alike.pure ⟨⟨Nat.le_refl _, Nat.le_refl _⟩, Nat.le_refl _, Nat.le_refl _⟩
  | .cons ev rest =>
    unfold processPayload Payload.looks at *
    refine Alike.bind (processEvent_quiet ev (hk.sub (Nat.le_refl _) (by omega))
      (hk'.sub (Nat.le_refl _) (by omega)) w) ?_
    rintro a b s ⟨⟨hka, hak⟩, hkb, hbk⟩
    refine Alike.bind (Alike.refl (R := Eq) (fun _ => rfl) get s) ?_
    rintro w _ s rfl
    split
    case isTrue => exact Alike.pure ⟨⟨hka, by omega⟩, hkb, by omega⟩
    case isFalse =>
      rw [if_neg (by simp [hk a hka (by omega)]), if_neg (by simp [hk' b hkb (by omega)])]
      refine (processPayload_quiet rest (hk.sub (by omega) (by omega))
        (hk'.sub (by omega) (by omega)) s).mono ?_
      rintro a' b' ⟨⟨h1, h2⟩, h3, h4⟩
      exact ⟨⟨by omega, by omega⟩, by omega, by omega⟩

end

theorem processEvent_alone (ev : LogEvent) {k : Nat} (hk : Quiet needStop k ev.looks) (w : World) :
    Alike (fun a _ => Looked k ev.looks a) (processEvent lib os needStop k ev)
      (discard (processEvent lib os (fun _ => false) 0 ev)) w := by
  have h := @processEvent_quiet lib os needStop (fun _ => false) ev k 0 hk (fun _ _ _ => rfl) w
  exact h.discard_right fun _ _ hr => hr.1

theorem processPayload_ofList (evs : List LogEvent) {k : Nat}
    (hk : Quiet needStop k (Payload.ofList evs).looks) (w : World) :
    Alike (fun _ _ => True) (processPayload lib os needStop k (Payload.ofList evs))
      (processEvents lib os evs) w := by
  induction evs generalizing k w with
  | nil =>
    unfold Payload.ofList processPayload processEvents
    exact Alike.pure trivial
  | cons ev evs ih =>
    unfold Payload.ofList processPayload processEvents
    unfold Payload.ofList Payload.looks at hk
    refine Alike.bind (processEvent_alone ev (hk.sub (Nat.le_refl _) (by omega)) w) ?_
    rintro a _ s ⟨hka, hak⟩
    refine Alike.bind (Alike.refl (R := Eq) (fun _ => rfl) get s) ?_
    rintro w _ s rfl
    split
    case isTrue => exact Alike.pure trivial
    case isFalse =>
      rw [if_neg (by simp [hk a hka (by omega)])]
      exact ih (hk.sub (by omega) (by omega)) s

-- ---------------------------------------------------------------------------
-- Compression is transparent
-- ---------------------------------------------------------------------------

theorem clearError_run_eq (w : World) : clearError.run w = .ok () { w with error := none } := rfl

/-- A payload event and its events, handled one by one, have one effect on the
whole state: the calls, the error, the listener and the heap. -/
theorem processEvent_payload (when : Nat) (evs : List LogEvent) {k : Nat} {w : World}
    (hdesc : w.obj.globDescriptionEvent.isSome)
    (hk : Quiet needStop k (Payload.ofList evs).looks) :
    Alike (fun _ _ => True)
      (processEvent lib os needStop k (.transactionPayload when (Payload.ofList evs)))
      (clearError >>= fun _ => processEvents lib os evs) w := by
  unfold processEvent
  refine Alike.bind_run (clearError_run_eq w) (clearError_run_eq w) ?_
  refine Alike.get_bind_left ?_
  rw [if_neg (by simpa [Option.isNone_iff_eq_none, Option.isSome_iff_ne_none] using hdesc)]
  exact processPayload_ofList evs hk _

def sampleEvents : List LogEvent := [.tableMap 6 sampleTable, sampleRows, .xid 8].map .leaf

theorem processEvent_payload_sample : Alike (fun _ _ => True)
    (processEvent sampleLibrary sampleAllocator (fun _ => false) 0
      (.transactionPayload 5 (Payload.ofList sampleEvents)))
    (clearError >>= fun _ => processEvents sampleLibrary sampleAllocator sampleEvents)
    (sampleWorld true true true) := by
  have hdesc : (sampleWorld true true true).obj.globDescriptionEvent.isSome := rfl
  -- The state is not to be run.
  generalize sampleWorld true true true = w at hdesc ⊢
  exact processEvent_payload 5 sampleEvents hdesc fun _ _ _ => rfl

end RplListener
