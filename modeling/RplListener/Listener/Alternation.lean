import RplListener.Listener.Heartbeats

/-!
# Transactions that alternate

A transaction is reported with its first watched row and closed with its end.
Between the two the flag `in_transaction` is 2, unless a `BEGIN` comes first:
the end of a transaction that is rolled back is not among the ends the listener
knows.
-/

namespace RplListener

open Bytes Refine

variable {lib : Library} {os : Allocator} {needStop : Nat → Bool} {w w' : World}

/-- `START` and `COMMIT` take turns: whether a transaction is open at the end, or
`none` where they do not. -/
def bracket : (isOpen : Bool) → List TransactionEvType → Option Bool
  | isOpen, [] => some isOpen
  | false, .start :: ts => bracket true ts
  | true, .commit :: ts => bracket false ts
  | _, _ => none

theorem bracket_append (isOpen : Bool) (ts ts' : List TransactionEvType) :
    bracket isOpen (ts ++ ts') = (bracket isOpen ts).bind fun b => bracket b ts' := by
  induction ts generalizing isOpen with
  | nil => rfl
  | cons t ts ih => cases isOpen <;> cases t <;> first | rfl | exact ih _

def Call.transaction? : Call → Option TransactionEvType
  | .onTransaction _ type => some type
  | _ => none

def Alternating (cs : List Call) : Prop := (bracket false (cs.filterMap Call.transaction?)).isSome

/-- A transaction is opened while another one is reported and not closed. -/
def Visit.reopens (os : Allocator) : Visit → Bool
  | (.event (.query _ query), w) =>
    decide (opensTransaction query) && os.grant w.heap.asked && w.obj.inTransaction == 2
  | _ => false

/-- A transaction is open exactly while the flag is 2. -/
structure World.Bracketed (w : World) : Prop where
  onTransaction : w.obj.onTransaction = true
  flag : w.obj.inTransaction ≤ 2
  state : w.obj.inTransaction = 2 → w.obj.state = .inprocess
  calls : bracket false (w.calls.filterMap Call.transaction?) = some (w.obj.inTransaction == 2)

namespace World.Bracketed

theorem alternating (h : w.Bracketed) : Alternating w.calls := by
  rw [Alternating, h.calls]
  rfl

theorem extend (h : w.Bracketed) {cs : List Call} (hcs : w'.calls = w.calls ++ cs) :
    bracket false (w'.calls.filterMap Call.transaction?) =
      bracket (w.obj.inTransaction == 2) (cs.filterMap Call.transaction?) := by
  rw [hcs, List.filterMap_append, bracket_append, h.calls]
  rfl

theorem closing (h : w.Bracketed) : w.obj.closing = (w.obj.inTransaction == 2) := by
  have hflag := h.flag
  rw [Listener.closing, h.onTransaction, Bool.and_true]
  by_cases h2 : w.obj.inTransaction = 2
  · simp [h2, h.state h2]
  · have : ¬ 1 < w.obj.inTransaction := by omega
    simp [h2, this]

theorem same (h : w.Bracketed) (ho : w'.obj.onTransaction = w.obj.onTransaction)
    (hf : w'.obj.inTransaction = w.obj.inTransaction)
    (hs : w.obj.state = .inprocess → w'.obj.state = .inprocess) {cs : List Call}
    (hcs : w'.calls = w.calls ++ cs) (hno : cs.filterMap Call.transaction? = []) : w'.Bracketed where
  onTransaction := ho.trans h.onTransaction
  flag := hf ▸ h.flag
  state h2 := hs (h.state (hf ▸ h2))
  calls := by rw [h.extend hcs, hno, hf]; rfl

end World.Bracketed

theorem World.Bracketed.ended (h : w.Bracketed) (ho : w'.obj.onTransaction = w.obj.onTransaction)
    (hf : w'.obj.inTransaction = 0) {cs : List Call} (hcs : w'.calls = w.calls ++ cs)
    (hend : cs.filterMap Call.transaction? = if w.obj.closing then [.commit] else []) :
    w'.Bracketed where
  onTransaction := ho.trans h.onTransaction
  flag := by rw [hf]; exact Nat.zero_le 2
  state h2 := by rw [hf] at h2; cases h2
  calls := by
    rw [h.extend hcs, hend, h.closing, hf]
    cases hb : w.obj.inTransaction == 2 <;> rfl

theorem transactions_of_commits (when : Nat) : (w.obj.commits when).filterMap Call.transaction? =
    if w.obj.closing then [.commit] else [] := by
  unfold Listener.commits
  split <;> rfl

theorem transactions_of_delivery (when : Nat) (d : Option ReplLogXRows) :
    (w.obj.starts when ++ w.obj.rowCalls d).filterMap Call.transaction? =
      if w.obj.inTransaction = 1 ∧ w.obj.onTransaction then [.start] else [] := by
  have hrows : (w.obj.rowCalls d).filterMap Call.transaction? = [] := by
    unfold Listener.rowCalls
    cases d with
    | none => rfl
    | some x =>
      dsimp only
      split <;> rfl
  rw [List.filterMap_append, hrows, List.append_nil]
  unfold Listener.starts
  split <;> rfl

theorem Delivery.bracketed {ev : RowsLogEvent2} {map : TableMapLogEvent} {d : Option ReplLogXRows}
    (hd : Delivery w ev map d w') (h : w.Bracketed) (hs : w.obj.state = .inprocess) :
    w'.Bracketed where
  onTransaction := hd.kept.onTransaction.trans h.onTransaction
  flag := by
    have hflag := h.flag
    rw [hd.obj]
    simp only [Listener.started]
    split <;> omega
  state _ := hd.kept.state hs
  calls := by
    rw [h.extend (hd.calls.trans (List.append_assoc ..)), transactions_of_delivery, hd.obj]
    simp only [Listener.started, h.onTransaction, and_true]
    by_cases h1 : w.obj.inTransaction = 1
    · simp [h1, bracket]
    · simp [h1, bracket]

theorem Step.bracketed {x : Handled} (hstep : Step os w x w') (h : w.Bracketed)
    (hG : Visit.reopens os (x, w) = false) : w'.Bracketed := by
  have hk := hstep.kept
  have silent : w.calls = w.calls ++ [] := (List.append_nil _).symm
  cases hstep with
  | noMem | query | formatDescription | tableMap | rotate | noDescription =>
    exact h.same rfl rfl id silent rfl
  | opens hg ho =>
    have h2 : w.obj.inTransaction ≠ 2 := by simpa [Visit.reopens, hg, ho] using hG
    exact {
      onTransaction := h.onTransaction
      flag := Nat.le_succ 1
      state := fun h' => by cases h'
      calls := h.calls.trans (by simp [Listener.opened, h2]) }
  | commits hg hc hclose => exact h.ended rfl rfl rfl (by rw [hclose]; rfl)
  | closes hg hc hclose => exact h.ended rfl rfl silent (by rw [hclose]; rfl)
  | xid | xaPrepareLog => exact h.ended rfl rfl rfl (transactions_of_commits _)
  | @other type when =>
    have hno : (w.obj.heartbeats when).filterMap Call.transaction? = [] := by
      unfold Listener.heartbeats
      split <;> rfl
    refine h.same hk.onTransaction ?_ hk.state rfl hno
    simp only [World.put_obj]
    split <;> rfl
  | heartbeat =>
    refine h.same hk.onTransaction rfl hk.state rfl ?_
    split <;> rfl
  | rows hr =>
    cases hr with
    | early | unwatched => exact h
    | noMap => exact h.same rfl rfl id silent rfl
    | delivery hs _ _ hd => exact hd.bracketed h hs

theorem Broken.alternating {x : Handled} {c : Crash} (hb : Broken os w x c w') (h : w.Bracketed) :
    Alternating w'.calls := by
  cases hb with
  | @nullHeartbeat when _ hg hc hclose =>
    have hended : ((w.ask.say [.onTransaction when .commit]).put w.obj.ended).Bracketed :=
      h.ended rfl rfl rfl (by rw [hclose]; rfl)
    exact hended.alternating
  | rows hs hd => exact (hd.bracketed h hs).alternating

theorem bracketed_invariant : Invariant lib os (fun w _ => w.Bracketed)
    (fun v => Visit.reopens os v = false) fun _ w _ => Alternating w.calls where
  rpl _ h := h.same rfl rfl id (List.append_nil _).symm rfl
  fail _ h := h.same rfl rfl id (List.append_nil _).symm rfl
  step x he hw hG :=
    (handle_step he x).mono (fun _ _ hstep => hstep.bracketed hw hG) fun _ _ hb => hb.alternating hw
  memory hw := hw.alternating

/-- The calls of `on_transaction` alternate, however the run ends, when no
transaction is opened while another one is reported and not closed. -/
theorem replicationLoop_alternates (packets : List Packet) (k : Nat) (he : w.error = none)
    (hon : w.obj.onTransaction = true) (hflag : w.obj.inTransaction = 0) (hcalls : w.calls = [])
    (hG : ∀ v ∈ loopVisits lib os needStop k packets w, Visit.reopens os v = false) :
    Triple (replicationLoop lib os needStop k packets) w (fun _ w' => Alternating w'.calls)
      fun _ w' => Alternating w'.calls := by
  have hw : w.Bracketed :=
    { onTransaction := hon
      flag := by rw [hflag]; exact Nat.zero_le 2
      state := fun h => by rw [hflag] at h; cases h
      calls := by rw [hcalls, hflag]; rfl }
  exact (bracketed_invariant.replicationLoop (h := []) packets k he hw hG).mono
    (fun _ _ h => h.alternating) fun _ _ h => h

theorem replicationLoop_alternates_sample : ∃ t w',
    (replicationLoop sampleLibrary sampleAllocator (fun _ => false) 0
      (samplePackets (.xid 8) ++ samplePackets (.query 12 (ascii "COMMIT")))).run
        (sampleWorld true true true) = .ok t w' ∧ Alternating w'.calls := by
  obtain ⟨t, w', hrun, -⟩ := sampleWorld_run
    (samplePackets (.xid 8) ++ samplePackets (.query 12 (ascii "COMMIT")))
    (by decide +kernel)
  exact ⟨t, w', hrun,
    (replicationLoop_alternates _ 0 rfl rfl rfl rfl (by decide +kernel)).ok hrun⟩

instance (cs : List Call) : Decidable (Alternating cs) := inferInstanceAs (Decidable (_ = true))

def rollbackPackets : List Packet :=
  samplePackets (.query 8 (ascii "ROLLBACK")) ++ samplePackets (.xid 12)

/-- `START`, `START`, `COMMIT` -/
theorem rollbackPackets_not_alternating : ∃ t w',
    (replicationLoop sampleLibrary sampleAllocator (fun _ => false) 0 rollbackPackets).run
      (sampleWorld true true true) = .ok t w' ∧ ¬ Alternating w'.calls := by
  obtain ⟨t, w', hrun, hbad⟩ := exists_of_returned
    (show returned (fun _ w' => decide (¬ Alternating w'.calls))
      ((replicationLoop sampleLibrary sampleAllocator (fun _ => false) 0 rollbackPackets).run
        (sampleWorld true true true)) = true by decide +kernel)
  exact ⟨t, w', hrun, of_decide_eq_true hbad⟩

end RplListener
