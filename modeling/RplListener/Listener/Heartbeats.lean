import RplListener.Listener.Callbacks

/-!
# Heartbeats

Which heartbeats a step owes and which it makes. An event that is not handled
makes its own; a query is not in the list of those, and the branch that should
make up for it does so only when it should not.
-/

namespace RplListener

open Bytes Refine

variable {lib : Library} {os : Allocator} {needStop : Nat → Bool} {w w' : World}

def Call.isHeartbeat : Call → Bool
  | .onHeartbeat _ => true
  | _ => false

def Call.isTransaction : Call → Bool
  | .onTransaction .. => true
  | _ => false

def Handled.isQuery : Handled → Bool
  | .event (.query ..) => true
  | _ => false

/-- A heartbeat, an event that is not handled and a query without a call of
`on_transaction` owe one call; `cs` are the calls that are made. -/
def Handled.owes (cs : List Call) : Handled → List Call
  | .heartbeat when => [.onHeartbeat when]
  | .event ev =>
    if ev.type.listed = false ∨ (ev.type = .query ∧ ¬ cs.any Call.isTransaction) then
      [.onHeartbeat ev.when]
    else []

def Handled.Balanced (x : Handled) (cs : List Call) : Prop := cs.filter Call.isHeartbeat = x.owes cs

instance (x : Handled) (cs : List Call) : Decidable (x.Balanced cs) :=
  inferInstanceAs (Decidable (_ = _))

variable (lib os) in
def Visit.calls (v : Visit) : List Call :=
  match (handle lib os v.1).run v.2 with
  | .ok _ w' | .error _ w' => w'.calls.drop v.2.calls.length

structure Listener.Ready (o : Listener) : Prop where
  state : o.state = .inprocess
  onRow : o.onRow = true
  onHeartbeat : o.onHeartbeat = true
  onTransaction : o.onTransaction = true

theorem Listener.Ready.rpl {o : Listener} (h : o.Ready) (rpl : MysqlRpl) :
    { o with rpl }.Ready := ⟨h.state, h.onRow, h.onHeartbeat, h.onTransaction⟩

theorem Kept.ready (hk : Kept w w') (h : w.obj.Ready) : w'.obj.Ready where
  state := hk.state h.state
  onRow := hk.onRow.trans h.onRow
  onHeartbeat := hk.onHeartbeat.trans h.onHeartbeat
  onTransaction := hk.onTransaction.trans h.onTransaction

theorem isRows_listed {ev : RowsLogEvent2} (isRows : ev.typeCode.firstImage.isSome) :
    ev.typeCode.listed = true ∧ ev.typeCode ≠ .query := by
  revert isRows
  cases ev.typeCode <;> simp [LogEventType.firstImage, LogEventType.general, LogEventType.listed]

theorem Handled.balanced_of_listed {ev : LeafEvent} {cs : List Call} (hl : ev.type.listed = true)
    (hq : ev.type ≠ .query) (hcs : cs.filter Call.isHeartbeat = []) :
    (Handled.event ev).Balanced cs := by
  rw [Handled.Balanced, hcs, Handled.owes, if_neg (by simp [hl, hq])]

theorem Delivery.no_heartbeats {ev : RowsLogEvent2} {d : Option ReplLogXRows} :
    (w.obj.starts ev.when ++ w.obj.rowCalls d).filter Call.isHeartbeat = [] := by
  unfold Listener.starts Listener.rowCalls
  cases d with
  | none => split <;> rfl
  | some x =>
    dsimp only
    split <;> split <;> rfl

/-- The calls of a step without an error are as owed, unless it is a query. -/
theorem Step.balanced {x : Handled} (h : Step os w x w') (herr : w'.error = none)
    (hw : w.obj.Ready) :
    ∃ cs, w'.calls = w.calls ++ cs ∧ (x.Balanced cs ↔ x.isQuery = false) := by
  have query (when : Nat) (text : List UInt8) :
      (Handled.event (.query when text)).Balanced [] ↔
        (Handled.event (.query when text)).isQuery = false := by
    simp [Handled.Balanced, Handled.owes, LeafEvent.type, Handled.isQuery]
  have silent {ev : LeafEvent} (hl : ev.type.listed = true) (hq : ev.type ≠ .query)
      (hx : (Handled.event ev).isQuery = false) :
      (Handled.event ev).Balanced [] ↔ (Handled.event ev).isQuery = false :=
    ⟨fun _ => hx, fun _ => Handled.balanced_of_listed hl hq rfl⟩
  have ended (when : Nat) : (w.obj.commits when).filter Call.isHeartbeat = [] := by
    unfold Listener.commits
    split <;> rfl
  cases h with
  | noMem => cases herr
  | noDescription => cases herr
  | opens | query | closes => exact ⟨[], (List.append_nil _).symm, query _ _⟩
  | commits =>
    refine ⟨_, rfl, ?_⟩
    simp [Handled.Balanced, Handled.owes, LeafEvent.type, LogEventType.listed, Handled.isQuery,
      Call.isHeartbeat, Call.isTransaction]
  | formatDescription | tableMap | rotate =>
    exact ⟨[], (List.append_nil _).symm, silent rfl (by simp [LeafEvent.type]) rfl⟩
  | xid | xaPrepareLog =>
    exact ⟨_, rfl, fun _ => rfl, fun _ =>
      Handled.balanced_of_listed rfl (by simp [LeafEvent.type]) (ended _)⟩
  | other unlisted =>
    refine ⟨_, rfl, fun _ => rfl, fun _ => ?_⟩
    simp [Handled.Balanced, Handled.owes, LeafEvent.type, unlisted, Listener.heartbeats, hw.state,
      hw.onHeartbeat, Call.isHeartbeat, LeafEvent.when]
  | heartbeat =>
    refine ⟨_, rfl, fun _ => rfl, fun _ => ?_⟩
    simp [Handled.Balanced, Handled.owes, hw.onHeartbeat, Call.isHeartbeat]
  | @rows ev isRows _ h =>
    obtain ⟨hlisted, hquery⟩ := isRows_listed isRows
    cases h with
    | early h => exact absurd hw.state h
    | noMap => cases herr
    | unwatched => exact ⟨[], (List.append_nil _).symm, silent hlisted hquery rfl⟩
    | delivery _ _ _ hd =>
      exact ⟨_, hd.calls.trans (List.append_assoc ..), fun _ => rfl, fun _ =>
        Handled.balanced_of_listed hlisted hquery Delivery.no_heartbeats⟩

/-- Every step makes the heartbeats it owes, and the calls of the run are those
of its steps. -/
def HeartbeatLaw (lib : Library) (os : Allocator) (visits : List Visit)
    (before after : List Call) : Prop :=
  after = before ++ visits.flatMap (Visit.calls lib os) ∧
    ∀ v ∈ visits, v.1.Balanced (v.calls lib os)

theorem heartbeat_invariant (c₀ : List Call) :
    Invariant lib os (fun w h => w.error = none → w.obj.Ready ∧
        w.calls = c₀ ++ h.flatMap (Visit.calls lib os) ∧
        ∀ v ∈ h, (v.1.Balanced (v.calls lib os) ↔ v.1.isQuery = false))
      (fun _ => True) fun _ _ _ => True where
  rpl _ h he := ⟨(h he).1.rpl _, (h he).2⟩
  fail _ _ he := by cases he
  step := by
    intro w h x he hw _
    obtain ⟨hready, hcalls, hall⟩ := hw he
    cases hrun : (handle lib os x).run w with
    | error c w' => exact Triple.of_run_error hrun trivial
    | ok a w' =>
      refine Triple.of_run hrun fun herr => ?_
      have hstep := (handle_step he x).ok hrun
      obtain ⟨cs, hcs, hiff⟩ := hstep.balanced herr hready
      have hv : Visit.calls lib os (x, w) = cs := by simp [Visit.calls, hrun, hcs]
      refine ⟨hstep.kept.ready hready, ?_, ?_⟩
      · simp [hcs, hcalls, hv]
      · exact List.forall_mem_append.mpr ⟨hall, by simpa [hv] using hiff⟩
  memory _ := trivial

/-- A run in `INPROCESS` makes the heartbeats that are owed, exactly when it
handles no query. -/
theorem replicationLoop_heartbeats_iff {packets : List Packet} {k : Nat} {t : Turn}
    (he : w.error = none) (hw : w.obj.Ready)
    (hrun : (replicationLoop lib os needStop k packets).run w = .ok t w') (herr : w'.error = none) :
    HeartbeatLaw lib os (loopVisits lib os needStop k packets w) w.calls w'.calls ↔
      ∀ v ∈ loopVisits lib os needStop k packets w, v.1.isQuery = false := by
  have hloop : Triple (replicationLoop lib os needStop k packets) w _ _ :=
    (heartbeat_invariant w.calls).replicationLoop (h := []) packets k he (fun _ => ⟨hw, by simp, by simp⟩)
      fun _ _ => trivial
  obtain ⟨-, hcalls, hall⟩ := hloop.ok hrun herr
  rw [List.nil_append] at hcalls hall
  constructor
  · intro hlaw v hv
    exact (hall v hv).mp (hlaw.2 v hv)
  · intro hno
    exact ⟨hcalls, fun v hv => (hall v hv).mpr (hno v hv)⟩

theorem sampleWorld_ready : (sampleWorld true true true).obj.Ready := ⟨rfl, rfl, rfl, rfl⟩

theorem sampleWorld_run (packets : List Packet) (h : returned (fun _ w' => w'.error.isNone)
      ((replicationLoop sampleLibrary sampleAllocator (fun _ => false) 0 packets).run
        (sampleWorld true true true)) = true) :
    ∃ t w', (replicationLoop sampleLibrary sampleAllocator (fun _ => false) 0 packets).run
      (sampleWorld true true true) = .ok t w' ∧ w'.error = none := by
  obtain ⟨t, w', hrun, herr⟩ := exists_of_returned h
  exact ⟨t, w', hrun, by simpa using herr⟩

def heartbeatPackets : List Packet :=
  [samplePacket (.tableMap 6 sampleTable), samplePacket sampleRows, samplePacket (.xid 8),
    .heartbeat 40 9, samplePacket (.other .gtidLog 10 gtidLog_unlisted)]

theorem replicationLoop_heartbeats_sample : ∃ t w',
    (replicationLoop sampleLibrary sampleAllocator (fun _ => false) 0 heartbeatPackets).run
      (sampleWorld true true true) = .ok t w' ∧
    HeartbeatLaw sampleLibrary sampleAllocator (loopVisits sampleLibrary sampleAllocator
      (fun _ => false) 0 heartbeatPackets (sampleWorld true true true)) [] w'.calls := by
  obtain ⟨t, w', hrun, herr⟩ := sampleWorld_run heartbeatPackets (by decide +kernel)
  exact ⟨t, w', hrun, (replicationLoop_heartbeats_iff rfl sampleWorld_ready hrun herr).mpr
    (by decide +kernel)⟩

/-- `BEGIN` gets no heartbeat, and the reported `COMMIT` gets one. -/
theorem samplePackets_unbalanced : ∃ t w',
    (replicationLoop sampleLibrary sampleAllocator (fun _ => false) 0
      (samplePackets (.query 8 (ascii "COMMIT")))).run (sampleWorld true true true) = .ok t w' ∧
    w'.error = none ∧
    ¬ HeartbeatLaw sampleLibrary sampleAllocator (loopVisits sampleLibrary sampleAllocator
      (fun _ => false) 0 (samplePackets (.query 8 (ascii "COMMIT"))) (sampleWorld true true true))
      [] w'.calls := by
  obtain ⟨t, w', hrun, herr⟩ := sampleWorld_run
    (samplePackets (.query 8 (ascii "COMMIT"))) (by decide +kernel)
  refine ⟨t, w', hrun, herr, fun hlaw => ?_⟩
  exact absurd hlaw.2 (by decide +kernel)

end RplListener
