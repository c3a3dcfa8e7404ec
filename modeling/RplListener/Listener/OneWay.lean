import RplListener.Listener.Prepared
import RplListener.Listener.ThreadSteps
import RplListener.Rows.RoundTrip

/-!
# The life of a listener, in every interleaving

A new listener, any number of client threads that call what they like, and the
replication threads that are created. The state only moves forward, one
preparation and one start get past their first step, one thread is created, and
no callback is made before the second phase.

`ENDED` is quiet as long as no client forces it on a thread that is handling an
event.
-/

namespace RplListener

open Bytes Refine Interleave Outline

variable {lib : Library} {os : Allocator} {deserialize : Deserialize} {args : InitArgs}
variable {sc : Scenario} {heap heap' : Heap} {o : Listener}

-- ---------------------------------------------------------------------------
-- The beginning
-- ---------------------------------------------------------------------------

theorem newListener_fresh (h : (newListener os deserialize args).run heap = .ok o heap') :
    o.state = .created ∧ o.tables = [] := by
  have hargs : args.listener.state = .created ∧ args.listener.tables = [] := by
    unfold InitArgs.listener
    cases args.masterFileName with
    | none => exact ⟨rfl, rfl⟩
    | some name => exact ⟨rfl, rfl⟩
  unfold newListener at h
  split at h
  · obtain ⟨ok, heap₁, -, h⟩ := run_bind_inv h
    cases ok with
    | false =>
      obtain ⟨rfl, -⟩ := run_pure_inv h
      exact hargs
    | true =>
      obtain ⟨m, heap₂, -, h⟩ := run_bind_inv h
      obtain ⟨rfl, -⟩ := run_pure_inv h
      exact hargs
  · obtain ⟨rfl, -⟩ := run_pure_inv h
    exact hargs

theorem newListener_named (h : (newListener os deserialize args).run heap = .ok o heap')
    (hn : o.mLogNm ≠ []) : o.rpl.fileNameSet = true := by
  obtain ⟨hname, hrpl⟩ := newListener_position h
  rw [hrpl]
  rw [hname] at hn
  unfold InitArgs.listener at hn ⊢
  cases hargs : args.masterFileName with
  | none =>
    rw [hargs] at hn
    exact absurd rfl hn
  | some name => rfl

theorem system_life (h : (newListener os deserialize args).run heap = .ok o heap') :
    (sc.system lib os o heap').state.outline.Life where
  created _ := rfl
  prepares := Nat.zero_le _
  early _ := rfl
  starts := Nat.zero_le _
  ready h1 _ := by
    have hcode : (sc.system lib os o heap').state.outline.state.code = 0 :=
      congrArg ReplState.code (newListener_fresh h).1
    omega
  launched h1 := absurd h1 (lt_irrefl _)
  named hn := newListener_named h (by simpa [Scenario.system, Shared.outline] using hn)
  spoken hs := by cases hs
  owners _ := le_rfl
  threads := rfl
  disabled _ hk := by cases hk

theorem system_safe (still : Prop) (h : (newListener os deserialize args).run heap = .ok o heap') :
    (sc.system lib os o heap').Safe (rules still) := by
  have hstate : (sc.system lib os o heap').state.outline.state ≠ .ended := by
    rw [show (sc.system lib os o heap').state.outline.state = .created from (newListener_fresh h).1]
    decide
  refine ⟨⟨system_life h, fun _ => Calm.of_not_ended hstate⟩, fun i => ?_⟩
  cases i with
  | client n => exact clientCode_spec os (sc.clients n) _ trivial
  | repl k =>
    exact Interleaved.processReplicationThreadFnc_spec (sc.binlogOpen k) (sc.packets k) _
      fun _ => rfl

-- ---------------------------------------------------------------------------
-- One way
-- ---------------------------------------------------------------------------

theorem allowed_any (c : System Tid Crash Shared) (schedule : List Tid) :
    Allowed (rules False) c schedule := by
  induction schedule generalizing c with
  | nil => trivial
  | cons i is ih => exact ⟨False.elim, ih _⟩

def Shared.who (s : Shared) (m : Milestone) : List Tid := s.outline.who m

/-- What one more step does to the life of a listener. -/
structure OneWay (s s' : Shared) : Prop where
  state : s.obj.state.code ≤ s'.obj.state.code
  prepares : (s'.who .preparePassed).length ≤ 1
  starts : (s'.who .startPassed).length ≤ 1
  threads : s'.threads.length ≤ 1
  created : s.threads.length < s'.threads.length →
    s.who .prepareDone ≠ [] ∧ s.obj.tables ≠ [] ∧ s.obj.rpl.fileNameSet = true
  silent : s'.calls ≠ [] → s'.obj.state = .inprocess ∨ s'.obj.state = .ended

theorem OneWay.of_life {s s' : Shared} {i : Tid} (hl : s'.outline.Life)
    (h : Guarantee i s.outline s'.outline ∨ s' = s) : OneWay s s' := by
  have hg : Guarantee i s.outline s'.outline := by
    rcases h with h | rfl
    · exact h
    · exact .refl _ _
  refine ⟨hg.state, hl.prepares, hl.starts, hl.threads_le, fun hlt => ?_, fun hcalls => ?_⟩
  · have hready := hg.created hlt
    exact ⟨hready.prepared, List.length_pos_iff.mp hready.tables, hready.fileNameSet⟩
  · have hcode : 90 ≤ s'.obj.state.code := hl.spoken (by simpa [Shared.outline] using hcalls)
    cases hs : s'.obj.state <;> simp_all [ReplState.code]

/-- In every run the state only moves forward; at most one call of
`prepare_replication` and one of `start_replication` get past their first
compare-and-swap; at most one thread is created, after a successful preparation
with a table and a file name; and nothing is called before the second phase. -/
theorem life_is_one_way (h : (newListener os deserialize args).run heap = .ok o heap')
    (schedule : List Tid) (i : Tid) :
    OneWay ((sc.system lib os o heap').run schedule).state
      (((sc.system lib os o heap').run schedule).step i).state := by
  have hsafe : ((sc.system lib os o heap').run schedule).Safe (rules False) :=
    (system_safe False h).run (allowed_any _ schedule)
  obtain ⟨hsafe', hg⟩ := hsafe.step i False.elim
  exact .of_life hsafe'.inv.1 (hg.imp_left And.left)

/-- What was passed in a listener, and what its thread was created with. -/
structure OneLife (s : Shared) : Prop where
  prepares : (s.who .preparePassed).length ≤ 1
  starts : (s.who .startPassed).length ≤ 1
  threads : s.threads.length ≤ 1
  launched : s.threads ≠ [] →
    s.who .prepareDone ≠ [] ∧ s.obj.tables ≠ [] ∧ s.obj.rpl.fileNameSet = true

theorem OneLife.of_life {s : Shared} (h : s.outline.Life) : OneLife s where
  prepares := h.prepares
  starts := h.starts
  threads := h.threads_le
  launched hne :=
    have hready := h.launched (List.length_pos_iff.mpr hne)
    ⟨hready.prepared, List.length_pos_iff.mp hready.tables, hready.fileNameSet⟩

theorem state_le (still : Prop) (h : (newListener os deserialize args).run heap = .ok o heap')
    {schedule later : List Tid}
    (ha : Allowed (rules still) (sc.system lib os o heap') (schedule ++ later)) :
    ((sc.system lib os o heap').run schedule).state.obj.state.code ≤
      ((sc.system lib os o heap').run (schedule ++ later)).state.obj.state.code := by
  obtain ⟨hfirst, hlater⟩ := allowed_append.mp ha
  rw [System.run_append]
  exact ((system_safe still h).run hfirst).run_le (f := fun s => s.obj.state.code)
    (fun i s s' (hg : (rules still).guar i s s') => hg.1.state) hlater

/-- In every run of any clients the state never decreases; at most one call of
`prepare_replication` and one of `start_replication` were let in, and at most one
thread was created, by a listener that is prepared, with a table and a file name. -/
theorem one_life (h : (newListener os deserialize args).run heap = .ok o heap')
    (schedule later : List Tid) :
    ((sc.system lib os o heap').run schedule).state.obj.state.code ≤
        ((sc.system lib os o heap').run (schedule ++ later)).state.obj.state.code ∧
      OneLife ((sc.system lib os o heap').run (schedule ++ later)).state :=
  ⟨state_le False h (allowed_any _ _),
    .of_life ((system_safe False h).run (allowed_any _ (schedule ++ later))).inv.1⟩

/-- A client that adds a table, prepares and starts, and then calls `after`. -/
def sampleSystem (packets : List Packet) (after : List ClientCall) : System Tid Crash Shared :=
  Scenario.system sampleLibrary grantingAllocator
    { clients := fun _ =>
        [.tableAdd (ascii "d") (ascii "t"), .prepareReplication 0 (sampleCalls sampleStatus),
          .startReplication 0 .created] ++ after
      binlogOpen := fun _ => none
      packets := fun _ => packets }
    unplacedArgs.listener {}

def sampleSchedule (client thread : Nat) : List Tid :=
  List.replicate client (.client 0) ++ List.replicate thread (.repl 0)

/-- The client prepares and starts, and the thread calls its first heartbeat. -/
theorem life_is_one_way_sample :
    let c := (sampleSystem [.heartbeat 20 5, .eof] []).run (sampleSchedule 60 16)
    OneWay c.state (c.step (.repl 0)).state ∧
      c.state.threads.length = 1 ∧ (c.step (.repl 0)).state.calls = [.onHeartbeat 5] :=
  ⟨@life_is_one_way sampleLibrary grantingAllocator (fun _ => none) unplacedArgs _ {} {}
    unplacedArgs.listener rfl _ _, by decide +kernel, by decide +kernel⟩

theorem one_life_sample :
    let c := (sampleSystem [.heartbeat 20 5, .eof] []).run (sampleSchedule 60 8 ++ sampleSchedule 0 60)
    OneLife c.state ∧ c.state.threads.length = 1 ∧ c.state.obj.state = .ended :=
  ⟨(@one_life sampleLibrary grantingAllocator (fun _ => none) unplacedArgs _ {} {}
    unplacedArgs.listener rfl _ _).2, by decide +kernel, by decide +kernel⟩

-- ---------------------------------------------------------------------------
-- Quiet at the end
-- ---------------------------------------------------------------------------

/-- A step of a client ends the listener while a thread has cancellation disabled. -/
def interrupts (i : Tid) (s s' : Shared) : Bool :=
  match i with
  | .client _ => s.obj.state != .ended && s'.obj.state == .ended &&
      (List.range s.threads.length).any s.disabled
  | .repl _ => false

def neverInterrupts (c : System Tid Crash Shared) : List Tid → Bool
  | [] => true
  | i :: is => !interrupts i c.state (c.step i).state && neverInterrupts (c.step i) is

theorem undisturbed_of_not_interrupts {i : Tid} {s s' : Shared} (h : interrupts i s s' = false) :
    Undisturbed i s.outline s'.outline := by
  rintro n rfl k hk hdis he
  by_contra hne
  have hs' : s'.obj.state = .ended := he
  have hs : s.obj.state ≠ .ended := hne
  have hany : (List.range s.threads.length).any s.disabled = true :=
    List.any_eq_true.mpr ⟨k, List.mem_range.mpr hk, hdis⟩
  simp [interrupts, hs, hs', hany] at h

theorem allowed_of_neverInterrupts {D : Rules Tid Shared}
    (hD : ∀ i s s', Undisturbed i s.outline s'.outline → D.assume i s s')
    {c : System Tid Crash Shared} {schedule : List Tid} (h : neverInterrupts c schedule = true) :
    Allowed D c schedule := by
  induction schedule generalizing c with
  | nil => trivial
  | cons i is ih =>
    simp only [neverInterrupts, Bool.and_eq_true, Bool.not_eq_true'] at h
    exact ⟨hD _ _ _ (undisturbed_of_not_interrupts h.1), ih h.2⟩

/-- A thread that steps in `ENDED`, when nothing was interrupted before. -/
theorem quiet_step (h : (newListener os deserialize args).run heap = .ok o heap')
    {schedule : List Tid} (ha : Allowed (rules True) (sc.system lib os o heap') schedule) (k : Nat)
    (he : ((sc.system lib os o heap').run schedule).state.obj.state = .ended) :
    (((sc.system lib os o heap').run schedule).step (.repl k)).state.told =
      ((sc.system lib os o heap').run schedule).state.told := by
  have hsafe : ((sc.system lib os o heap').run schedule).Safe (rules True) := (system_safe True h).run ha
  have hassume : (rules True).assume (.repl k) ((sc.system lib os o heap').run schedule).state
      (((sc.system lib os o heap').run schedule).step (.repl k)).state := by
    rintro - n ⟨⟩
  rcases (hsafe.step (.repl k) hassume).2 with hg | hsame
  · exact hg.2 trivial k rfl he
  · rw [hsame]

/-- In a run in which no client ends the listener while the thread handles an
event, a thread that steps in `ENDED` calls nothing and changes neither the table
maps nor the position. -/
theorem ended_is_quiet (h : (newListener os deserialize args).run heap = .ok o heap')
    (schedule : List Tid) (hq : neverInterrupts (sc.system lib os o heap') schedule = true) (k : Nat)
    (he : ((sc.system lib os o heap').run schedule).state.obj.state = .ended) :
    (((sc.system lib os o heap').run schedule).step (.repl k)).state.told =
      ((sc.system lib os o heap').run schedule).state.told :=
  quiet_step h (allowed_of_neverInterrupts (fun _ _ _ hu _ => hu) hq) k he

theorem ended_is_quiet_sample :
    (((sampleSystem [.heartbeat 20 5, .eof] []).run (sampleSchedule 60 60)).step (.repl 0)).state.told =
      ((sampleSystem [.heartbeat 20 5, .eof] []).run (sampleSchedule 60 60)).state.told :=
  @ended_is_quiet sampleLibrary grantingAllocator (fun _ => none) unplacedArgs _ {} {}
    unplacedArgs.listener rfl _ (by decide +kernel) 0 (by decide +kernel)

/-- A thread that a client ends under a heartbeat still calls. -/
example :
    let c := (sampleSystem [.heartbeat 20 5] [.stopReplication 0]).run
      (sampleSchedule 60 14 ++ List.replicate 60 (.client 0))
    c.state.obj.state = .ended ∧ c.state.calls = [] ∧
      (c.run (List.replicate 9 (.repl 0))).state.calls = [.onHeartbeat 5] := by
  decide +kernel

theorem ReplState.eq_ended {st : ReplState} (h : ReplState.ended.code ≤ st.code) : st = .ended := by
  cases st <;> first | rfl | exact absurd h (by decide)

/-- Once a run is in `ENDED` it stays there, and whatever the clients do from then on,
no thread calls anything or changes the table maps or the position; as long as no
client ends the listener while the thread handles an event. -/
theorem ended_stays_quiet (h : (newListener os deserialize args).run heap = .ok o heap')
    (schedule later : List Tid)
    (hq : neverInterrupts (sc.system lib os o heap') (schedule ++ later) = true)
    (he : ((sc.system lib os o heap').run schedule).state.obj.state = .ended) (k : Nat) :
    ((sc.system lib os o heap').run (schedule ++ later)).state.obj.state = .ended ∧
      (((sc.system lib os o heap').run (schedule ++ later)).step (.repl k)).state.told =
        ((sc.system lib os o heap').run (schedule ++ later)).state.told := by
  have ha := allowed_of_neverInterrupts (D := rules True) (fun _ _ _ hu _ => hu) hq
  have hle := state_le True h ha
  rw [he] at hle
  have hended := ReplState.eq_ended hle
  exact ⟨hended, quiet_step h ha k hended⟩

theorem ended_stays_quiet_sample :
    let c := (sampleSystem [.heartbeat 20 5, .eof] [.stopReplication 0]).run
      (sampleSchedule 60 60 ++ sampleSchedule 20 1)
    (c.step (.repl 0)).state.told = c.state.told :=
  (@ended_stays_quiet sampleLibrary grantingAllocator (fun _ => none) unplacedArgs _ {} {}
    unplacedArgs.listener rfl _ _ (by decide +kernel) (by decide +kernel) 0).2

/-- A table map that is handled while `stop_replication` gives up waiting is saved in
`ENDED`, and the position moves behind it. -/
theorem tableMap_after_end :
    let c := (sampleSystem [.event 40 (.leaf (.tableMap 6 sampleTable))] [.stopReplication 0]).run
      (sampleSchedule 60 14 ++ List.replicate 60 (.client 0))
    let c' := c.run (List.replicate 5 (.repl 0))
    c.state.obj.state = .ended ∧ c'.state.obj.state = .ended ∧
      (c.state.obj.globTableMapEvents.find 1).isNone ∧ (c'.state.obj.globTableMapEvents.find 1).isSome ∧
      c.state.obj.rpl.startPosition = 157 ∧ c'.state.obj.rpl.startPosition = 196 := by
  exact ⟨by decide +kernel, by decide +kernel, by decide +kernel, by decide +kernel, by decide +kernel,
    by decide +kernel⟩

end RplListener
