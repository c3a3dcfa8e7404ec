import RplListener.Listener.SessionSetup
import RplListener.Listener.SessionThread

/-!
# Sessions are serial

Whatever the other clients look at and whenever they stop the listener, what is
told of a session is what its calls and its thread tell one after the other.
-/

namespace RplListener

open Bytes Refine Interleave

namespace Session

section

variable (lib : Library) (os : Allocator) (session : Session) (o : Listener) (heap : Heap)

def Starts (w : World) : Prop :=
  w.obj.InProcess ∧ ∃ c, (session.setup os).run { world := { obj := o, heap } } = .ok () c ∧ c.world = w

/-- What is told before the thread, or by the thread alone on the first packets,
with some answers for the looks at `need_stop`. -/
inductive Tells : Told → Prop
  | started {w : World} (starts : Starts os session o heap w) : Tells w.told
  | handled {w w' : World} {done : List Packet} {needStop : Nat → Bool}
      (starts : Starts os session o heap w) (first : done <+: session.packets)
      (run : (processReplicationThreadFnc lib os needStop session.binlogOpen done).run w = .ok () w') :
      Tells w'.told

end

variable {lib : Library} {os : Allocator} {session : Session} {deserialize : Deserialize}
variable {args : InitArgs} {o : Listener} {heap heap' : Heap}

theorem system_safe (h : (newListener os deserialize args).run heap = .ok o heap') :
    (session.scenario.system lib os o heap').Safe
      (rules session.slot (Starts os session o heap') (Tells lib os session o heap')) := by
  have hstate : o.state = .created := (newListener_fresh h).1
  refine ⟨⟨.inl rfl, fun _ hin => ?_, fun hn => absurd rfl hn, fun hn => absurd rfl hn⟩, fun i => ?_⟩
  · exact hin.ne (by decide) (by decide) hstate
  · cases i with
    | client n =>
      by_cases hn : n = 0
      · subst hn
        exact setupCode_spec (fun _ hw => .started hw) (session.aside 0) session.adds
          (fun c' hrun hin => ⟨hin, c', hrun, rfl⟩) _ ⟨rfl, rfl⟩
      · change (clientCode os (.client n) (if n = 0 then _ else session.later n)).Safe _ _ _ _
        rw [if_neg hn]
        exact later_spec (session.aside n) _ trivial
    | repl k =>
      by_cases hk : k = 0
      · subst hk
        exact thread_spec (fun _ _ _ _ hw hdone hrun => .handled hw hdone hrun) _
          ⟨rfl, fun hn => absurd rfl hn⟩
      · exact otherThread_spec hk _ trivial

/-- In every run of a session in which no client ends the listener while the
thread handles an event: between two events, and from the end on, what is told is
what the setup and then the thread alone tell of the packets so far. -/
theorem serializable (h : (newListener os deserialize args).run heap = .ok o heap')
    (schedule : List Tid)
    (hq : neverInterrupts (session.scenario.system lib os o heap') schedule = true)
    (hthread : ((session.scenario.system lib os o heap').run schedule).state.threads ≠ [])
    (hrest : ((session.scenario.system lib os o heap').run schedule).state.disabled 0 = false ∨
      ((session.scenario.system lib os o heap').run schedule).state.obj.state = .ended) :
    Tells lib os session o heap' ((session.scenario.system lib os o heap').run schedule).state.told := by
  have hsafe : ((session.scenario.system lib os o heap').run schedule).Safe
      (rules session.slot (Starts os session o heap') (Tells lib os session o heap')) :=
    (system_safe h).run (allowed_of_neverInterrupts (fun _ _ _ hu => hu) hq)
  exact hsafe.inv.told hthread hrest

def sampleSession : Session where
  adds := [(ascii "d", ascii "t")]
  calls := sampleCalls sampleStatus
  slot := 0
  later _ := [.inProcess, .getLastSucessfulPosition 10, .stopReplication 0]
  binlogOpen := none
  packets := [.heartbeat 20 5, .heartbeat 20 5, .eof]
  aside n c hc := by
    simp only [List.mem_cons, List.not_mem_nil, or_false] at hc
    rcases hc with rfl | rfl | rfl <;> trivial

/-- The thread is cancelled between its two heartbeats. -/
def sampleTurns : List Tid := sampleSchedule 23 20 ++ sampleSchedule 120 30

theorem serializable_sample :
    Tells sampleLibrary grantingAllocator sampleSession unplacedArgs.listener {}
      ((sampleSession.scenario.system sampleLibrary grantingAllocator unplacedArgs.listener {}).run
        sampleTurns).state.told :=
  @serializable sampleLibrary grantingAllocator sampleSession (fun _ => none) unplacedArgs
    unplacedArgs.listener {} {} rfl sampleTurns (by decide +kernel) (by decide +kernel)
    (by decide +kernel)

end Session

end RplListener
