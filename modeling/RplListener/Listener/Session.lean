import RplListener.Listener.OneWay

/-!
# Sessions

One client adds the tables, prepares and starts. What it calls then, and what the
other clients call at any time, only looks at the listener or stops it. The rules
of a session say who changes the world that the replication thread works on.
-/

namespace RplListener

open Bytes Refine Interleave

-- ---------------------------------------------------------------------------
-- What is called
-- ---------------------------------------------------------------------------

/-- A call of client `n` beside the replication thread; `slot` is the thread's
error structure. -/
def ClientCall.Aside (slot n : Nat) : ClientCall → Prop
  | .stopReplication _ | .getLastSucessfulPosition _ | .inProcess => True
  | .getTablemapEvents slot' => n = 0 ∧ slot' ≠ slot
  | _ => False

structure Session where
  adds : List (List UInt8 × List UInt8)
  calls : ServerCalls
  slot : Nat
  later : Nat → List ClientCall
  binlogOpen : Option String
  packets : List Packet
  aside : ∀ n, ∀ c ∈ later n, c.Aside slot n

namespace Session

variable (session : Session)

def setupCalls : List ClientCall :=
  session.adds.map (fun x => .tableAdd x.1 x.2) ++
    [.prepareReplication session.slot session.calls, .startReplication session.slot .created]

def scenario : Scenario where
  clients n := if n = 0 then session.setupCalls ++ session.later 0 else session.later n
  binlogOpen _ := session.binlogOpen
  packets _ := session.packets

end Session

/-- What the client does up to the start, alone. -/
def Session.setup (os : Allocator) (session : Session) : ClientM Unit := do
  addTables os session.adds
  Client.prepareReplication session.calls
  onWorld (startReplication none)

-- ---------------------------------------------------------------------------
-- Worlds
-- ---------------------------------------------------------------------------

/-- The calls that were made, the table maps and the position. -/
abbrev Told := List Call × TableMapEvents × List UInt8 × Bool × Nat

namespace World

variable (w : World)

def told : Told :=
  (w.calls, w.obj.globTableMapEvents, w.obj.mLogNm, w.obj.rpl.fileNameSet, w.obj.rpl.startPosition)

def withState (st : ReplState) : World := { w with obj := { w.obj with state := st } }

def begun : World := w.withState (if w.obj.positionWasSetted then .inprocess else .inprocess1)

end World

def Listener.InProcess (o : Listener) : Prop := o.state = .inprocess1 ∨ o.state = .inprocess

theorem Listener.InProcess.ne {o : Listener} (h : o.InProcess) {st : ReplState}
    (h₁ : st ≠ .inprocess1) (h₂ : st ≠ .inprocess) : o.state ≠ st := by
  rintro rfl
  exact h.elim h₁ h₂

theorem World.begun_inProcess (w : World) : w.begun.obj.InProcess := by
  unfold begun withState Listener.InProcess
  dsimp only
  split <;> simp

-- ---------------------------------------------------------------------------
-- The rules
-- ---------------------------------------------------------------------------

namespace Session

/-- What is done to the world that the thread works on, by someone else. -/
inductive Change (slot : Nat) (s s' : Shared) : Prop
  | same (world : s'.world slot = s.world slot)
  | begun (state : s.obj.state = .postPrepared) (world : s'.world slot = (s.world slot).begun)
  | ended (inProcess : s.obj.InProcess) (world : s'.world slot = (s.world slot).withState .ended)
  | after (before : s.obj.state = .ended) (state : s'.obj.state = .ended) (told : s'.told = s.told)

section

variable (slot : Nat) (Starts : World → Prop) (Tells : Told → Prop)

structure Created (s : Shared) : Prop where
  threads : s.threads = [slot]
  state : s.obj.state = .postPrepared
  noError : s.errors slot = none
  starts : Starts (s.world slot).begun

structure Between (s : Shared) : Prop where
  threads : s.threads = [] ∨ s.threads = [slot]
  early : s.threads = [] → ¬ s.obj.InProcess
  told : s.threads ≠ [] → s.disabled 0 = false ∨ s.obj.state = .ended → Tells s.told
  calm : s.threads ≠ [] → s.obj.state = .ended → s.cancelled 0 = true ∨ s.disabled 0 = true

/-- Client 0 sets up the listener and launches its thread; the thread works on the
world from then on. -/
structure Shares (i : Tid) (s s' : Shared) : Prop where
  threads : s.threads ≠ [] → s'.threads = s.threads
  setup : i ≠ .client 0 → s.threads = [] → s'.threads = [] ∧ s'.client slot = s.client slot
  launched : s.threads = [] → s'.threads ≠ [] → Created slot Starts s'
  held : i ≠ .client 0 → s.obj.state = .postPrepared → s'.obj = s.obj
  final : i ≠ .client 0 → s.obj.state = .ended → s'.obj.state = .ended
  world : i ≠ .repl 0 → s.threads ≠ [] → Change slot s s'
  disabled : i ≠ .repl 0 → s'.disabled 0 = s.disabled 0
  cancelled : s.cancelled 0 = true → s'.cancelled 0 = true
  idle : ∀ k, k ≠ 0 → i = .repl k → s' = s

/-- `Starts` is what the thread may find, `Tells` what may be told of it where it
can be cancelled. -/
def rules : Rules Tid Shared where
  inv := Between slot Tells
  guar := Shares slot Starts
  assume i s s' := Outline.Undisturbed i s.outline s'.outline

end

variable {slot : Nat} {Starts : World → Prop} {Tells : Told → Prop} {i : Tid} {s s' : Shared}
variable {P : Shared → Prop} {w t : World} {c : Client}

theorem Shares.refl (i : Tid) (s : Shared) : Shares slot Starts i s s where
  threads _ := rfl
  setup _ h := ⟨h, rfl⟩
  launched h h' := absurd h h'
  held _ _ := rfl
  final _ h := h
  world _ _ := .same rfl
  disabled _ := rfl
  cancelled h := h
  idle _ _ _ := rfl

theorem stable_of_moves
    (h : ∀ j s s', j ≠ i → P s → (rules slot Starts Tells).moves j s s' → P s') :
    (rules slot Starts Tells).Stable i P := Rules.Stable.of_moves h

theorem stable_true : (rules slot Starts Tells).Stable i fun _ => True := fun _ _ _ _ => trivial

theorem run_swap (s : Shared) (slot' : Nat) (old new : ReplState) :
    (zoom (Shared.worldPart slot') (swapState old new)).run s = .ok ()
      (if s.obj.state = old then { s with obj := { s.obj with state := new } } else s) := by
  rw [outline_swap]
  split <;> simp [Shared.withWorld, Shared.world]

theorem told_of_world (h : s'.world slot = s.world slot) : s'.told = s.told :=
  congrArg World.told h

theorem obj_of_world (h : s'.world slot = s.world slot) : s'.obj = s.obj := congrArg World.obj h

theorem world_of_client (h : s'.client slot = s.client slot) : s'.world slot = s.world slot :=
  congrArg Client.world h

theorem Change.told (h : Change slot s s') : s'.told = s.told := by
  cases h with
  | same h => exact told_of_world h
  | begun _ h => exact congrArg World.told h
  | ended _ h => exact congrArg World.told h
  | after _ _ h => exact h

theorem state_of_world {st : ReplState} (h : s'.world slot = (s.world slot).withState st) :
    s'.obj.state = st := congrArg (fun w : World => w.obj.state) h

theorem Change.final (h : Change slot s s') (hs : s.obj.state = .ended) : s'.obj.state = .ended := by
  cases h with
  | same h => exact (congrArg Listener.state (obj_of_world h)).trans hs
  | begun hstate => exact absurd (hstate.symm.trans hs) (by decide)
  | ended _ h => exact state_of_world h
  | after _ h => exact h

-- ---------------------------------------------------------------------------
-- Calls beside the thread
-- ---------------------------------------------------------------------------

section

variable {α : Type} {n : Nat} {Q : α → Shared → Prop}

/-- A step of a client that changes neither the world nor the thread. -/
structure Leaves (slot : Nat) (s s' : Shared) : Prop where
  client : s'.client slot = s.client slot
  threads : s'.threads = s.threads
  disabled : s'.disabled = s.disabled
  cancelled : s.cancelled 0 = true → s'.cancelled 0 = true

theorem Leaves.shares (h : Leaves slot s s') : Shares slot Starts (.client n) s s' where
  threads _ := h.threads
  setup _ hs := ⟨h.threads.trans hs, h.client⟩
  launched hs hs' := absurd (h.threads.trans hs) hs'
  held _ _ := obj_of_world (world_of_client h.client)
  final _ hs := (congrArg Listener.state (obj_of_world (world_of_client h.client))).trans hs
  world _ _ := .same (world_of_client h.client)
  disabled _ := congrFun h.disabled 0
  cancelled := h.cancelled
  idle _ _ := by rintro ⟨⟩

theorem Leaves.between (h : Leaves slot s s') (hi : Between slot Tells s) :
    Between slot Tells s' := by
  have hobj : s'.obj = s.obj := obj_of_world (world_of_client h.client)
  have htold : s'.told = s.told := told_of_world (world_of_client h.client)
  refine ⟨by rw [h.threads]; exact hi.threads, by rw [h.threads, hobj]; exact hi.early, ?_, ?_⟩
  · rw [h.threads, h.disabled, hobj, htold]
    exact hi.told
  · rw [h.threads, h.disabled, hobj]
    exact fun ht he => (hi.calm ht he).imp_left h.cancelled

theorem leaves_spec {x : EStateM Crash Shared α} (hP : (rules slot Starts Tells).Stable (.client n) P)
    (hQ : ∀ a, (rules slot Starts Tells).Stable (.client n) (Q a))
    (hx : ∀ s, P s → Between slot Tells s →
      Triple x s (fun a s' => Leaves slot s s' ∧ Q a s') fun _ s' => Leaves slot s s') :
    (atomic x).Spec (rules slot Starts Tells) (.client n) P Q := by
  refine Prog.Spec.atomic hP hQ fun s hs hi => (hx s hs hi).mono ?_ ?_
  · exact fun a s' h _ => ⟨h.1.shares, h.1.between hi, h.2⟩
  · exact fun e s' h _ => ⟨h.shares, h.between hi⟩

theorem look_spec (hP : (rules slot Starts Tells).Stable (.client n) P)
    {Q : Listener → Shared → Prop} (hQ : ∀ a, (rules slot Starts Tells).Stable (.client n) (Q a))
    (h : ∀ s, P s → Between slot Tells s → Q s.obj s) :
    readObj.Spec (rules slot Starts Tells) (.client n) P Q :=
  leaves_spec hP hQ fun s hs hi => Triple.look
    ⟨⟨rfl, rfl, rfl, id⟩, h s hs hi⟩

theorem otherError_spec {slot' : Nat} (hslot : slot' ≠ slot) (e : Option ReplLogXError)
    (hP : (rules slot Starts Tells).Stable (.client n) P)
    (h : ∀ s, P s → P { s with errors := Function.update s.errors slot' e }) :
    (onObj slot' (modify fun w => { w with error := e })).Spec (rules slot Starts Tells) (.client n) P
      fun _ => P := by
  refine leaves_spec hP (fun _ => hP) fun s hs _ => Triple.of_run (a := ()) rfl ⟨?_, h s hs⟩
  refine ⟨?_, rfl, rfl, id⟩
  simp [Shared.client, Shared.world, Shared.worldPart, Shared.withWorld,
    Function.update_of_ne (Ne.symm hslot)]

theorem pure_spec (hP : (rules slot Starts Tells).Stable (.client n) P) (a : α) :
    (pure a : Code α).Spec (rules slot Starts Tells) (.client n) P fun _ => P :=
  Prog.Spec.pure (Q := fun _ => P) hP

theorem nothing_spec {c : Code α} (h : c.Spec (rules slot Starts Tells) (.client n) P Q) :
    c.Spec (rules slot Starts Tells) (.client n) P fun _ _ => True := h.weaken fun _ _ _ => trivial

def Running (slot : Nat) (s : Shared) : Prop := s.threads = [slot]

def Cancelled (slot : Nat) (s : Shared) : Prop := s.threads = [slot] ∧ s.cancelled 0 = true

theorem Shares.threads_eq (h : Shares slot Starts i s s') (hs : s.threads = [slot]) :
    s'.threads = [slot] := (h.threads (by simp [hs])).trans hs

theorem stable_running : (rules slot Starts Tells).Stable i (Running slot) :=
  stable_of_moves fun _ _ _ _ hp hm => hm.2.2.1.threads_eq hp

theorem stable_cancelled : (rules slot Starts Tells).Stable i (Cancelled slot) :=
  stable_of_moves fun _ _ _ _ hp hm => ⟨hm.2.2.1.threads_eq hp.1, hm.2.2.1.cancelled hp.2⟩

theorem undisturbed (h : s.threads = [slot]) (hne : s.obj.state ≠ .ended)
    (hend : s'.obj.state = .ended) (ha : Outline.Undisturbed (.client n) s.outline s'.outline) :
    s.disabled 0 = false := by
  by_contra hdis
  have hthreads : 0 < s.outline.threads := by simp [Shared.outline, h]
  exact hne (ha n rfl 0 hthreads ((Bool.not_eq_false _).mp hdis) hend)

end

namespace Aside

open Interleaved

variable {α : Type} {n : Nat}

/-- A look that finds replication on finds a thread. -/
theorem inProcessGlobal_spec : inProcessGlobal.Spec (rules slot Starts Tells) (.client n)
    (fun _ => True) fun b s => b = true → Running slot s := by
  have hstable (b : Bool) :
      (rules slot Starts Tells).Stable (.client n) fun s => b = true → Running slot s :=
    fun s s' hs hr hb => stable_running s s' (hs hb) hr
  refine Prog.Spec.bind (look_spec (Q := fun a s => a.InProcess → Running slot s) stable_true
    (fun a s s' hs hr ha => stable_running s s' (hs ha) hr) fun s _ hi hp =>
      hi.threads.resolve_left fun h => hi.early h hp) fun a => ?_
  refine (Prog.Spec.pure (Q := fun b s => b = true → Running slot s) (hstable _)).strengthen ?_
  intro s hs hb
  exact hs (by simpa [Listener.InProcess] using hb)

theorem inProcessGlobal_any : inProcessGlobal.Spec (rules slot Starts Tells) (.client n)
    (fun _ => True) fun _ _ => True := nothing_spec inProcessGlobal_spec

theorem awaitEnd_spec (looks : Nat) : (awaitEnd looks).Spec (rules slot Starts Tells) (.client n)
    (fun _ => True) fun _ _ => True := by
  induction looks with
  | zero => exact pure_spec stable_true _
  | succ looks ih =>
    refine Prog.Spec.bind inProcessGlobal_any fun b => ?_
    cases b with
    | false => exact pure_spec stable_true _
    | true => exact ih

theorem cancelThread_spec : cancelThread.Spec (rules slot Starts Tells) (.client n) (Running slot)
    fun _ => Cancelled slot := by
  refine leaves_spec stable_running (fun _ => stable_cancelled) fun s hs _ =>
    Triple.of_run (a := ()) rfl ?_
  have hone : s.threads.length - 1 = 0 := by rw [show s.threads = [slot] from hs]; rfl
  have hset : Function.update s.cancelled (s.threads.length - 1) true 0 = true := by
    rw [hone, Function.update_self]
  exact ⟨⟨rfl, rfl, rfl, fun _ => hset⟩, hs, hset⟩

theorem swapEnded_spec {old : ReplState} (hold : old = .inprocess1 ∨ old = .inprocess) :
    (onObj 0 (swapState old .ended)).Spec (rules slot Starts Tells) (.client n) (Cancelled slot)
      fun _ => Cancelled slot := by
  refine Prog.Spec.atomic stable_cancelled (fun _ => stable_cancelled) fun s hs hi =>
    Triple.of_run (run_swap s 0 old .ended) ?_
  split
  case isFalse => exact fun _ => ⟨.refl _ _, hi, hs⟩
  case isTrue hstate =>
    intro ha
    have hin : s.obj.InProcess := by rwa [Listener.InProcess, hstate]
    have hthreads : s.threads ≠ [] := by simp [hs.1]
    have hdis : s.disabled 0 = false := undisturbed hs.1 (hin.ne (by decide) (by decide)) rfl ha
    refine ⟨?_, ?_, hs⟩
    · exact {
        threads := fun _ => rfl
        setup := fun _ h => absurd h hthreads
        launched := fun h => absurd h hthreads
        held := fun _ h => absurd h (hin.ne (by decide) (by decide))
        final := fun _ _ => rfl
        world := fun _ _ => .ended hin rfl
        disabled := fun _ => rfl
        cancelled := id
        idle := by rintro _ _ ⟨⟩ }
    · exact ⟨hi.threads, fun h => absurd h hthreads, fun _ _ => hi.told hthreads (.inl hdis),
        fun _ _ => .inl hs.2⟩

theorem stopReplication_spec (ret : Nat) : (stopReplication 0 ret).Spec (rules slot Starts Tells)
    (.client n) (fun _ => True) fun _ _ => True := by
  refine Prog.Spec.bind inProcessGlobal_any fun b => ?_
  cases b with
  | false => exact pure_spec stable_true _
  | true =>
    refine Prog.Spec.bind (leaves_spec (Q := fun _ _ => True) stable_true (fun _ => stable_true)
      fun s _ _ => Triple.of_run (a := ()) rfl ⟨⟨rfl, rfl, rfl, id⟩, trivial⟩) fun _ => ?_
    refine Prog.Spec.bind (awaitEnd_spec 41) fun _ => ?_
    refine Prog.Spec.bind inProcessGlobal_spec fun b => ?_
    cases b with
    | false => exact (pure_spec stable_true _).strengthen fun _ _ => trivial
    | true =>
      refine Prog.Spec.strengthen (P := Running slot) ?_ fun s hs => hs rfl
      refine Prog.Spec.bind cancelThread_spec fun _ => ?_
      refine Prog.Spec.bind (swapEnded_spec (.inl rfl)) fun _ => ?_
      refine Prog.Spec.bind (swapEnded_spec (.inr rfl)) fun _ => ?_
      exact nothing_spec (pure_spec stable_cancelled _)

theorem inProcess_spec : inProcess.Spec (rules slot Starts Tells) (.client n) (fun _ => True)
    fun _ _ => True := by
  refine Prog.Spec.bind (look_spec stable_true (fun _ => stable_true) fun _ _ _ => trivial) fun a => ?_
  dsimp only
  split
  · exact pure_spec stable_true _
  · exact pure_spec stable_true _

theorem getLastSucessfulPosition_spec (maxlen : Nat) : (getLastSucessfulPosition maxlen).Spec
    (rules slot Starts Tells) (.client n) (fun _ => True) fun _ _ => True := by
  have hlook : readObj.Spec (rules slot Starts Tells) (.client n) (fun _ => True)
      fun _ _ => True := look_spec stable_true (fun _ => stable_true) fun _ _ _ => trivial
  refine Prog.Spec.bind hlook fun a => ?_
  split
  · exact Prog.Spec.bind hlook fun _ => Prog.Spec.bind hlook fun _ => pure_spec stable_true _
  · exact pure_spec stable_true _

/-- The copies that a client takes at the end are its own. -/
theorem copies_spec {x : EStateM Crash Heap α} {slot' : Nat} :
    (onObj slot' (zoom World.heapPart x)).Spec (rules slot Starts Tells) (.client 0)
      (fun s => s.obj.state = .ended) fun _ s => s.obj.state = .ended := by
  have hstable : (rules slot Starts Tells).Stable (.client 0) fun s => s.obj.state = .ended :=
    stable_of_moves fun j s s' hj hp hm => hm.2.2.1.final hj hp
  refine Prog.Spec.atomic hstable (fun _ => hstable) fun s hs hi => ?_
  have hstep (h : Heap) : Shares slot Starts (.client 0) s { s with heap := h } ∧
      Between slot Tells { s with heap := h } := by
    refine ⟨?_, ⟨hi.threads, hi.early, hi.told, hi.calm⟩⟩
    exact {
      threads := fun _ => rfl
      setup := fun h => absurd rfl h
      launched := fun h h' => absurd h h'
      held := fun _ _ => rfl
      final := fun _ h => h
      world := fun _ _ => .after hs hs rfl
      disabled := fun _ => rfl
      cancelled := id
      idle := by rintro _ _ ⟨⟩ }
  have hset (h : Heap) : (Shared.worldPart slot').set { s.world slot' with heap := h } s =
      { s with heap := h } := by
    simp [Shared.worldPart, Shared.withWorld, Shared.world]
  have hx : Triple x (s.world slot').heap (fun _ _ => True) fun _ _ => True := by
    unfold Triple
    split <;> trivial
  have hzoom := Triple.zoom (p := Shared.worldPart slot')
    (Triple.zoom (p := World.heapPart) (t := s.world slot') hx)
  refine hzoom.mono ?_ ?_
  · rintro a _ ⟨_, ⟨h, -, rfl⟩, rfl⟩ -
    exact (hset h).symm ▸ ⟨(hstep h).1, (hstep h).2, hs⟩
  · rintro e _ ⟨_, ⟨h, -, rfl⟩, rfl⟩ -
    exact (hset h).symm ▸ hstep h

theorem getTablemapEvents_spec {os : Allocator} {slot' : Nat} (hslot : slot' ≠ slot) :
    (Interleaved.getTablemapEvents os slot').Spec (rules slot Starts Tells) (.client 0) (fun _ => True)
      fun _ _ => True := by
  refine Prog.Spec.bind (otherError_spec hslot none stable_true fun _ _ => trivial) fun _ => ?_
  have hstable (st : ReplState) : (rules slot Starts Tells).Stable (.client 0)
      fun s => st = .ended → s.obj.state = .ended :=
    stable_of_moves fun j s s' hj hp hm he => hm.2.2.1.final hj (hp he)
  refine Prog.Spec.bind (look_spec (Q := fun a s => a.state = .ended → s.obj.state = .ended)
    stable_true (fun a => hstable a.state) fun _ _ _ => id) fun a => ?_
  split
  case isTrue =>
    refine Prog.Spec.strengthen (P := fun _ => True) ?_ fun _ _ => trivial
    refine Prog.Spec.bind (otherError_spec hslot _ stable_true fun _ _ => trivial) fun _ => ?_
    exact pure_spec stable_true _
  case isFalse hne =>
    have hended : (rules slot Starts Tells).Stable (.client 0) fun s => s.obj.state = .ended :=
      stable_of_moves fun j s s' hj hp hm => hm.2.2.1.final hj hp
    refine Prog.Spec.strengthen (P := fun s => s.obj.state = .ended) ?_
      fun s hs => hs (not_not.mp hne)
    refine Prog.Spec.bind (look_spec hended (fun _ => hended) fun _ hp _ => hp) fun o => ?_
    refine Prog.Spec.bind copies_spec fun copied => ?_
    cases copied with
    | ok bufs => exact nothing_spec (pure_spec hended _)
    | error desc =>
      refine Prog.Spec.bind (otherError_spec hslot _ hended fun _ hp => hp) fun _ => ?_
      exact nothing_spec (pure_spec hended _)

end Aside

theorem aside_spec {os : Allocator} {n : Nat} {c : ClientCall} (h : c.Aside slot n) :
    (c.code os (.client n)).Spec (rules slot Starts Tells) (.client n) (fun _ => True)
      fun _ _ => True := by
  cases c with
  | tableAdd => exact h.elim
  | prepareReplication => exact h.elim
  | startReplication => exact h.elim
  | stopReplication ret => exact Prog.Spec.bind (Aside.stopReplication_spec ret) fun _ => pure_spec stable_true ()
  | getTablemapEvents slot' =>
    obtain ⟨rfl, hslot⟩ := h
    exact Prog.Spec.bind (Aside.getTablemapEvents_spec hslot) fun _ => pure_spec stable_true ()
  | getLastSucessfulPosition maxlen =>
    exact Prog.Spec.bind (Aside.getLastSucessfulPosition_spec maxlen) fun _ => pure_spec stable_true ()
  | inProcess => exact Prog.Spec.bind Aside.inProcess_spec fun _ => pure_spec stable_true ()

theorem later_spec {os : Allocator} {n : Nat} {calls : List ClientCall}
    (h : ∀ c ∈ calls, c.Aside slot n) :
    (clientCode os (.client n) calls).Spec (rules slot Starts Tells) (.client n) (fun _ => True)
      fun _ _ => True := by
  induction calls with
  | nil => exact pure_spec stable_true _
  | cons c cs ih =>
    refine Prog.Spec.bind (aside_spec (h c (List.mem_cons_self ..))) fun _ => ?_
    exact ih fun c' hc' => h c' (List.mem_cons_of_mem _ hc')

end Session

end RplListener
