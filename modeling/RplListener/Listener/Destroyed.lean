import RplListener.Listener.EventsHeld
import RplListener.Listener.HandOver
import RplListener.Listener.Leaks
import RplListener.Listener.Prepared
import RplListener.Listener.Resume

/-!
# What the destructor leaves

A listener from its constructor to its destructor: its events, its connection and
the blocks of its column caches are given back, however the preparation and the
thread end. Only table maps that the constructor read are lost, when the thread
clears the pointers to them.
-/

namespace RplListener

open Bytes Refine

variable {lib : Library} {os : Allocator} {deserialize : Deserialize} {needStop : Nat → Bool}
variable {base : List Nat} {e : EventWorld} {w w' : World}

-- ---------------------------------------------------------------------------
-- The life
-- ---------------------------------------------------------------------------

/-- Everything that is done with a listener that was constructed. -/
structure Life where
  adds : List (List UInt8 × List UInt8)
  calls : ServerCalls
  spawn : Option String
  needStop : Nat → Bool
  binlogOpen : Option String
  packets : List Packet

namespace Life

variable (lib : Library) (os : Allocator) (life : Life)

/-- The calls up to the start: whether a thread was created that passes its wait. -/
def setUp : ClientM Bool := do
  addTables os life.adds
  Client.prepareReplication life.calls
  onWorld (startReplication life.spawn)
  let o := (← get).world.obj
  pure (o.state == .inprocess1 || o.state == .inprocess)

def replicate (started : Bool) : EventM Unit :=
  if started then
    Events.processReplicationThreadFnc lib os life.needStop life.binlogOpen life.packets
  else pure ()

def run : EventM Unit := do
  let started ← Events.onClient (life.setUp os)
  life.replicate lib os started

def Clears (c : Client) : Prop :=
  ∀ c', (life.setUp os).run c = .ok true c' →
    ∀ w, (threadStart os life.binlogOpen).run c'.world = .ok true w →
      ∀ v ∈ loopVisits lib os life.needStop 0 life.packets w, v.Clears lib os

/-- The events of the constructor that the thread loses when it clears the map. -/
def lost (e : EventWorld) : List Nat :=
  match (life.setUp os).run e.client with
  | .ok true c => if os.grant c.world.heap.asked then e.keeper.mapIds else []
  | _ => []

end Life

-- ---------------------------------------------------------------------------
-- Setting up
-- ---------------------------------------------------------------------------

def World.blocks (w : World) : List ListeningTable × Heap := (w.obj.tables, w.heap)

theorem World.Sound.of_blocks (h : w.Sound base) (hb : w'.blocks = w.blocks) : w'.Sound base := by
  obtain ⟨htables, hheap⟩ := Prod.mk.inj hb
  constructor
  · rw [htables]
    exact h.roomy
  · rw [htables, hheap]
    exact h.owned

section

variable {blocks : List ListeningTable × Heap}

def Calm (blocks : List ListeningTable × Heap) (c : Client) : Prop :=
  c.Tidy ∧ c.world.blocks = blocks

theorem onWorld_calm {α : Type} {x : ListenM α} (hx : Keeps World.blocks x) :
    Stable (Calm blocks) (onWorld x) := by
  rintro c ⟨ht, hb⟩
  apply (Triple.zoom (p := Client.worldPart) (hx c.world)).mono
  · rintro _ _ ⟨w, hw, rfl⟩
    exact ⟨ht, hw.trans hb⟩
  · rintro _ _ ⟨w, hw, rfl⟩
    exact ⟨ht, hw.trans hb⟩

theorem modifyObj_blocks {f : Listener → Listener} (h : ∀ o, (f o).tables = o.tables) :
    Keeps World.blocks (modifyObj f) := Keeps.modify fun w => by simp [World.blocks, h]

theorem swapState_blocks (old new : ReplState) : Keeps World.blocks (swapState old new) := by
  apply modifyObj_blocks
  intro o
  split <;> rfl

theorem setError_blocks (desc : String) : Keeps World.blocks (setError desc) :=
  Keeps.modify fun _ => rfl

theorem setErrorMySQL_blocks (desc : String) : Keeps World.blocks (setErrorMySQL desc) :=
  Keeps.modify fun _ => rfl

theorem setPosition_blocks (name pos : List UInt8) : Keeps World.blocks (setPosition name pos) :=
  modifyObj_blocks fun _ => rfl

theorem clearError_blocks : Keeps World.blocks clearError := Keeps.modify fun _ => rfl

theorem abandon_blocks {fail : ListenM Unit} (h : Keeps World.blocks fail) :
    Keeps World.blocks (abandon fail) := h.bind fun _ => swapState_blocks _ _

theorem closeConn_calm : Stable (Calm blocks) closeConn := by
  rintro c ⟨-, hb⟩
  exact Triple.of_run (a := ()) rfl ⟨.inl rfl, hb⟩

theorem giveUp_calm {fail : ListenM Unit} (h : Keeps World.blocks fail) :
    Stable (Calm blocks) (giveUp fail) :=
  (onWorld_calm h).bind fun _ => closeConn_calm.bind fun _ => onWorld_calm (swapState_blocks _ _)

theorem unlessError_calm {error : Option String} {rest : ClientM Unit}
    (h : Stable (Calm blocks) rest) : Stable (Calm blocks) (unlessError error rest) := by
  cases error with
  | none => exact h
  | some desc => exact giveUp_calm (setErrorMySQL_blocks desc)

theorem demand_calm {ok : Bool} {desc : String} {rest : ClientM Unit}
    (h : Stable (Calm blocks) rest) : Stable (Calm blocks) (demand ok desc rest) := by
  cases ok with
  | true => exact h
  | false => exact giveUp_calm (setError_blocks desc)

theorem withRows_calm {ρ : Type} {answer : Answer ρ} {rest : List ρ → ClientM Unit}
    (h : ∀ rows, Stable (Calm blocks) (rest rows)) : Stable (Calm blocks) (withRows answer rest) := by
  cases answer with
  | queryError desc | storeError desc => exact giveUp_calm (setErrorMySQL_blocks desc)
  | rows rows => exact h rows

theorem strcmpEq_calm (field : Field) (text : String) : Stable (Calm blocks) (strcmpEq field text) := by
  cases field with
  | none => exact .throw _
  | some s => exact .pure _

theorem testVariable_calm (row : Field × Field) (name value : String) (ok : Bool) :
    Stable (Calm blocks) (testVariable row name value ok) := by
  apply (strcmpEq_calm _ _).bind
  intro found
  split
  · apply (strcmpEq_calm _ _).bind
    intro same
    split <;> exact .pure _
  · exact .pure _

theorem readVariables_calm (rows : List (Field × Field)) (v : VariablesOk) :
    Stable (Calm blocks) (readVariables rows v) := by
  induction rows generalizing v with
  | nil => exact .pure _
  | cons row rows ih =>
    unfold readVariables
    refine Stable.bind (testVariable_calm _ _ _ _) fun _ => ?_
    refine Stable.bind (testVariable_calm _ _ _ _) fun _ => ?_
    refine Stable.bind (testVariable_calm _ _ _ _) fun _ => ?_
    refine Stable.bind (testVariable_calm _ _ _ _) fun _ => ?_
    exact ih _

theorem stable_get {σ α : Type} {P : σ → Prop} {f : σ → EStateM Crash σ α}
    (h : ∀ s, Stable P (f s)) : Stable P (get >>= f) := fun s hp => Triple.get_bind (h s s hp)

theorem preparePosition_calm (calls : ServerCalls) :
    Stable (Calm blocks) (Client.preparePosition calls) := by
  have hswap : Stable (Calm blocks) (onWorld (swapState .postCreated .prepared)) :=
    onWorld_calm (swapState_blocks _ _)
  have hset (b : Bool) : Stable (Calm blocks)
      (onWorld (modifyObj fun o => { o with positionWasSetted := b })) :=
    onWorld_calm (modifyObj_blocks fun _ => rfl)
  unfold Client.preparePosition
  apply stable_get
  intro c
  split
  · apply (hset false).bind
    intro _
    split
    · exact giveUp_calm (setErrorMySQL_blocks _)
    · exact onWorld_calm (abandon_blocks (setErrorMySQL_blocks _))
    · exact giveUp_calm (setErrorMySQL_blocks _)
    · exact (onWorld_calm (setPosition_blocks _ _)).bind fun _ => hswap
    · exact giveUp_calm (setError_blocks _)
  · exact (hset true).bind fun _ => hswap

theorem prepareVersion_calm (calls : ServerCalls) :
    Stable (Calm blocks) (Client.prepareVersion calls) := by
  have hvariables : Stable (Calm blocks) (Client.prepareVariables calls) :=
    withRows_calm fun rows => (readVariables_calm rows {}).bind fun _ =>
      demand_calm <| demand_calm <| demand_calm <| demand_calm <| unlessError_calm <|
      unlessError_calm <| preparePosition_calm calls
  apply withRows_calm
  intro rows
  split
  · exact giveUp_calm (setError_blocks _)
  · exact giveUp_calm (setError_blocks _)
  · apply Stable.bind
    · exact fun c h => Triple.of_run (a := ()) rfl h
    · exact fun _ => stable_get fun _ => demand_calm hvariables

/-- The pointer is set before there is a connection. -/
theorem prepareConnection_calm {c : Client} (hc : c.conn = .closed) (hb : c.world.blocks = blocks)
    (calls : ServerCalls) : Triple (Client.prepareConnection calls) c
      (fun _ c' => Calm blocks c') fun _ c' => Calm blocks c' := by
  unfold Client.prepareConnection
  have hmy : (modify fun c => { c with myConn := calls.init } : ClientM Unit).run c =
      .ok () { c with myConn := calls.init } := rfl
  apply Triple.bind_run hmy
  split
  case isTrue hinit =>
    have hconn : (modify fun c => { c with conn := .initialized } : ClientM Unit).run
        { c with myConn := calls.init } = .ok () { c with myConn := calls.init, conn := .initialized } := rfl
    apply Triple.bind_run hconn
    cases calls.connect with
    | some desc => exact giveUp_calm (setErrorMySQL_blocks desc) _ ⟨.inr hinit, hb⟩
    | none =>
      have hopen : (modify fun c => { c with conn := .connected } : ClientM Unit).run
          { c with myConn := calls.init, conn := .initialized } =
          .ok () { c with myConn := calls.init, conn := .connected } := rfl
      apply Triple.bind_run hopen
      exact prepareVersion_calm calls _ ⟨.inr hinit, hb⟩
  case isFalse =>
    exact onWorld_calm (abandon_blocks (setError_blocks _)) _ ⟨.inl hc, hb⟩

theorem prepareReplication_calm {c : Client} (hc : c.conn = .closed) (hb : c.world.blocks = blocks)
    (calls : ServerCalls) : Triple (Client.prepareReplication calls) c
      (fun _ c' => Calm blocks c') fun _ c' => Calm blocks c' := by
  have hworld {x : ListenM Unit} {c : Client} (hx : Keeps World.blocks x) (hc : c.conn = .closed)
      (hb : c.world.blocks = blocks) : Triple (onWorld x) c
        (fun _ c' => c'.conn = .closed ∧ c'.world.blocks = blocks) fun _ c' => Calm blocks c' := by
    apply (Triple.zoom (p := Client.worldPart) (hx c.world)).mono
    · rintro _ _ ⟨w, hw, rfl⟩
      exact ⟨hc, hw.trans hb⟩
    · rintro _ _ ⟨w, hw, rfl⟩
      exact ⟨.inl hc, hw.trans hb⟩
  unfold Client.prepareReplication
  apply Triple.bind (hworld clearError_blocks hc hb)
  rintro _ c₁ ⟨hc₁, hb₁⟩
  apply Triple.get_bind
  split
  · exact onWorld_calm (setError_blocks _) _ ⟨.inl hc₁, hb₁⟩
  · apply Triple.bind (hworld (swapState_blocks _ _) hc₁ hb₁)
    rintro _ c₂ ⟨hc₂, hb₂⟩
    apply Triple.get_bind
    split
    · exact onWorld_calm (abandon_blocks (setError_blocks _)) _ ⟨.inl hc₂, hb₂⟩
    · exact prepareConnection_calm hc₂ hb₂ calls

theorem startReplication_blocks (spawn : Option String) :
    Keeps World.blocks (startReplication spawn) := by
  unfold startReplication
  apply clearError_blocks.bind
  intro _
  apply Keeps.get.bind
  intro w
  split
  · exact setError_blocks _
  · apply (swapState_blocks _ _).bind
    intro _
    cases spawn with
    | some desc => exact (setError_blocks desc).bind fun _ => swapState_blocks _ _
    | none => exact Keeps.get.bind fun _ => swapState_blocks _ _

end

theorem modifyObj_run (f : Listener → Listener) :
    (modifyObj f).run w = .ok () (w.put (f w.obj)) := rfl

theorem setError_run (desc : String) :
    (setError desc).run w = .ok () (w.fail ⟨false, clip 1024 desc⟩) := rfl

theorem setErrorMySQL_run (desc : String) :
    (setErrorMySQL desc).run w = .ok () (w.fail ⟨true, clip 1024 desc⟩) := rfl

theorem tableAdd_sound (dbName tblName : List UInt8) :
    Stable (World.Sound base) (tableAdd os dbName tblName) := by
  intro w h
  unfold tableAdd
  apply Triple.get_bind
  split
  · exact Triple.pure h
  · have hattempt : (zoom World.heapPart (Heap.attempt os) : ListenM Bool).run w =
        .ok (os.grant w.heap.asked) w.ask := rfl
    have hask : w.ask.Sound base := ⟨h.roomy, h.owned.refused⟩
    apply Triple.bind_run hattempt
    split
    · apply Triple.bind_run (modifyObj_run _)
      apply Triple.pure
      constructor
      · intro t ht
        obtain ht | ht := List.mem_append.mp ht
        · exact hask.roomy t ht
        · rw [List.mem_singleton.mp ht]
          trivial
      · have ho := hask.owned
        simpa [cacheIds] using ho
    · exact Triple.pure hask

theorem addTables_calm (adds : List (List UInt8 × List UInt8)) :
    Stable (fun c => c.conn = .closed ∧ c.world.Sound base) (addTables os adds) := by
  induction adds with
  | nil => exact .pure _
  | cons x adds ih =>
    apply Stable.bind
    · rintro c ⟨hc, hs⟩
      apply (Triple.zoom (p := Client.worldPart) (tableAdd_sound x.1 x.2 c.world hs)).mono
      · rintro _ _ ⟨w, hw, rfl⟩
        exact ⟨hc, hw⟩
      · rintro _ _ ⟨w, hw, rfl⟩
        exact ⟨hc, hw⟩
    · exact fun _ => ih

theorem setUp_triple (life : Life) {c : Client} (hc : c.conn = .closed) (hs : c.world.Sound base) :
    Triple (life.setUp os) c (fun _ c' => c'.Tidy ∧ c'.world.Sound base)
      fun _ _ => True := by
  unfold Life.setUp
  apply Triple.bind ((addTables_calm life.adds c ⟨hc, hs⟩).mono (fun _ _ h => h) fun _ _ _ => trivial)
  rintro _ c₁ ⟨hc₁, hs₁⟩
  apply Triple.bind ((prepareReplication_calm hc₁ rfl life.calls).mono (fun _ _ h => h)
    fun _ _ _ => trivial)
  intro _ c₂ h₂
  apply Triple.bind ((onWorld_calm (startReplication_blocks life.spawn) c₂ h₂).mono (fun _ _ h => h)
    fun _ _ _ => trivial)
  rintro _ c₃ ⟨ht, hb⟩
  exact Triple.get_bind (Triple.pure ⟨ht, hs₁.of_blocks hb⟩)

-- ---------------------------------------------------------------------------
-- The thread
-- ---------------------------------------------------------------------------

variable {evs : List Nat}

namespace Events

def lost (os : Allocator) (e : EventWorld) : List Nat :=
  if os.grant e.world.heap.asked then e.keeper.mapIds else []

/-- A listener that owns its events, its connection and its caches. -/
structure Owns (evs base : List Nat) (e : EventWorld) : Prop extends EventWorld.Held evs e where
  tidy : e.client.Tidy
  sound : e.world.Sound base

theorem endReplication_blocks : Keeps World.blocks RplListener.endReplication :=
  (swapState_blocks _ _).bind fun _ => swapState_blocks _ _

theorem endReplication_beside {E : Crash → EventWorld → Prop} (h : e.Held evs) :
    Beside EventWorld.worldPart endReplication RplListener.endReplication e
      (fun _ e' => e'.Held evs ∧ e'.client.Tidy ∧ e'.world.blocks = e.world.blocks) E := by
  have hclose : (onClient closeConn).run e =
      .ok () { e with client := { e.client with conn := .closed, myConn := false } } := rfl
  apply Beside.aside_run hclose rfl
  apply Beside.zoom
  refine Triple.of_run (a := ()) rfl ⟨⟨h.owned, h.keyed⟩, .inl rfl, ?_⟩
  exact (endReplication_blocks e.world).ok rfl

theorem endReplication_owns {E : Crash → EventWorld → Prop} (h : Owns evs base e) :
    Beside EventWorld.worldPart endReplication RplListener.endReplication e
      (fun _ e' => Owns evs base e') E := by
  apply (endReplication_beside h.toHeld).mono
  · rintro _ e' ⟨h', ht, hb⟩
    exact ⟨h', ht, h.sound.of_blocks hb⟩
  · exact fun _ _ h => h

theorem threadStart_beside (h : Owns evs base e) (hd : e.keeper.description = none)
    (binlogOpen : Option String) :
    Beside EventWorld.worldPart (threadStart os binlogOpen) (RplListener.threadStart os binlogOpen) e
      (fun started e' => Owns (lost os e ++ evs) base e' ∧
        (started = true → e'.world.error = none ∧ e'.Serves (lost os e ++ evs))) EventsSound := by
  have howned : e.events.Owned (e.keeper.mapIds ++ evs) := by
    have := h.owned
    rwa [Keeper.ids, hd] at this
  unfold threadStart RplListener.threadStart lost
  apply Beside.zoom_run (t := { e.world with error := none }) rfl
  apply Beside.zoom_run (a := os.grant e.world.heap.asked) (t := { e.world.ask with error := none }) rfl
  have hsound : World.Sound base { e.world.ask with error := none } :=
    ⟨h.sound.roomy, h.sound.owned.refused⟩
  cases hg : os.grant e.world.heap.asked with
  | false =>
    apply Beside.aside_run (setKeeper_run _) rfl
    apply Beside.zoom_run (modifyObj_run _)
    apply Beside.zoom_run (setError_run _)
    apply Beside.bind (Q := fun _ e' => Owns evs base e')
    · apply endReplication_owns
      exact ⟨⟨howned, h.keyed⟩, h.tidy, hsound.of_blocks rfl⟩
    · exact fun _ e' h' => Beside.pure ⟨h', by simp⟩
  | true =>
    apply Beside.aside_run newEvent_run rfl
    apply Beside.aside_run (setKeeper_run _) rfl
    apply Beside.zoom_run (modifyObj_run _)
    -- The new description event is all that is kept.
    have howned' : e.events.granted.Owned ([e.events.asked] ++ (e.keeper.mapIds ++ evs)) :=
      howned.granted
    cases binlogOpen with
    | some desc =>
      apply Beside.zoom_run (setErrorMySQL_run _)
      apply Beside.bind (Q := fun _ e' => Owns (e.keeper.mapIds ++ evs) base e')
      · apply endReplication_owns
        exact ⟨⟨howned', List.nodup_nil⟩, h.tidy, hsound.of_blocks rfl⟩
      · exact fun _ e' h' => Beside.pure ⟨h', by simp⟩
    | none =>
      refine Beside.pure ⟨⟨⟨howned', List.nodup_nil⟩, h.tidy, hsound.of_blocks rfl⟩, fun _ => ?_⟩
      refine ⟨rfl, ⟨howned', List.nodup_nil⟩, rfl, ?_, h.tidy⟩
      intro t ht
      cases ht

/-- The thread does to the world what it does without its events, and between its
turns no event is lost and none is used that was deleted. -/
theorem thread_beside {binlogOpen : Option String} {packets : List Packet} (h : Owns evs base e)
    (hd : e.keeper.description = none) :
    Beside EventWorld.worldPart (processReplicationThreadFnc lib os needStop binlogOpen packets)
      (RplListener.processReplicationThreadFnc lib os needStop binlogOpen packets) e
      (fun _ e' => e'.Held (lost os e ++ evs) ∧ e'.client.Tidy) EventsSound := by
  unfold processReplicationThreadFnc RplListener.processReplicationThreadFnc
  apply (threadStart_beside h hd binlogOpen).bind
  rintro started e₁ ⟨h₁, hserves⟩
  cases started with
  | false => exact Beside.pure ⟨h₁.toHeld, h₁.tidy⟩
  | true =>
    obtain ⟨he, hserves⟩ := hserves rfl
    apply (replicationLoop_beside 0 packets he hserves).bind
    intro t e₂ h₂
    cases t with
    | done =>
      apply (endReplication_beside h₂.toHeld).mono
      · exact fun _ e₃ h₃ => ⟨h₃.1, h₃.2.1⟩
      · exact fun _ _ h => h
    | next k => exact Beside.pure ⟨h₂.toHeld, h₂.tidy⟩

def mappedEvents : EventWorld where
  client := { world := mappedWorld sampleTable }
  events := ({} : Heap).granted
  keeper := { tableMaps := [(1, 0)] }

theorem thread_beside_sample : Beside EventWorld.worldPart
    (processReplicationThreadFnc sampleLibrary sampleAllocator (fun _ => false) none
      [.event 32 (.transactionPayload 6 cutPayload), .eof])
    (RplListener.processReplicationThreadFnc sampleLibrary sampleAllocator (fun _ => false) none
      [.event 32 (.transactionPayload 6 cutPayload), .eof]) mappedEvents
    (fun _ e' => e'.Held (lost sampleAllocator mappedEvents ++ []) ∧ e'.client.Tidy) EventsSound := by
  have hkeyed : mappedEvents.keeper.Keyed := List.nodup_cons.mpr ⟨by simp, List.nodup_nil⟩
  have howns : Owns [] [] mappedEvents :=
    ⟨⟨Heap.owned_empty.granted, hkeyed⟩, .inl rfl, mappedWorld_sound⟩
  have hd : mappedEvents.keeper.description = none := rfl
  exact thread_beside howns hd

theorem replicationLoop_owns {packets : List Packet} {k : Nat} (he : e.world.error = none)
    (h : e.Serves evs) (hs : e.world.Sound base)
    (hG : ∀ v ∈ loopVisits lib os needStop k packets e.world, v.Clears lib os) :
    Triple (replicationLoop lib os needStop k packets) e (fun _ e' => Owns evs base e')
      fun _ _ => True := by
  have hbeside := @replicationLoop_beside lib os needStop evs k packets e he h
  have hreleased := replicationLoop_released he hs hG
  cases hrun : (replicationLoop lib os needStop k packets).run e with
  | ok t e' =>
    obtain ⟨hplain, h'⟩ := hbeside.ok hrun
    exact Triple.of_run hrun ⟨h'.toHeld, h'.tidy, hreleased.ok hplain⟩
  | error c e' => exact Triple.of_run_error hrun trivial

theorem thread_owns {binlogOpen : Option String} {packets : List Packet} (h : Owns evs base e)
    (hd : e.keeper.description = none)
    (hG : ∀ w, (RplListener.threadStart os binlogOpen).run e.world = .ok true w →
      ∀ v ∈ loopVisits lib os needStop 0 packets w, v.Clears lib os) :
    Triple (processReplicationThreadFnc lib os needStop binlogOpen packets) e
      (fun _ e' => Owns (lost os e ++ evs) base e') fun _ _ => True := by
  unfold processReplicationThreadFnc
  apply Triple.bind ((threadStart_beside h hd binlogOpen).triple)
  rintro started e₁ ⟨hplain, h₁, hserves⟩
  cases started with
  | false => exact Triple.pure h₁
  | true =>
    obtain ⟨he, hserves⟩ := hserves rfl
    apply Triple.bind (replicationLoop_owns he hserves h₁.sound (hG e₁.world hplain))
    intro t e₂ h₂
    cases t with
    | done =>
      apply (endReplication_owns (E := fun _ _ => True) h₂).triple.mono
      · exact fun _ _ h₃ => h₃.2
      · exact fun _ _ _ => trivial
    | next k => exact Triple.pure h₂

-- ---------------------------------------------------------------------------
-- The destructor
-- ---------------------------------------------------------------------------

section

variable {E : Crash → EventWorld → Prop} {F : Crash → Heap → Prop}

theorem deleteTableMaps_triple {maps : List (Nat × Nat)} {e : EventWorld}
    (h : e.events.Owned (maps.map Prod.snd ++ evs)) :
    Triple (deleteTableMaps maps) e (fun _ e' => e'.client = e.client ∧ e'.keeper = e.keeper ∧
      e'.events.Owned evs) E := by
  induction maps generalizing e with
  | nil => exact Triple.pure ⟨rfl, rfl, h⟩
  | cons x maps ih =>
    apply Triple.bind (deleteEvent_triple h)
    rintro _ e₁ ⟨hc, hk, h₁⟩
    apply (ih h₁).mono
    · rintro _ e₂ ⟨hc₂, hk₂, h₂⟩
      exact ⟨hc₂.trans hc, hk₂.trans hk, h₂⟩
    · exact fun _ _ h => h

theorem tablesClear_triple {tables : List ListeningTable} {h : Heap}
    (hr : ∀ t ∈ tables, t.info.Roomy) (ho : h.Owned (cacheIds tables ++ base)) :
    Triple (tablesClear tables) h (fun _ h' => h'.Owned base) F := by
  induction tables generalizing h with
  | nil => exact Triple.pure ho
  | cons t tables ih =>
    obtain ⟨ht, hr⟩ := List.forall_mem_cons.mp hr
    have ho : h.Owned (t.info.columns.ids ++ (cacheIds tables ++ base)) := by
      simpa [cacheIds] using ho
    unfold tablesClear
    apply Triple.bind (Q := fun _ (h' : Heap) => h'.Owned (cacheIds tables ++ base))
    · unfold freeColumns
      cases hp : t.info.columns with
      | null =>
        rw [hp] at ho
        exact Triple.pure ho
      | wild => simp [TblInfo.Roomy, hp] at ht
      | block id cols =>
        rw [hp] at ho
        exact Heap.free_owned (Ptr.tame_block id cols) ho
    · intro _ h₁ ho₁
      apply Triple.bind (ih hr ho₁)
      exact fun _ _ ho₂ => Triple.pure ho₂

structure Gone (evs base : List Nat) (e : EventWorld) : Prop where
  events : e.events.Owned evs
  keeper : e.keeper = {}
  conn : e.client.conn = .closed
  blocks : e.world.heap.Owned base

theorem stopWaiting_owns (h : Owns evs base e) :
    Triple (onWorld stopWaiting) e (fun _ e' => Owns evs base e') E := by
  have hstop : Triple stopWaiting e.world (fun _ w => w.blocks = e.world.blocks) fun _ _ => False := by
    unfold stopWaiting
    apply Triple.get_bind
    apply Triple.get_bind
    split
    · exact Triple.of_run (a := ()) rfl ((endReplication_blocks e.world).ok rfl)
    · exact Triple.pure rfl
  apply (Triple.zoom (p := EventWorld.worldPart) hstop).mono
  · rintro _ _ ⟨w, hw, rfl⟩
    exact ⟨⟨h.owned, h.keyed⟩, h.tidy, h.sound.of_blocks hw⟩
  · rintro _ _ ⟨_, hf, -⟩
    exact hf.elim

theorem closeMyConn_run (c : Client) : closeMyConn.run c =
    .ok () { c with conn := if c.myConn then .closed else c.conn, myConn := false } := by
  obtain ⟨w, myConn, conn, serverVersion⟩ := c
  cases myConn <;> rfl

theorem closeMyConn_closed (h : Owns evs base e) : Triple (onClient closeMyConn) e
    (fun _ e' => Owns evs base e' ∧ e'.client.conn = .closed) E := by
  have hconn : (if e.client.myConn then Connection.closed else e.client.conn) = .closed := by
    split
    · rfl
    · exact h.tidy.resolve_right ‹_›
  apply Triple.of_run (run_zoom_ok (closeMyConn_run e.client))
  exact ⟨⟨⟨h.owned, h.keyed⟩, .inl hconn, h.sound⟩, hconn⟩

theorem onWorld_modifyObj_run (f : Listener → Listener) : (onWorld (modifyObj f)).run e =
    .ok () (EventWorld.worldPart.set (e.world.put (f e.world.obj)) e) := rfl

theorem destroy_gone (h : Owns evs base e) : Triple destroy e (fun _ e' => Gone evs base e') E := by
  unfold destroy
  apply Triple.bind (stopWaiting_owns h)
  intro _ e₁ h₁
  apply Triple.bind (closeMyConn_closed h₁)
  rintro _ e₂ ⟨h₂, hconn⟩
  apply Triple.get_bind
  have hclear : Triple (tablesClear e₂.world.obj.tables) e₂.world.heap
      (fun _ heap => heap.Owned base) fun _ _ => False :=
    tablesClear_triple h₂.sound.roomy h₂.sound.owned
  apply Triple.bind (Q := fun _ e' => e'.Held evs ∧ e'.client.conn = .closed ∧ e'.world.heap.Owned base)
  · apply (Triple.zoom (p := EventWorld.worldPart) (Triple.zoom (p := World.heapPart) hclear)).mono
    · rintro _ _ ⟨_, ⟨heap, ho, rfl⟩, rfl⟩
      exact ⟨⟨h₂.owned, h₂.keyed⟩, hconn, ho⟩
    · rintro _ _ ⟨_, ⟨_, hf, -⟩, -⟩
      exact hf.elim
  rintro tables e₃ ⟨h₃, hconn₃, ho₃⟩
  apply Triple.bind_run (onWorld_modifyObj_run _)
  have h₄ : EventWorld.Held evs
      (EventWorld.worldPart.set (e₃.world.put { e₃.world.obj with tables }) e₃) :=
    ⟨h₃.owned, h₃.keyed⟩
  apply Triple.bind (dropDescription_triple h₄)
  rintro _ e₅ ⟨hc₅, hk₅, h₅⟩
  apply Triple.get_bind
  have howned : e₅.events.Owned (e₅.keeper.tableMaps.map Prod.snd ++ evs) := by
    have := h₅.owned
    rwa [Keeper.ids, show e₅.keeper.description = none by rw [hk₅]] at this
  apply Triple.bind (deleteTableMaps_triple howned)
  rintro _ e₆ ⟨hc₆, hk₆, h₆⟩
  apply Triple.bind_run (setKeeper_run _)
  have hclient : e₆.client =
      (EventWorld.worldPart.set (e₃.world.put { e₃.world.obj with tables }) e₃).client :=
    hc₆.trans hc₅
  refine Triple.of_run (onWorld_modifyObj_run _) ⟨h₆, ?_, ?_, ?_⟩
  · change ({ e₆.keeper with tableMaps := [] } : Keeper) = {}
    rw [hk₆, hk₅]
  · change e₆.client.conn = .closed
    rw [hclient]
    exact hconn₃
  · change e₆.client.world.heap.Owned base
    rw [hclient]
    exact ho₃

end

-- ---------------------------------------------------------------------------
-- The constructor
-- ---------------------------------------------------------------------------

structure Unborn (evs base : List Nat) (e : EventWorld) : Prop where
  events : e.events.Owned evs
  keeper : e.keeper = {}
  conn : e.client.conn = .closed
  blocks : e.world.heap.Owned base

/-- While the collection is read, with the description event `id`. -/
structure Reading (id : Nat) (evs base : List Nat) (e : EventWorld) : Prop
    extends EventWorld.Held evs e where
  description : e.keeper.description = some id
  conn : e.client.conn = .closed
  blocks : e.world.heap.Owned base

/-- What the constructor leaves: the events it read, and nothing else. -/
structure Constructed (evs base : List Nat) (e : EventWorld) : Prop extends EventWorld.Held evs e where
  description : e.keeper.description = none
  conn : e.client.conn = .closed
  sound : e.world.Sound base

theorem loadTablemapEvents_beside {id : Nat} {bufs : List (List UInt8)} {m : TableMapEvents}
    {e : EventWorld} (h : Reading id evs base e) :
    Beside EventWorld.worldPart (loadTablemapEvents os deserialize bufs m)
      (zoom World.heapPart (RplListener.loadTablemapEvents os deserialize bufs m)) e
      (fun _ e' => Reading id evs base e') EventsSound := by
  induction bufs generalizing m e with
  | nil => exact Beside.pure h
  | cons buff bufs ih =>
    unfold loadTablemapEvents RplListener.loadTablemapEvents
    have hcrash : Beside EventWorld.worldPart (throw .memory : EventM TableMapEvents)
        (zoom World.heapPart (throw .memory)) e (fun _ e' => Reading id evs base e') EventsSound :=
      Beside.throw h.owned.sound
    cases buff[4]? with
    | none => exact hcrash
    | some type =>
      dsimp only
      by_cases htype : type ≠ tableMapEventCode
      · rw [if_pos htype, if_pos htype]
        exact ih h
      rw [if_neg htype, if_neg htype]
      by_cases hshort : buff.length < 13
      · rw [if_pos hshort, if_pos hshort]
        exact hcrash
      rw [if_neg hshort, if_neg hshort, zoom_bind]
      apply Beside.zoom_run (a := os.grant e.world.heap.asked) (t := e.world.ask) rfl
      have h₁ : Reading id evs base (EventWorld.worldPart.set e.world.ask e) :=
        ⟨⟨h.owned, h.keyed⟩, h.description, h.conn, h.blocks.refused⟩
      cases os.grant e.world.heap.asked with
      | false => exact Beside.pure h₁
      | true =>
        rw [if_pos rfl, if_pos rfl]
        by_cases hlen : buff.length < eventLen buff
        · rw [if_pos hlen, if_pos hlen]
          exact Beside.throw h₁.owned.sound
        rw [if_neg hlen, if_neg hlen]
        cases deserialize (buff.take (eventLen buff)) with
        | none => exact Beside.pure h₁
        | some ev =>
          have huse : useDescription.run (EventWorld.worldPart.set e.world.ask e) =
              .ok () (EventWorld.worldPart.set e.world.ask e) := by
            unfold useDescription
            rw [run_get_bind, h₁.description]
            exact useEvent_run (h₁.live (by simp [Keeper.ids, h₁.description]))
          apply Beside.aside_run huse rfl
          apply Beside.aside_run newEvent_run rfl
          apply Beside.aside (P := fun _ e' => Reading id evs base e')
          · have h₂ := (newEvent_triple (E := fun _ _ => False) h₁.toHeld).ok newEvent_run
            apply (keepTableMap_triple h₂.2.2).mono
            · rintro _ e₃ ⟨hc, hd, h₃, -⟩
              refine ⟨congrArg Client.world hc, h₃, hd.trans h.description, ?_, ?_⟩
              · rw [hc]
                exact h.conn
              · rw [EventWorld.world, hc]
                exact h₁.blocks
            · exact fun _ _ hf => hf
          · exact fun _ _ h₃ => ih h₃

theorem listener_constructed {args : InitArgs} {maps : TableMapEvents} (h : e.Held evs)
    (hd : e.keeper.description = none) (hc : e.client.conn = .closed)
    (hb : e.world.heap.Owned base) : Constructed evs base (EventWorld.worldPart.set
      (e.world.put { args.listener with globTableMapEvents := maps }) e) := by
  refine ⟨⟨h.owned, h.keyed⟩, hd, hc, World.Sound.of_fresh ?_ hb⟩
  have htables : args.listener.tables = [] := by
    unfold InitArgs.listener
    cases args.masterFileName <;> rfl
  intro t ht
  change t ∈ args.listener.tables at ht
  rw [htables] at ht
  cases ht

theorem newListener_beside {args : InitArgs} (h : Unborn evs base e) :
    Beside EventWorld.worldPart (newListener os deserialize args)
      (do
        let o ← zoom World.heapPart (RplListener.newListener os deserialize args)
        modifyObj fun _ => o) e
      (fun _ e' => Constructed evs base e' ∧
        (args.tblmapsCollection = none → e'.keeper.tableMaps = [])) EventsSound := by
  have hplain {e : EventWorld} (hk : e.keeper = {}) (he : e.events.Owned evs)
      (hc : e.client.conn = .closed) (hb : e.world.heap.Owned base) :
      Beside EventWorld.worldPart (onWorld (modifyObj fun _ => args.listener))
        (modifyObj fun _ => args.listener) e (fun _ e' => Constructed evs base e' ∧
          (args.tblmapsCollection = none → e'.keeper.tableMaps = [])) EventsSound := by
    obtain ⟨client, events, keeper⟩ := e
    obtain rfl : keeper = {} := hk
    refine Beside.zoom (Triple.of_run (modifyObj_run _) ⟨?_, fun _ => rfl⟩)
    exact listener_constructed ⟨he, List.nodup_nil⟩ rfl hc hb
  unfold newListener RplListener.newListener
  cases args.masterFileName with
  | none => exact hplain h.keeper h.events h.conn h.blocks
  | some name =>
    cases hcollection : args.tblmapsCollection with
    | none =>
      rw [hcollection] at hplain
      exact hplain h.keeper h.events h.conn h.blocks
    | some bufs =>
      dsimp only
      rw [zoom_bind, bind_assoc]
      apply Beside.zoom_run (a := os.grant e.world.heap.asked) (t := e.world.ask) rfl
      have hasked : e.world.ask.heap.Owned base := h.blocks.refused
      cases os.grant e.world.heap.asked with
      | false =>
        rw [hcollection] at hplain
        exact @hplain (EventWorld.worldPart.set e.world.ask e) h.keeper h.events h.conn hasked
      | true =>
        rw [if_pos rfl, if_pos rfl, zoom_bind, bind_assoc]
        apply Beside.aside_run newEvent_run rfl
        apply Beside.aside_run (setKeeper_run _) rfl
        apply Beside.bind (Q := fun _ e' => Reading e.events.asked evs base e')
        · apply loadTablemapEvents_beside
          have ho : e.events.granted.Owned ([e.events.asked] ++ (e.keeper.mapIds ++ evs)) := by
            rw [h.keeper]
            exact h.events.granted
          have hkeyed : e.keeper.Keyed := by
            rw [h.keeper]
            exact List.nodup_nil
          exact ⟨⟨ho, hkeyed⟩, rfl, h.conn, hasked⟩
        intro maps e₁ h₁
        have ho₁ : e₁.events.Owned (e.events.asked :: (e₁.keeper.mapIds ++ evs)) := by
          have ho := h₁.owned
          rwa [Keeper.ids, h₁.description] at ho
        apply Beside.aside (P := fun _ e' => e'.client = e₁.client ∧ e'.keeper = e₁.keeper ∧
          e'.events.Owned (e₁.keeper.mapIds ++ evs))
        · apply (deleteEvent_triple ho₁).mono
          · exact fun _ e' h' => ⟨congrArg Client.world h'.1, h'⟩
          · exact fun _ _ hf => hf
        rintro _ e₂ ⟨hc, hk, ho₂⟩
        apply Beside.aside_run (setKeeper_run _) rfl
        refine Beside.zoom (Triple.of_run (modifyObj_run _) ⟨?_, by simp⟩)
        apply listener_constructed
        · constructor
          · change e₂.events.Owned (e₂.keeper.mapIds ++ evs)
            rwa [hk]
          · change e₂.keeper.Keyed
            rw [hk]
            exact h₁.keyed
        · rfl
        · change e₂.client.conn = .closed
          rw [hc]
          exact h₁.conn
        · change e₂.client.world.heap.Owned base
          rw [hc]
          exact h₁.blocks

-- ---------------------------------------------------------------------------
-- A whole life
-- ---------------------------------------------------------------------------

theorem life_gone {life : Life} {e' : EventWorld} (h : Constructed evs base e)
    (hG : life.Clears lib os e.client) (hrun : (life.run lib os).run e = .ok () e') :
    Owns (life.lost os e ++ evs) base e' := by
  have hsetup := @setUp_triple os base life e.client h.conn h.sound
  unfold Life.run at hrun
  obtain ⟨started, e₁, hset, hreplicate⟩ := run_bind_inv hrun
  unfold Life.lost
  unfold onClient at hset
  rw [run_zoom] at hset
  cases hclient : (life.setUp os).run e.client with
  | error c c₁ =>
    rw [show EventWorld.clientPart.get e = e.client from rfl, hclient] at hset
    cases hset
  | ok started' c₁ =>
    rw [show EventWorld.clientPart.get e = e.client from rfl, hclient] at hset
    cases hset
    obtain ⟨ht, hs⟩ := hsetup.ok hclient
    have h₁ : Owns evs base (EventWorld.clientPart.set c₁ e) := ⟨⟨h.owned, h.keyed⟩, ht, hs⟩
    cases started with
    | false =>
      obtain ⟨-, rfl⟩ := run_pure_inv hreplicate
      exact h₁
    | true => exact (thread_owns h₁ h.description (hG c₁ hclient)).ok hreplicate

/-- A listener, from its constructor to its destructor, loses at most the events that
its constructor read, and these exactly when its thread clears the map. -/
theorem life_releases {args : InitArgs} {life : Life} {e₀ e' : EventWorld} (h : Unborn evs base e₀)
    (hnew : (newListener os deserialize args).run e₀ = .ok () e) (hG : life.Clears lib os e.client)
    (hrun : (life.run lib os).run e = .ok () e') :
    ∃ e'', destroy.run e' = .ok () e'' ∧ Gone (life.lost os e ++ evs) base e'' ∧
      (args.tblmapsCollection = none → life.lost os e = []) := by
  obtain ⟨-, hconstructed, hmaps⟩ := (newListener_beside h).ok hnew
  have hgone : Triple destroy e' (fun _ e'' => Gone (life.lost os e ++ evs) base e'')
      fun _ _ => False := destroy_gone (life_gone hconstructed hG hrun)
  cases hdestroy : destroy.run e' with
  | error c e'' => exact (hgone.error hdestroy).elim
  | ok u e'' =>
    refine ⟨e'', rfl, hgone.ok hdestroy, ?_⟩
    intro hnone
    unfold Life.lost Keeper.mapIds
    rw [hmaps hnone]
    split
    · split <;> rfl
    · rfl

def savedArgs : InitArgs := { sampleArgs with tblmapsCollection := some [savedBytes] }

def sampleLife : Life where
  adds := [(ascii "d", ascii "t")]
  calls := sampleCalls sampleStatus
  spawn := none
  needStop _ := false
  binlogOpen := none
  packets := [.heartbeat 20 5, samplePacket (.tableMap 6 sampleTable), .eof]

def unborn : EventWorld := { client := { world := { obj := savedArgs.listener } } }

theorem life_releases_sample : ∃ e e' e'',
    (newListener sampleAllocator deserializeSaved savedArgs).run unborn = .ok () e ∧
      (sampleLife.run sampleLibrary sampleAllocator).run e = .ok () e' ∧
      destroy.run e' = .ok () e'' ∧ Gone [1] [] e'' := by
  have hrun : returned (fun _ e => decide (sampleLife.lost sampleAllocator e = [1]) &&
      returned (fun _ _ => true) ((sampleLife.run sampleLibrary sampleAllocator).run e))
      ((newListener sampleAllocator deserializeSaved savedArgs).run unborn) = true := by
    decide +kernel
  obtain ⟨_, e, hnew, h⟩ := exists_of_returned hrun
  simp only [Bool.and_eq_true, decide_eq_true_eq] at h
  obtain ⟨_, e', hlived, -⟩ := exists_of_returned h.2
  have hclears : sampleLife.Clears sampleLibrary sampleAllocator e.client := by
    intro c _ w _ v hv
    simp only [sampleLife, samplePacket, loopVisits, Packet.visits, LogEvent.visits,
      List.cons_append, List.nil_append] at hv
    -- The loop handles a heartbeat and then a table map.
    obtain rfl | hv := List.mem_cons.mp hv
    · trivial
    split at hv
    · obtain rfl | hv := List.mem_cons.mp hv
      · trivial
      split at hv
      · split at hv <;> cases hv
      · cases hv
    · cases hv
  have hunborn : Unborn [] [] unborn := ⟨Heap.owned_empty, rfl, rfl, Heap.owned_empty⟩
  obtain ⟨e'', hdestroy, hgone, -⟩ := life_releases hunborn hnew hclears hlived
  refine ⟨e, e', e'', hnew, hlived, hdestroy, ?_⟩
  rwa [h.1] at hgone

end Events

end RplListener
