import RplListener.Listener.Failures
import RplListener.Listener.Session

/-!
# The replication thread of a session

While the thread handles an event nobody else changes its world: handling it does
what `process_event` does alone, with some answers for the looks at `need_stop`.
-/

namespace RplListener

open Bytes Refine Interleave

namespace Session

variable {slot : Nat} {Starts : World → Prop} {Tells : Told → Prop} {s s' : Shared}
variable {α β : Type} {k : Nat} {w : World}

/-- Between `PTHREAD_CANCEL_DISABLE` and the next `PTHREAD_CANCEL_ENABLE`. -/
structure Busy (slot : Nat) (s : Shared) : Prop where
  threads : s.threads = [slot]
  disabled : s.disabled 0 = true
  inProcess : s.obj.InProcess

theorem Busy.not_ended (h : Busy slot s) : s.obj.state ≠ .ended :=
  h.inProcess.ne (by decide) (by decide)

theorem stable_busy (w : World) :
    (rules slot Starts Tells).Stable (.repl 0) fun s => Busy slot s ∧ s.world slot = w := by
  refine stable_of_moves fun j s s' hj hp hm => ?_
  obtain ⟨hb, rfl⟩ := hp
  obtain ⟨-, -, hg, ha⟩ := hm
  have hthreads : s'.threads = [slot] := hg.threads_eq hb.threads
  have hdis : s'.disabled 0 = true := (hg.disabled hj).trans hb.disabled
  cases hg.world hj (by simp [hb.threads]) with
  | same hworld => exact ⟨⟨hthreads, hdis, obj_of_world hworld ▸ hb.inProcess⟩, hworld⟩
  | begun hstate => exact absurd hstate (hb.inProcess.ne (by decide) (by decide))
  | ended _ hworld =>
    have hend : s'.obj.state = .ended := state_of_world hworld
    cases j with
    | client n => exact absurd (undisturbed hb.threads hb.not_ended hend ha) (by simp [hb.disabled])
    | repl j =>
      have hsame : s' = s := hg.idle j (fun h => hj (congrArg Tid.repl h)) rfl
      exact absurd (hsame ▸ hend) hb.not_ended
  | after hend => exact absurd hend hb.not_ended

theorem Busy.step (h : Busy slot s) (ht : s'.threads = s.threads) (hd : s'.disabled = s.disabled)
    (hc : s'.cancelled = s.cancelled) (hp : s'.obj.InProcess) :
    Shares slot Starts (.repl 0) s s' ∧ Between slot Tells s' ∧ Busy slot s' := by
  have hthreads : s.threads ≠ [] := by simp [h.threads]
  have hbusy : Busy slot s' := ⟨ht.trans h.threads, hd ▸ h.disabled, hp⟩
  refine ⟨?_, ?_, hbusy⟩
  · exact {
      threads := fun _ => ht
      setup := fun _ hs => absurd hs hthreads
      launched := fun hs => absurd hs hthreads
      held := fun _ hs => absurd hs (h.inProcess.ne (by decide) (by decide))
      final := fun _ hs => absurd hs h.not_ended
      world := fun hi => absurd rfl hi
      disabled := fun hi => absurd rfl hi
      cancelled := fun hs => hc ▸ hs
      idle := by rintro k hk ⟨⟩; exact absurd rfl hk }
  · refine ⟨.inr hbusy.threads, fun hs => absurd (ht ▸ hs) hthreads, fun _ hor => ?_,
      fun _ _ => .inr hbusy.disabled⟩
    rcases hor with hdis | hend
    · exact absurd hdis (by simp [hbusy.disabled])
    · exact absurd hend hbusy.not_ended

-- ---------------------------------------------------------------------------
-- Steps
-- ---------------------------------------------------------------------------

/-- The thread does to its world what `x` does, from look `k` on. -/
abbrev Tracks (slot : Nat) (Starts : World → Prop) (Tells : Told → Prop) (k : Nat) (c : Code α)
    (x : (Nat → Bool) → ListenM β) (R : Nat → α → β → Prop) : Prop :=
  c.Tracks (rules slot Starts Tells) (.repl 0) (Busy slot) (Shared.world slot) k x R

def Same (k k' : Nat) (a b : α) : Prop := k' = k ∧ a = b

variable {x : (Nat → Bool) → ListenM β} {R : Nat → α → β → Prop}

theorem tracks_pure {a : α} {b : β} (h : R k a b) :
    Tracks slot Starts Tells k (pure a) (fun _ => pure b) R := .pure stable_busy h

theorem tracks_obj {y : ListenM α} (hy : Stable (fun w => w.obj.InProcess) y) :
    Tracks slot Starts Tells k (onObj slot y) (fun _ => y) (Same k) := by
  refine Prog.Tracks.atomic (p := Shared.worldPart slot) stable_busy fun s hb _ => ?_
  have hstep (w : World) (hw : w.obj.InProcess) :
      Shares slot Starts (.repl 0) s ((Shared.worldPart slot).set w s) ∧
        Between slot Tells ((Shared.worldPart slot).set w s) ∧
        Busy slot ((Shared.worldPart slot).set w s) := hb.step rfl rfl rfl hw
  exact (hy (s.world slot) hb.inProcess).mono (fun _ w hw _ => hstep w hw)
    fun _ w hw _ => (hstep w hw).imp_right And.left

theorem tracks_look {f : Shared → α} (b : Shared → β) (bs : Shared → List Bool)
    (hx : ∀ s ω, Sees ω k (bs s) → (x ω).run (s.world slot) = .ok (b s) (s.world slot))
    (hr : ∀ s, R (k + (bs s).length) (f s) (b s)) :
    Tracks slot Starts Tells k (atomic do pure (f (← get))) x R := by
  refine Prog.Tracks.step stable_busy fun s hb hi => Triple.look fun _ => ?_
  exact ⟨.refl _ _, hi, hb, bs s, b s, hx s, hr s⟩

section

variable {α' β' : Type} {R' : Nat → α' → β' → Prop}

theorem tracks_read {f : Listener → Code α'} {g : World → (Nat → Bool) → ListenM β'}
    (h : ∀ w, Tracks slot Starts Tells k (f w.obj) (g w) R') :
    Tracks slot Starts Tells k (readObj >>= f) (fun ω => get >>= fun w => g w ω) R' := by
  refine Prog.Tracks.bind (x := fun _ => get) (R := fun k' o w => k' = k ∧ o = w.obj)
    (tracks_look (Shared.world slot) (fun _ => []) (fun _ _ _ => rfl) fun _ => ⟨rfl, rfl⟩) ?_
  rintro _ _ w ⟨rfl, rfl⟩
  exact h w

theorem tracks_isError {f : Bool → Code α'} {g : World → (Nat → Bool) → ListenM β'}
    (h : ∀ w, Tracks slot Starts Tells k (f w.error.isSome) (g w) R') :
    Tracks slot Starts Tells k (isError slot >>= f) (fun ω => get >>= fun w => g w ω) R' := by
  refine Prog.Tracks.bind (x := fun _ => get) (R := fun k' b w => k' = k ∧ b = w.error.isSome)
    (tracks_look (Shared.world slot) (fun _ => []) (fun _ _ _ => rfl) fun _ => ⟨rfl, rfl⟩) ?_
  rintro _ _ w ⟨rfl, rfl⟩
  exact h w

/-- A look at `need_stop` uses up an answer. -/
theorem tracks_needStop {f : Bool → Code α'} {g : Bool → (Nat → Bool) → ListenM β'}
    (h : ∀ b, Tracks slot Starts Tells (k + 1) (f b) (g b) R') :
    Tracks slot Starts Tells k (readNeedStop >>= f) (fun ω => g (ω k) ω) R' := by
  refine Prog.Tracks.bind (x := fun ω => pure (ω k)) (R := fun k' a b => k' = k + 1 ∧ a = b)
    (g := g) (tracks_look Shared.needStop (fun s => [s.needStop]) ?_
      fun _ => ⟨rfl, rfl⟩) ?_
  · exact fun s ω hω => by rw [hω.1]; rfl
  · rintro _ b _ ⟨rfl, rfl⟩
    exact h b

theorem tracks_ite {p : Prop} [Decidable p] {c c' : Code α} {x x' : (Nat → Bool) → ListenM β}
    (ht : p → Tracks slot Starts Tells k c x R) (hf : ¬ p → Tracks slot Starts Tells k c' x' R) :
    Tracks slot Starts Tells k (if p then c else c') (fun ω => if p then x ω else x' ω) R := by
  by_cases h : p
  · simpa only [if_pos h] using ht h
  · simpa only [if_neg h] using hf h

theorem tracks_bind {c : Code α} {x : ListenM α} {f : α → Code α'}
    {g : α → (Nat → Bool) → ListenM β'} (hc : Tracks slot Starts Tells k c (fun _ => x) (Same k))
    (hf : ∀ a, Tracks slot Starts Tells k (f a) (g a) R') :
    Tracks slot Starts Tells k (c >>= f) (fun ω => x >>= fun a => g a ω) R' := by
  refine Prog.Tracks.bind hc ?_
  rintro _ a _ ⟨rfl, rfl⟩
  exact hf a

theorem tracks_return {c : Code α} {x : ListenM α} {b : β}
    (h : Tracks slot Starts Tells k c (fun _ => x) (Same k)) (hr : ∀ a, R k a b) :
    Tracks slot Starts Tells k c (fun _ => x >>= fun _ => pure b) R := by
  refine fun w => (h w).weaken fun a s hs => ?_
  obtain ⟨hb, bs, a', hrun, hk, rfl⟩ := hs
  refine ⟨hb, bs, b, fun ω hω => ?_, hk.symm ▸ hr a⟩
  rw [run_bind_ok (hrun ω hω)]
  rfl

theorem tracks_throw (e : Crash) : Tracks slot Starts Tells k
    (onObj slot (throw e : ListenM α)) (fun _ => (throw e : ListenM β)) R := by
  refine Prog.Tracks.step stable_busy fun s hb _ => ?_
  have hrun : (zoom (Shared.worldPart slot) (throw e : ListenM α)).run s =
      .error e (s.withWorld slot (s.world slot)) := rfl
  have hstep : Shares slot Starts (.repl 0) s (s.withWorld slot (s.world slot)) ∧
      Between slot Tells (s.withWorld slot (s.world slot)) ∧ Busy slot _ :=
    hb.step rfl rfl rfl hb.inProcess
  exact Triple.of_run_error hrun fun _ => hstep.imp_right And.left

end

-- ---------------------------------------------------------------------------
-- Pieces that leave replication on
-- ---------------------------------------------------------------------------

abbrev StaysOn (x : ListenM α) : Prop := Stable (fun w => w.obj.InProcess) x

theorem StaysOn.keeps {x : ListenM α} (h : Keeps (fun w => w.obj.state) x) : StaysOn x :=
  Stable.of_keeps (P := fun st : ReplState => st = .inprocess1 ∨ st = .inprocess) h

theorem StaysOn.modify {f : World → World} (h : ∀ w, (f w).obj.state = w.obj.state) :
    StaysOn (modify f : ListenM Unit) := .keeps (.modify h)

theorem StaysOn.heap (x : EStateM Crash Heap α) : StaysOn (zoom World.heapPart x) :=
  .keeps (.zoom fun _ _ => rfl)

theorem StaysOn.settle : StaysOn (swapState .inprocess1 .inprocess) := by
  refine fun w hw => Triple.of_run (a := ()) rfl ?_
  dsimp only
  split
  · exact .inr rfl
  · exact hw

theorem StaysOn.call (registered : Bool) (c : Call) : StaysOn (call registered c) := by
  cases registered with
  | false => exact .throw _
  | true => exact .modify fun _ => rfl

theorem StaysOn.fillTable (lib : Library) (os : Allocator) (ev : RowsLogEvent2)
    (map : TableMapLogEvent) (q : Nat) : StaysOn (fillTable lib os ev map q) :=
  .keeps fun w => (life_fillTable lib os ev map q w).mono (fun _ _ h => congrArg Prod.fst h)
    fun _ _ h => congrArg Prod.fst h

-- ---------------------------------------------------------------------------
-- process_event
-- ---------------------------------------------------------------------------

variable {lib : Library} {os : Allocator}

abbrev Does (slot : Nat) (Starts : World → Prop) (Tells : Told → Prop) (k : Nat) (c : Code α)
    (x : ListenM α) : Prop := Tracks slot Starts Tells k c (fun _ => x) (Same k)

theorem does_pure (a : α) : Does slot Starts Tells k (pure a) (pure a) := tracks_pure ⟨rfl, rfl⟩

theorem does_call (registered : Bool) (c : Call) :
    Does slot Starts Tells k (onObj slot (call registered c)) (call registered c) :=
  tracks_obj (StaysOn.call _ _)

theorem does_modifyObj {f : Listener → Listener} (h : ∀ o, (f o).state = o.state) :
    Does slot Starts Tells k (onObj slot (modifyObj f)) (modifyObj f) := tracks_obj (StaysOn.modify fun w => h w.obj)

theorem does_settle : Does slot Starts Tells k (onObj slot (swapState .inprocess1 .inprocess))
    (swapState .inprocess1 .inprocess) := tracks_obj StaysOn.settle

theorem does_setError (desc : String) :
    Does slot Starts Tells k (onObj slot (setError desc)) (setError desc) :=
  tracks_obj (StaysOn.modify fun _ => rfl)

theorem does_commitTransaction (when : Nat) : Does slot Starts Tells k
    ((Interleaved.access slot).commitTransaction when) (direct.commitTransaction when) := by
  refine tracks_read fun w => tracks_ite (fun _ => ?_) fun _ => does_pure false
  exact tracks_bind (does_call _ _) fun _ => does_pure true

theorem does_endTransaction : Does slot Starts Tells k (Interleaved.access slot).endTransaction
    direct.endTransaction := tracks_bind (does_modifyObj fun _ => rfl) fun _ => does_settle

theorem does_convertToHeartbeat (type : LogEventType) (when : Nat) : Does slot Starts Tells k
    ((Interleaved.access slot).convertToHeartbeat type when) (direct.convertToHeartbeat type when) :=
  tracks_read fun _ => tracks_ite (fun _ => does_call _ _) fun _ => does_pure ()

theorem does_openTransaction (text : List UInt8) : Does slot Starts Tells k
    ((Interleaved.access slot).openTransaction text) (direct.openTransaction text) :=
  tracks_ite (fun _ => tracks_bind does_settle fun _ => does_modifyObj fun _ => rfl)
    fun _ => does_pure ()

theorem does_closeTransaction (text : List UInt8) (when : Nat) : Does slot Starts Tells k
    ((Interleaved.access slot).closeTransaction text when) (direct.closeTransaction text when) := by
  refine tracks_ite (fun _ => ?_) fun _ => does_pure true
  refine tracks_bind (does_commitTransaction when) fun called => ?_
  exact tracks_bind does_endTransaction fun _ => does_pure _

theorem does_queryHeartbeat (convert : Bool) (when : Nat) : Does slot Starts Tells k
    ((Interleaved.access slot).queryHeartbeat convert when) (direct.queryHeartbeat convert when) :=
  tracks_read fun _ => tracks_ite (fun _ => does_call _ _) fun _ => does_pure ()

theorem does_processQuery (when : Nat) (query : List UInt8) : Does slot Starts Tells k
    ((Interleaved.access slot).processQuery os when query) (direct.processQuery os when query) := by
  refine tracks_bind (tracks_obj (StaysOn.heap _)) fun ok => ?_
  refine tracks_ite (fun _ => ?_) fun _ => does_setError _
  refine tracks_bind (does_openTransaction _) fun _ => ?_
  exact tracks_bind (does_closeTransaction _ _) fun convert => does_queryHeartbeat convert when

theorem does_processXid (when : Nat) : Does slot Starts Tells k
    ((Interleaved.access slot).processXid when) (direct.processXid when) := by
  exact tracks_bind (does_commitTransaction when) fun _ => does_endTransaction

theorem does_clearRows (r : ReplLogXRows) :
    Does slot Starts Tells k (onObj slot (clearRows r)) (clearRows r) := tracks_obj (StaysOn.heap _)

theorem does_startTransaction (when : Nat) : Does slot Starts Tells k
    ((Interleaved.access slot).startTransaction when) (direct.startTransaction when) := by
  refine tracks_read fun w => tracks_ite (fun _ => ?_) fun _ => does_pure ()
  refine tracks_bind (does_modifyObj fun _ => rfl) fun _ => ?_
  exact tracks_ite (fun _ => does_call _ _) fun _ => does_pure ()

theorem does_finishRows (result : Except FillStop ReplLogXRows) : Does slot Starts Tells k
    ((Interleaved.access slot).finishRows result) (finishRows result) := by
  cases result with
  | ok r =>
    refine tracks_read fun w => ?_
    dsimp only
    cases w.obj.onRow with
    | false => exact does_clearRows r
    | true => exact tracks_bind (does_call _ _) fun _ => does_clearRows r
  | error e =>
    cases e with
    | failed desc => exact does_setError _
    | thrown what r => exact tracks_bind (does_clearRows r) fun _ => does_setError _
    | stopped desc r => exact tracks_bind (does_clearRows r) fun _ => does_setError _
    | memory => exact tracks_obj (.throw _)

theorem does_deliverRows (ev : RowsLogEvent2) (map : TableMapLogEvent) (q : Nat) :
    Does slot Starts Tells k ((Interleaved.access slot).deliverRows lib os ev map q)
      (direct.deliverRows lib os ev map q) := by
  refine tracks_bind (does_startTransaction _) fun _ => ?_
  exact tracks_bind (tracks_obj (StaysOn.fillTable _ _ _ _ _)) fun result => does_finishRows result

theorem does_processRows (ev : RowsLogEvent2) : Does slot Starts Tells k
    ((Interleaved.access slot).processRows lib os ev) (processRows lib os ev) := by
  refine tracks_read fun w => tracks_ite (fun _ => ?_) fun _ => does_pure ()
  cases w.obj.mapOf ev with
  | none => exact does_setError _
  | some map =>
    dsimp only
    cases watchedTable map w.obj.tables 0 none with
    | none => exact does_pure ()
    | some q => exact does_deliverRows ev map q

theorem does_rotate (newLogIdent : List UInt8) : Does slot Starts Tells k
    (onObj slot (processRotate newLogIdent)) (processRotate newLogIdent) := by
  refine does_modifyObj fun o => ?_
  dsimp only
  split <;> rfl

theorem does_processLeaf (ev : LeafEvent) : Does slot Starts Tells k
    ((Interleaved.access slot).processLeaf lib os ev) (direct.processLeaf lib os ev) := by
  cases ev with
  | query when query => exact does_processQuery when query
  | formatDescription when event => exact does_modifyObj fun _ => rfl
  | tableMap when event => exact does_modifyObj fun _ => rfl
  | rotate when newLogIdent => exact does_rotate newLogIdent
  | rows event isRows => exact does_processRows event
  | xid when => exact does_processXid when
  | xaPrepareLog when => exact does_processXid when
  | other type when unlisted =>
    cases type with
    | anonymousGtidLog => exact does_settle
    | gtidLog => exact does_settle
    | _ => exact does_pure ()

theorem does_handleLeaf (ev : LeafEvent) : Does slot Starts Tells k
    ((Interleaved.access slot).handleLeaf lib os ev) (handleLeaf lib os ev) := by
  refine tracks_bind (tracks_obj (StaysOn.modify fun _ => rfl)) fun _ => ?_
  exact tracks_bind (does_convertToHeartbeat _ _) fun _ => does_processLeaf ev

mutual

/-- An event is handled as it would be alone; the result is the number of the next
look. -/
theorem tracks_processEvent (k : Nat) : (ev : LogEvent) → Tracks slot Starts Tells k
    (Interleaved.processEvent lib os slot ev) (fun ω => processEvent lib os ω k ev)
      fun k' _ b => b = k'
  | .leaf ev => by
    unfold Interleaved.processEvent processEvent
    exact tracks_return (does_handleLeaf ev) fun _ => rfl
  | .transactionPayload when payload => by
    unfold Interleaved.processEvent processEvent
    refine tracks_bind (tracks_obj (StaysOn.modify fun _ => rfl)) fun _ => ?_
    refine tracks_read fun w => tracks_ite (fun _ => ?_) fun _ => ?_
    · exact tracks_throw _
    · exact tracks_processPayload k payload

theorem tracks_processPayload (k : Nat) : (payload : Payload) → Tracks slot Starts Tells k
    (Interleaved.processPayload lib os slot payload) (fun ω => processPayload lib os ω k payload)
      fun k' _ b => b = k'
  | .nil => by
    unfold Interleaved.processPayload processPayload
    exact tracks_pure rfl
  | .failed desc => by
    unfold Interleaved.processPayload processPayload
    exact tracks_return (does_setError _) fun _ => rfl
  | .cons ev rest => by
    unfold Interleaved.processPayload processPayload
    refine Prog.Tracks.bind (tracks_processEvent k ev) ?_
    rintro _ _ k' rfl
    refine tracks_isError fun w => ?_
    cases w.error.isSome with
    | true => exact tracks_pure rfl
    | false =>
      refine tracks_needStop
        (g := fun b ω => if b then pure (k' + 1) else processPayload lib os ω (k' + 1) rest) fun b => ?_
      cases b with
      | true => exact tracks_pure rfl
      | false => exact tracks_processPayload (k' + 1) rest

end

-- ---------------------------------------------------------------------------
-- A turn of the loop
-- ---------------------------------------------------------------------------

theorem does_processHeartbeat (when : Nat) : Does slot Starts Tells k
    ((Interleaved.access slot).processHeartbeat when) (processHeartbeat when) := by
  refine tracks_read fun w => tracks_ite (fun _ => does_setError _) fun _ => ?_
  refine tracks_bind does_settle fun _ => tracks_read fun w => ?_
  exact tracks_ite (fun _ => does_call _ _) fun _ => does_pure ()

/-- How a turn ends, and the number of the next look. -/
def Ends (k : Nat) (done : Bool) (t : Turn) : Prop := t = if done then .done else .next k

theorem tracks_lookAgain : Tracks slot Starts Tells k readNeedStop
    (fun ω => pure (lookAgain ω k)) Ends := by
  refine tracks_look (fun s => if s.needStop then .done else .next (k + 1))
    (fun s => [s.needStop]) (fun s ω hω => ?_) fun s => rfl
  rw [lookAgain, hω.1]
  rfl

theorem tracks_turn (k : Nat) (p : Packet) : Tracks slot Starts Tells k
    (Interleaved.turn lib os slot p) (fun ω => turn lib os ω k p) Ends := by
  have hsize (n : Nat) : Does slot Starts Tells k (onObj slot (setSize n)) (setSize n) :=
    does_modifyObj fun _ => rfl
  cases p with
  | fetchError desc =>
    exact tracks_bind (tracks_obj (StaysOn.modify fun _ => rfl)) fun _ => tracks_pure rfl
  | eof => exact tracks_bind (does_setError _) fun _ => tracks_pure rfl
  | failed size desc =>
    exact tracks_bind (hsize size) fun _ => tracks_bind (does_setError _) fun _ => tracks_pure rfl
  | heartbeat size when =>
    refine tracks_bind (hsize size) fun _ => tracks_bind (does_processHeartbeat when) fun _ => ?_
    exact tracks_isError fun w => tracks_ite (fun _ => tracks_pure rfl) fun _ => tracks_lookAgain
  | event size ev =>
    refine tracks_bind (hsize size) fun _ => ?_
    refine Prog.Tracks.bind (tracks_processEvent k ev) ?_
    rintro _ _ k' rfl
    refine tracks_isError fun w => tracks_ite (fun _ => tracks_pure rfl) fun _ => ?_
    exact tracks_bind (does_modifyObj fun _ => rfl) fun _ => tracks_lookAgain

-- ---------------------------------------------------------------------------
-- Where the thread can be cancelled
-- ---------------------------------------------------------------------------

/-- A client has ended the listener, and told the thread to end. -/
def Over (s : Shared) : Prop := s.obj.state = .ended ∧ s.cancelled 0 = true

theorem idle_world {j : Tid} (hj : j ≠ .repl 0) (ht : s.threads = [slot]) (hd : s.disabled 0 = false)
    (hm : (rules slot Starts Tells).moves j s s') :
    s'.world slot = s.world slot ∨
      s.obj.state = .postPrepared ∧ s'.world slot = (s.world slot).begun ∨ Over s' := by
  obtain ⟨hi, hi', hg, -⟩ := hm
  have hthreads : s.threads ≠ [] := by simp [ht]
  have hover (hend : s'.obj.state = .ended) : Over s' :=
    ⟨hend, (hi'.calm (by simp [hg.threads_eq ht]) hend).resolve_right
      (by simp [(hg.disabled hj).trans hd])⟩
  cases hg.world hj hthreads with
  | same h => exact .inl h
  | begun hstate h => exact .inr (.inl ⟨hstate, h⟩)
  | ended _ h => exact .inr (.inr (hover (state_of_world h)))
  | after _ hend => exact .inr (.inr (hover hend))

theorem over_move {j : Tid} (hj : j ≠ .repl 0) (ht : s.threads = [slot])
    (hm : (rules slot Starts Tells).moves j s s') (h : Over s) : Over s' :=
  ⟨(hm.2.2.1.world hj (by simp [ht])).final h.1, hm.2.2.1.cancelled h.2⟩

/-- The thread fetches, with the world `w`, unless a client has ended it. -/
structure Fetches (slot : Nat) (w : World) (s : Shared) : Prop where
  threads : s.threads = [slot]
  disabled : s.disabled 0 = false
  told : s.told = w.told
  world : s.world slot = w ∨ Over s

theorem stable_fetches (hw : w.obj.InProcess) :
    (rules slot Starts Tells).Stable (.repl 0) (Fetches slot w) := by
  refine stable_of_moves fun j s s' hj hp hm => ?_
  have hg := hm.2.2.1
  refine ⟨hg.threads_eq hp.threads, (hg.disabled hj).trans hp.disabled,
    (hg.world hj (by simp [hp.threads])).told.trans hp.told, ?_⟩
  rcases hp.world with hworld | hover
  · rcases idle_world hj hp.threads hp.disabled hm with h | ⟨hstate, -⟩ | h
    · exact .inl (h.trans hworld)
    · have hobj : s.obj = w.obj := congrArg World.obj hworld
      exact absurd (hobj ▸ hstate) (hw.ne (by decide) (by decide))
    · exact .inr h
  · exact .inr (over_move hj hp.threads hm hover)

/-- The thread waits for the start, in a world whose start is still to come or was
seen by the thread's client only. -/
structure Waits (slot : Nat) (w : World) (s : Shared) : Prop where
  threads : s.threads = [slot]
  disabled : s.disabled 0 = false
  told : s.told = w.told
  world : s.world slot = w ∨ s.world slot = w.begun ∨ Over s

/-- What the thread knows before it was created, and until the start. -/
structure Unstarted (slot : Nat) (Starts : World → Prop) (s : Shared) : Prop where
  disabled : s.disabled 0 = false
  waits : s.threads ≠ [] → ∃ w, w.obj.state = .postPrepared ∧ w.error = none ∧ Starts w.begun ∧
    Waits slot w s

theorem Waits.move {j : Tid} (hj : j ≠ .repl 0) (hp : Waits slot w s)
    (hm : (rules slot Starts Tells).moves j s s') : Waits slot w s' := by
  have hg := hm.2.2.1
  refine ⟨hg.threads_eq hp.threads, (hg.disabled hj).trans hp.disabled,
    (hg.world hj (by simp [hp.threads])).told.trans hp.told, ?_⟩
  rcases hp.world with hworld | hworld | hover
  · rcases idle_world hj hp.threads hp.disabled hm with h | ⟨-, h⟩ | h
    · exact .inl (h.trans hworld)
    · exact .inr (.inl (hworld ▸ h))
    · exact .inr (.inr h)
  · rcases idle_world hj hp.threads hp.disabled hm with h | ⟨hstate, -⟩ | h
    · exact .inr (.inl (h.trans hworld))
    · have hobj : s.obj = w.begun.obj := congrArg World.obj hworld
      exact absurd (hobj ▸ hstate) (w.begun_inProcess.ne (by decide) (by decide))
    · exact .inr (.inr h)
  · exact .inr (.inr (over_move hj hp.threads hm hover))

theorem stable_unstarted : (rules slot Starts Tells).Stable (.repl 0) (Unstarted slot Starts) := by
  refine stable_of_moves fun j s s' hj hp hm => ?_
  have hg := hm.2.2.1
  refine ⟨(hg.disabled hj).trans hp.disabled, fun ht' => ?_⟩
  by_cases ht : s.threads = []
  · have hcreated := hg.launched ht ht'
    refine ⟨s'.world slot, hcreated.state, hcreated.noError, hcreated.starts, hcreated.threads,
      (hg.disabled hj).trans hp.disabled, rfl, .inl rfl⟩
  · obtain ⟨w, hw, he, hstarts, hwaits⟩ := hp.waits ht
    exact ⟨w, hw, he, hstarts, hwaits.move hj hm⟩

theorem idle_step (ht : s'.threads = s.threads) (hthreads : s.threads ≠ [])
    (hobj : s'.obj = s.obj) (hc : s'.cancelled = s.cancelled) :
    Shares slot Starts (.repl 0) s s' where
  threads _ := ht
  setup _ hs := absurd hs hthreads
  launched hs := absurd hs hthreads
  held _ _ := hobj
  final _ hs := hobj ▸ hs
  world hi := absurd rfl hi
  disabled hi := absurd rfl hi
  cancelled hs := hc ▸ hs
  idle := by rintro k hk ⟨⟩; exact absurd rfl hk

def Launched (slot : Nat) (Starts : World → Prop) (s : Shared) : Prop :=
  Unstarted slot Starts s ∧ s.threads = [slot]

def Started (slot : Nat) (Starts : World → Prop) (w : World) (s : Shared) : Prop :=
  Starts w ∧ w.error = none ∧ w.obj.InProcess ∧ Fetches slot w s

theorem stable_launched : (rules slot Starts Tells).Stable (.repl 0) (Launched slot Starts) :=
  fun s s' hs hr => ⟨stable_unstarted s s' hs.1 hr, stable_running s s' hs.2 hr⟩

theorem stable_started :
    (rules slot Starts Tells).Stable (.repl 0) fun s => ∃ w, Started slot Starts w s := by
  rintro s s' ⟨w, hstarts, he, hin, hf⟩ hr
  exact ⟨w, hstarts, he, hin, stable_fetches hin s s' hf hr⟩

theorem launched_clearError : (onObj slot clearError).Spec (rules slot Starts Tells) (.repl 0)
    (Launched slot Starts) fun _ => Launched slot Starts := by
  refine Prog.Spec.atomic stable_launched (fun _ => stable_launched) fun s hs hi =>
    Triple.of_run (a := ()) rfl fun _ => ?_
  obtain ⟨⟨hdis, hwaits⟩, ht⟩ := hs
  have hthreads : s.threads ≠ [] := by simp [ht]
  refine ⟨idle_step rfl hthreads rfl rfl, ⟨hi.threads, hi.early, hi.told, hi.calm⟩, ⟨hdis, ?_⟩, ht⟩
  intro _
  obtain ⟨w, hw, he, hstarts, hp⟩ := hwaits hthreads
  have hkept (t : World) (h : s.world slot = t) (hte : t.error = none) :
      (s.withWorld slot { s.world slot with error := none }).world slot = t := by
    subst h
    simp [Shared.world, Shared.withWorld, show s.errors slot = none from hte]
  refine ⟨w, hw, he, hstarts, hp.threads, hp.disabled, hp.told, ?_⟩
  exact hp.world.imp (fun h => hkept w h he) fun h => h.imp_left fun h => hkept w.begun h he

theorem awaitStart_spec : Interleaved.awaitStart.Spec (rules slot Starts Tells) (.repl 0)
    (Launched slot Starts) fun _ s => ∃ w, Started slot Starts w s := by
  have hstart (s : Shared) (hs : Launched slot Starts s) (hin : s.obj.InProcess) :
      ∃ w, Started slot Starts w s := by
    obtain ⟨w, hw, he, hstarts, hp⟩ := hs.1.waits (by simp [hs.2])
    have hworld : s.world slot = w.begun := by
      rcases hp.world with h | h | h
      · have hobj : s.obj = w.obj := congrArg World.obj h
        exact absurd (hobj ▸ hw) (hin.ne (by decide) (by decide))
      · exact h
      · exact absurd h.1 (hin.ne (by decide) (by decide))
    exact ⟨w.begun, hstarts, he, w.begun_inProcess, hp.threads, hp.disabled, hp.told, .inl hworld⟩
  refine Prog.Spec.bind (Q := fun _ => Launched slot Starts) ?_ fun o => ?_
  · refine Prog.Spec.atomic stable_launched (fun _ => stable_launched) fun s hs hi =>
      Triple.look fun _ => ⟨.refl _ _, hi, hs⟩
  · split
    · exact Prog.Spec.waitFor stable_launched stable_started fun s hs _ h =>
        hstart s hs (.inr (of_decide_eq_true h))
    · exact Prog.Spec.waitFor stable_launched stable_started fun s hs _ h =>
        hstart s hs (.inl (of_decide_eq_true h))

def At (slot : Nat) (w : World) (s : Shared) : Prop := Busy slot s ∧ s.world slot = w

/-- `PTHREAD_CANCEL_DISABLE`: a thread that gets so far finds the world as it was. -/
theorem disableCancel_spec (hin : w.obj.InProcess) : (Interleaved.disableCancel 0).Spec
    (rules slot Starts Tells) (.repl 0) (Fetches slot w) fun b s => b = true → At slot w s := by
  have hstable (b : Bool) : (rules slot Starts Tells).Stable (.repl 0)
      fun s => b = true → At slot w s := fun s s' hs hr hb => stable_busy w s s' (hs hb) hr
  refine Prog.Spec.atomic (stable_fetches hin) hstable fun s hs hi => Triple.get_bind ?_
  have hthreads : s.threads ≠ [] := by simp [hs.threads]
  split
  case isTrue =>
    exact Triple.pure fun _ => ⟨.refl _ _, hi, fun hb => by cases hb⟩
  case isFalse hno =>
    refine Triple.of_run (a := true) rfl fun _ => ?_
    have hworld : s.world slot = w := hs.world.resolve_right fun h => hno h.2
    have hobj : s.obj = w.obj := congrArg World.obj hworld
    have hdis : Function.update s.disabled 0 true 0 = true := Function.update_self ..
    refine ⟨idle_step rfl hthreads rfl rfl, ⟨hi.threads, hi.early, fun _ h => ?_, fun _ _ => .inr hdis⟩,
      fun _ => ⟨⟨hs.threads, hdis, hobj ▸ hin⟩, hworld⟩⟩
    rcases h with h | h
    · exact absurd (hdis.symm.trans h) (by decide)
    · exact hi.told hthreads (.inr h)

/-- `PTHREAD_CANCEL_ENABLE` after an event: what was done so far may be told. -/
theorem enableCancel_spec (hin : w.obj.InProcess) (ht : Tells w.told) :
    (Interleaved.enableCancel 0).Spec (rules slot Starts Tells) (.repl 0) (At slot w)
      fun _ => Fetches slot w := by
  refine Prog.Spec.atomic (stable_busy w) (fun _ => stable_fetches hin) fun s hs hi =>
    Triple.of_run (a := ()) rfl fun _ => ?_
  obtain ⟨hb, rfl⟩ := hs
  have hthreads : s.threads ≠ [] := by simp [hb.threads]
  have hdis : Function.update s.disabled 0 false 0 = false := Function.update_self ..
  refine ⟨idle_step rfl hthreads rfl rfl, ⟨hi.threads, hi.early, fun _ _ => ht, fun _ h => ?_⟩,
    ⟨hb.threads, hdis, rfl, .inl rfl⟩⟩
  exact absurd h hb.not_ended

theorem launched_enableCancel : (Interleaved.enableCancel 0).Spec (rules slot Starts Tells) (.repl 0)
    (Launched slot Starts) fun _ => Launched slot Starts := by
  refine Prog.Spec.atomic stable_launched (fun _ => stable_launched) fun s hs hi => ?_
  have hdis : Function.update s.disabled 0 false = s.disabled := by
    rw [← hs.1.disabled, Function.update_eq_self]
  have hsame : { s with disabled := Function.update s.disabled 0 false } = s := by rw [hdis]
  have hrun : (modify fun s => { s with disabled := Function.update s.disabled 0 false } :
      EStateM Crash Shared Unit).run s = .ok () s := congrArg (EStateM.Result.ok ()) hsame
  exact Triple.of_run hrun fun _ => ⟨.refl _ _, hi, hs⟩

-- ---------------------------------------------------------------------------
-- The end of the thread
-- ---------------------------------------------------------------------------

/-- On the way out, with nothing more to tell. -/
structure Closing (slot : Nat) (Tells : Told → Prop) (s : Shared) : Prop where
  threads : s.threads = [slot]
  disabled : s.disabled 0 = true
  told : Tells s.told
  state : s.obj.InProcess ∨ s.obj.state = .ended

theorem stable_closing : (rules slot Starts Tells).Stable (.repl 0) (Closing slot Tells) := by
  refine stable_of_moves fun j s s' hj hp hm => ?_
  have hg := hm.2.2.1
  have hchange := hg.world hj (by simp [hp.threads])
  refine ⟨hg.threads_eq hp.threads, (hg.disabled hj).trans hp.disabled, hchange.told ▸ hp.told, ?_⟩
  cases hchange with
  | same h => exact obj_of_world h ▸ hp.state
  | begun hstate =>
    rcases hp.state with h | h
    · exact absurd hstate (h.ne (by decide) (by decide))
    · exact absurd (h.symm.trans hstate) (by decide)
  | ended _ h => exact .inr (state_of_world h)
  | after _ h => exact .inr h

theorem closing_atomic {y : EStateM Crash Shared α}
    (hy : ∀ s, Closing slot Tells s → Triple y s (fun _ s' => s'.threads = s.threads ∧
      s'.disabled = s.disabled ∧ s'.cancelled = s.cancelled ∧ s'.told = s.told ∧
      (s'.obj.state = s.obj.state ∨ s'.obj.state = .ended)) fun _ _ => False) :
    (atomic y).Spec (rules slot Starts Tells) (.repl 0) (Closing slot Tells)
      fun _ => Closing slot Tells := by
  refine Prog.Spec.atomic stable_closing (fun _ => stable_closing) fun s hs hi =>
    (hy s hs).mono ?_ fun _ _ h => h.elim
  rintro a s' ⟨ht, hd, hc, htold, hstate⟩ -
  have hthreads : s.threads ≠ [] := by simp [hs.threads]
  have hnot : s.obj.state ≠ .postPrepared := by
    rcases hs.state with h | h
    · exact h.ne (by decide) (by decide)
    · rw [h]; decide
  have hclosing : Closing slot Tells s' := by
    refine ⟨ht.trans hs.threads, hd ▸ hs.disabled, htold ▸ hs.told, ?_⟩
    rcases hstate with h | h
    · rw [Listener.InProcess, h]; exact hs.state
    · exact .inr h
  refine ⟨?_, ⟨.inr hclosing.threads, fun h => absurd (ht ▸ h) hthreads, fun _ _ => hclosing.told,
    fun _ _ => .inr hclosing.disabled⟩, hclosing⟩
  exact {
    threads := fun _ => ht
    setup := fun _ h => absurd h hthreads
    launched := fun h => absurd h hthreads
    held := fun _ h => absurd h hnot
    final := fun _ h => hstate.elim (fun h' => h'.trans h) id
    world := fun h => absurd rfl h
    disabled := fun h => absurd rfl h
    cancelled := fun h => hc ▸ h
    idle := by rintro k hk ⟨⟩; exact absurd rfl hk }

theorem closing_closeConn : (onClient slot closeConn).Spec (rules slot Starts Tells) (.repl 0)
    (Closing slot Tells) fun _ => Closing slot Tells :=
  closing_atomic fun _ _ => Triple.of_run (a := ()) rfl ⟨rfl, rfl, rfl, rfl, .inl rfl⟩

theorem closing_swap (old : ReplState) : (onObj slot (swapState old .ended)).Spec
    (rules slot Starts Tells) (.repl 0) (Closing slot Tells) fun _ => Closing slot Tells := by
  refine closing_atomic fun s _ => Triple.of_run (run_swap s slot old .ended) ?_
  split
  · exact ⟨rfl, rfl, rfl, rfl, .inr rfl⟩
  · exact ⟨rfl, rfl, rfl, rfl, .inl rfl⟩

theorem endReplication_spec : (Interleaved.endReplication slot).Spec (rules slot Starts Tells)
    (.repl 0) (Closing slot Tells) fun _ => Closing slot Tells :=
  Prog.Spec.bind closing_closeConn fun _ => Prog.Spec.bind (closing_swap _) fun _ => closing_swap _

theorem abortThread_spec : (Interleaved.abortThread slot).Spec (rules slot Starts Tells) (.repl 0)
    (Closing slot Tells) fun _ => Closing slot Tells := by
  refine Prog.Spec.bind closing_closeConn fun _ => Prog.Spec.bind (Q := fun _ => Closing slot Tells)
    (closing_atomic fun s _ => Triple.look ⟨rfl, rfl, rfl, rfl, .inl rfl⟩) fun o => ?_
  split
  · exact closing_swap _
  · exact closing_swap _

theorem At.closing (h : At slot w s) (ht : Tells w.told) : Closing slot Tells s := by
  have htold : s.told = w.told := congrArg World.told h.2
  exact ⟨h.1.threads, h.1.disabled, htold ▸ ht, .inl h.1.inProcess⟩

-- ---------------------------------------------------------------------------
-- The whole thread
-- ---------------------------------------------------------------------------

theorem bind_at {c : Code α} {x : ListenM α} {f : α → Code β} {Q : β → Shared → Prop}
    (h : Does slot Starts Tells 0 c x)
    (hf : ∀ a w', x.run w = .ok a w' →
      (f a).Spec (rules slot Starts Tells) (.repl 0) (At slot w') Q) :
    (c >>= f).Spec (rules slot Starts Tells) (.repl 0) (At slot w) Q := by
  refine Prog.Tracks.bind_spec h fun k' a b w' hr hrun => ?_
  obtain ⟨-, rfl⟩ := hr
  exact hf a w' hrun

variable {binlogOpen : Option String} {packets done : List Packet} {w₀ w₁ w' : World}
variable {ω : Nat → Bool}

theorem endReplication_told (w : World) :
    ∃ w', endReplication.run w = .ok () w' ∧ w'.told = w.told := by
  refine ⟨_, rfl, ?_⟩
  dsimp only [World.told]
  split <;> split <;> rfl

theorem clearError_run (he : w.error = none) : clearError.run w = .ok () w := by
  refine congrArg (EStateM.Result.ok ()) ?_
  rw [← he]

theorem replicationLoop_turn {p : Packet} {n : Nat} {t : Turn}
    (h : (replicationLoop lib os ω 0 done).run w₁ = .ok (.next n) w)
    (ht : (turn lib os ω n p).run w = .ok t w') :
    (replicationLoop lib os ω 0 (done ++ [p])).run w₁ = .ok t w' := by
  have happend := (replicationLoop_append [p] h).1
  rw [happend]
  unfold replicationLoop
  rw [run_bind_ok ht]
  cases t <;> rfl

/-- What is told is what the thread alone tells of a part of the packets. -/
def Tellable (lib : Library) (os : Allocator) (binlogOpen : Option String) (packets : List Packet)
    (Starts : World → Prop) (Tells : Told → Prop) : Prop :=
  ∀ w w' done ω, Starts w → done <+: packets →
    (processReplicationThreadFnc lib os ω binlogOpen done).run w = .ok () w' → Tells w'.told

section

variable (hT : Tellable lib os binlogOpen packets Starts Tells) (hstarts : Starts w₀)

include hT hstarts

theorem tells_aborted (h : (threadStart os binlogOpen).run w₀ = .ok false w') : Tells w'.told := by
  refine hT w₀ w' [] (fun _ => false) hstarts List.nil_prefix ?_
  unfold processReplicationThreadFnc
  rw [run_bind_ok h]
  rfl

section

variable (h₁ : (threadStart os binlogOpen).run w₀ = .ok true w₁) (hdone : done <+: packets)

include h₁ hdone

theorem tells_next {n : Nat}
    (h : (replicationLoop lib os ω 0 done).run w₁ = .ok (.next n) w) : Tells w.told := by
  refine hT w₀ w done ω hstarts hdone ?_
  unfold processReplicationThreadFnc
  rw [run_bind_ok h₁, if_pos rfl, run_bind_ok h]
  rfl

theorem tells_done (h : (replicationLoop lib os ω 0 done).run w₁ = .ok .done w) : Tells w.told := by
  obtain ⟨w', hend, htold⟩ := endReplication_told w
  refine htold ▸ hT w₀ w' done ω hstarts hdone ?_
  unfold processReplicationThreadFnc
  rw [run_bind_ok h₁, if_pos rfl, run_bind_ok h]
  exact hend

end

/-- The loop, after it has handled `done`. -/
theorem replicationLoop_spec (h₁ : (threadStart os binlogOpen).run w₀ = .ok true w₁)
    {rest : List Packet} (hdone : done ++ rest = packets) (hin : w.obj.InProcess)
    (hm : Matched (fun ω => replicationLoop lib os ω 0 done) (fun k' () t => t = .next k') 0 w₁ () w) :
    (Interleaved.replicationLoop lib os slot 0 rest).Spec (rules slot Starts Tells) (.repl 0)
      (At slot w) fun _ _ => True := by
  induction rest generalizing done w with
  | nil =>
    obtain ⟨bs, t, hrun, rfl⟩ := hm
    obtain ⟨ω, hω⟩ := exists_sees 0 bs
    have htells : Tells w.told := tells_next hT hstarts h₁ ⟨[], hdone⟩ (hrun ω hω)
    refine Prog.Spec.bind (enableCancel_spec hin htells) fun _ => ?_
    exact Prog.Spec.waitFor (stable_fetches hin) stable_true fun _ _ _ h => by cases h
  | cons p ps ih =>
    obtain ⟨bs, t, hrun, rfl⟩ := hm
    obtain ⟨ω, hω⟩ := exists_sees 0 bs
    have htells : Tells w.told := tells_next hT hstarts h₁ ⟨p :: ps, hdone⟩ (hrun ω hω)
    have hdone' : done ++ [p] ++ ps = packets := by rw [← hdone, List.append_assoc]; rfl
    refine Prog.Spec.bind (enableCancel_spec hin htells) fun _ => ?_
    refine Prog.Spec.bind (disableCancel_spec hin) fun alive => ?_
    cases alive with
    | false => exact (Prog.Spec.pure (Q := fun _ _ => True) stable_true).strengthen fun _ _ => trivial
    | true =>
      refine Prog.Spec.strengthen (P := At slot w) ?_ fun s hs => hs rfl
      refine Prog.Spec.bind (tracks_turn (0 + bs.length) p w) fun d s hs => ?_
      obtain ⟨hb, cs, t, hturn, rfl⟩ := hs
      have hloop (ω : Nat → Bool) (hω : Sees ω 0 (bs ++ cs)) :=
        replicationLoop_turn (hrun ω (sees_append.mp hω).1) (hturn ω (sees_append.mp hω).2)
      cases d with
      | true =>
        obtain ⟨ω, hω⟩ := exists_sees 0 (bs ++ cs)
        have htells : Tells (s.world slot).told := tells_done hT hstarts h₁ ⟨ps, hdone'⟩ (hloop ω hω)
        exact (endReplication_spec.weaken fun _ _ _ => trivial) s (At.closing ⟨hb, rfl⟩ htells)
      | false =>
        refine ih hdone' hb.inProcess ⟨bs ++ cs, _, hloop, ?_⟩ s ⟨hb, rfl⟩
        rw [List.length_append, ← Nat.add_assoc]
        rfl

theorem threadStart_spec (he : w₀.error = none) : (Interleaved.threadStart os slot binlogOpen).Spec
    (rules slot Starts Tells) (.repl 0) (At slot w₀) fun b s => b = true →
      ∃ w₁, (threadStart os binlogOpen).run w₀ = .ok true w₁ ∧ At slot w₁ s := by
  have hno (Q : Shared → Prop) : (pure false : Code Bool).Spec (rules slot Starts Tells) (.repl 0)
      (fun _ => True) fun b s => b = true → Q s :=
    fun s _ s' _ hb => by cases hb
  have habort {w : World} (ht : Tells w.told) (Q : Shared → Prop) : (do
      Interleaved.abortThread slot
      pure false : Code Bool).Spec (rules slot Starts Tells) (.repl 0) (At slot w)
        fun b s => b = true → Q s :=
    Prog.Spec.bind (abortThread_spec.strengthen fun s hs => hs.closing ht) fun _ =>
      (hno Q).strengthen fun _ _ => trivial
  refine bind_at (tracks_obj (StaysOn.heap _)) fun ok w hrun => ?_
  cases ok with
  | false =>
    refine bind_at (does_modifyObj fun _ => rfl) fun _ w₂ hrun₂ => ?_
    refine bind_at (does_setError _) fun _ w₃ hrun₃ => ?_
    obtain ⟨w', hend, htold⟩ := endReplication_told w₃
    refine habort (htold ▸ tells_aborted hT hstarts ?_) _
    unfold threadStart
    rw [run_bind_ok (clearError_run he), run_bind_ok hrun, if_neg Bool.false_ne_true,
      run_bind_ok hrun₂, run_bind_ok hrun₃, run_bind_ok hend]
    rfl
  | true =>
    refine bind_at (does_modifyObj fun _ => rfl) fun _ _ hrun₂ => ?_
    cases hrun₂
    refine bind_at (does_modifyObj fun _ => rfl) fun _ _ hrun₃ => ?_
    cases hrun₃
    cases binlogOpen with
    | none =>
      refine (Prog.Spec.pure (Q := fun _ => At slot _) (stable_busy _)).weaken fun b s hat _ =>
        ⟨_, ?_, hat⟩
      unfold threadStart
      rw [run_bind_ok (clearError_run he), run_bind_ok hrun]
      rfl
    | some desc =>
      refine bind_at (tracks_obj (StaysOn.modify fun _ => rfl)) fun _ w₃ hrun₃ => ?_
      obtain ⟨w', hend, htold⟩ := endReplication_told w₃
      refine habort (htold ▸ tells_aborted hT hstarts ?_) _
      unfold threadStart
      have hmodify : (modifyObj fun o => { o with
          globDescriptionEvent := some ⟨false⟩, globTableMapEvents := [] }).run w = .ok () _ := rfl
      rw [run_bind_ok (clearError_run he), run_bind_ok hrun, if_pos rfl, run_bind_ok hmodify]
      dsimp only
      rw [run_bind_ok hrun₃, run_bind_ok hend]
      rfl

omit hstarts in
theorem thread_spec : (Interleaved.processReplicationThreadFnc lib os 0 binlogOpen packets).Spec
    (rules slot Starts Tells) (.repl 0) (Unstarted slot Starts) fun _ _ => True := by
  have hnothing : (pure () : Code Unit).Spec (rules slot Starts Tells) (.repl 0) (fun _ => True)
      fun _ _ => True := Prog.Spec.pure (Q := fun _ _ => True) stable_true
  refine Prog.Spec.bind (Q := fun _ => Launched slot Starts)
    (Prog.Spec.waitFor stable_unstarted stable_launched fun s hs hi h => ⟨hs, ?_⟩) fun _ => ?_
  · refine hi.threads.resolve_left fun hnil => ?_
    simp [hnil] at h
  have hslot (a : Nat) : (rules slot Starts Tells).Stable (.repl 0)
      fun s => a = slot ∧ Launched slot Starts s :=
    fun s s' hs hr => ⟨hs.1, stable_launched s s' hs.2 hr⟩
  refine Prog.Spec.bind (Q := fun a s => a = slot ∧ Launched slot Starts s)
    (Prog.Spec.atomic stable_launched hslot fun s hs hi => Triple.look fun _ =>
      ⟨.refl _ _, hi, by simp [hs.2], hs⟩) fun a s hs => ?_
  obtain ⟨rfl, hs⟩ := hs
  refine Prog.Spec.bind launched_enableCancel (fun _ => ?_) s hs
  refine Prog.Spec.bind launched_clearError fun _ => ?_
  refine Prog.Spec.bind awaitStart_spec fun _ s hs => ?_
  obtain ⟨w, hstarts, he, hin, hf⟩ := hs
  refine Prog.Spec.bind (disableCancel_spec hin) (fun alive => ?_) s hf
  cases alive with
  | false => exact hnothing.strengthen fun _ _ => trivial
  | true =>
    refine Prog.Spec.strengthen (P := At _ w) ?_ fun s hs => hs rfl
    refine Prog.Spec.bind (threadStart_spec hT hstarts he) fun started => ?_
    cases started with
    | false => exact hnothing.strengthen fun _ _ => trivial
    | true =>
      intro s hs
      obtain ⟨w₁, h₁, hat⟩ := hs rfl
      have hin₁ : w₁.obj.InProcess := hat.2 ▸ hat.1.inProcess
      exact replicationLoop_spec hT hstarts h₁ (List.nil_append _) hin₁
        ⟨[], .next 0, fun _ _ => rfl, rfl⟩ s hat

end

/-- There is no other thread. -/
theorem otherThread_spec {k : Nat} (hk : k ≠ 0) :
    (Interleaved.processReplicationThreadFnc lib os k binlogOpen packets).Spec
      (rules slot Starts Tells) (.repl k) (fun _ => True) fun _ _ => True := by
  refine Prog.Spec.bind (Q := fun _ _ => False)
    (Prog.Spec.waitFor stable_true (fun _ _ h _ => h) fun s _ hi h => ?_) fun _ s hs => hs.elim
  have hlen : s.threads.length ≤ 1 := by
    rcases hi.threads with ht | ht <;> simp [ht]
  have hlt : k < s.threads.length := of_decide_eq_true h
  omega

end Session

end RplListener
