import RplListener.Listener.Session

/-!
# Setting up a session

Before there is a thread nobody else changes what client 0 works on: its calls do
what they do alone.
-/

namespace RplListener

open Bytes Refine Interleave

namespace Session

variable {slot : Nat} {Starts : World → Prop} {Tells : Told → Prop} {s s' : Shared}
variable {α β : Type} {os : Allocator}

-- ---------------------------------------------------------------------------
-- Steps
-- ---------------------------------------------------------------------------

def NoThread (s : Shared) : Prop := s.threads = []

theorem stable_setup (c : Client) :
    (rules slot Starts Tells).Stable (.client 0) fun s => NoThread s ∧ s.client slot = c := by
  refine stable_of_moves fun j s s' hj hp hm => ?_
  obtain ⟨ht, hc⟩ := hm.2.2.1.setup hj hp.1
  exact ⟨ht, hc.trans hp.2⟩

theorem setup_step (ht : NoThread s) (ht' : s'.threads = s.threads) (hd : s'.disabled = s.disabled)
    (hc : s'.cancelled = s.cancelled) (ho : ¬ s'.obj.InProcess) :
    Shares slot Starts (.client 0) s s' ∧ Between slot Tells s' ∧ NoThread s' := by
  have hnone : s'.threads = [] := ht'.trans ht
  refine ⟨?_, ⟨.inl hnone, fun _ => ho, fun h => absurd hnone h, fun h => absurd hnone h⟩, hnone⟩
  exact {
    threads := fun h => absurd ht h
    setup := fun h => absurd rfl h
    launched := fun _ h => absurd hnone h
    held := fun h => absurd rfl h
    final := fun h => absurd rfl h
    world := fun _ h => absurd ht h
    disabled := fun _ => congrFun hd 0
    cancelled := fun h => hc ▸ h
    idle := by rintro _ _ ⟨⟩ }

/-- The client does what `y` does alone. -/
abbrev SetsUp (slot : Nat) (Starts : World → Prop) (Tells : Told → Prop) (c : Code α)
    (y : ClientM α) : Prop :=
  c.Tracks (rules slot Starts Tells) (.client 0) NoThread (Shared.client slot) 0
    (fun _ : Nat → Bool => y) fun k' a b => k' = 0 ∧ a = b

/-- A piece that does not switch replication on. -/
abbrev StaysOff (y : ClientM α) : Prop := Stable (fun c => ¬ c.world.obj.InProcess) y

theorem sets_client {y : ClientM α} (hy : StaysOff y) :
    SetsUp slot Starts Tells (onClient slot y) y := by
  refine Prog.Tracks.atomic (p := Shared.clientPart slot) stable_setup fun s hn hi => ?_
  have hstep (c : Client) (hc : ¬ c.world.obj.InProcess) :
      Shares slot Starts (.client 0) s ((Shared.clientPart slot).set c s) ∧
        Between slot Tells ((Shared.clientPart slot).set c s) ∧
        NoThread ((Shared.clientPart slot).set c s) := setup_step hn rfl rfl rfl hc
  exact (hy (s.client slot) (hi.early hn)).mono (fun _ c hc _ => hstep c hc)
    fun _ c hc _ => (hstep c hc).imp_right And.left

theorem onObj_eq (slot : Nat) (y : ListenM α) : onObj slot y = onClient slot (onWorld y) := by
  unfold onObj onClient onWorld
  refine congrArg atomic (funext fun s => ?_)
  change (zoom _ y).run s = (zoom _ (zoom _ y)).run s
  rw [run_zoom, run_zoom, run_zoom]
  have hget : Client.worldPart.get ((Shared.clientPart slot).get s) = (Shared.worldPart slot).get s :=
    rfl
  rw [hget]
  cases y.run ((Shared.worldPart slot).get s) with
  | ok a w => rfl
  | error e w => rfl

theorem StaysOff.onWorld {y : ListenM α} (hy : Stable (fun w => ¬ w.obj.InProcess) y) :
    StaysOff (onWorld y) := by
  intro c hc
  refine (Triple.zoom (p := Client.worldPart) (hy c.world hc)).mono ?_ ?_
  · rintro a _ ⟨w, hw, rfl⟩
    exact hw
  · rintro e _ ⟨w, hw, rfl⟩
    exact hw

theorem sets_obj {y : ListenM α} (hy : Stable (fun w => ¬ w.obj.InProcess) y) :
    SetsUp slot Starts Tells (onObj slot y) (onWorld y) := by
  rw [onObj_eq]
  exact sets_client (StaysOff.onWorld hy)

theorem sets_bind {c : Code α} {y : ClientM α} {f : α → Code β} {g : α → ClientM β}
    (hc : SetsUp slot Starts Tells c y) (hf : ∀ a, SetsUp slot Starts Tells (f a) (g a)) :
    SetsUp slot Starts Tells (c >>= f) (y >>= g) := by
  refine Prog.Tracks.bind hc ?_
  rintro _ a _ ⟨rfl, rfl⟩
  exact hf a

theorem sets_pure (a : α) : SetsUp slot Starts Tells (pure a) (pure a) := .pure stable_setup ⟨rfl, rfl⟩

theorem sets_read {f : Listener → Code α} {g : Client → ClientM α}
    (h : ∀ c, SetsUp slot Starts Tells (f c.world.obj) (g c)) :
    SetsUp slot Starts Tells (readObj >>= f) (get >>= g) := by
  refine Prog.Tracks.bind (x := fun _ => get) (R := fun k' o c => k' = 0 ∧ o = c.world.obj)
    (g := fun c _ => g c) (Prog.Tracks.step stable_setup fun s hn hi =>
      Triple.look fun _ =>
        ⟨.refl _ _, hi, hn, [], s.client slot, fun _ _ => rfl, rfl, rfl⟩) ?_
  rintro _ _ c ⟨rfl, rfl⟩
  exact h c

theorem sets_ite {p : Prop} [Decidable p] {c c' : Code α} {y y' : ClientM α}
    (ht : p → SetsUp slot Starts Tells c y) (hf : ¬ p → SetsUp slot Starts Tells c' y') :
    SetsUp slot Starts Tells (if p then c else c') (if p then y else y') := by
  by_cases h : p
  · simpa only [if_pos h] using ht h
  · simpa only [if_neg h] using hf h

-- ---------------------------------------------------------------------------
-- Pieces
-- ---------------------------------------------------------------------------

theorem off_keeps {y : ListenM α} (h : Keeps (fun w => w.obj.state) y) :
    Stable (fun w => ¬ w.obj.InProcess) y :=
  Stable.of_keeps (P := fun st : ReplState => ¬ (st = .inprocess1 ∨ st = .inprocess)) h

theorem off_modify {f : World → World} (h : ∀ w, (f w).obj.state = w.obj.state) :
    Stable (fun w => ¬ w.obj.InProcess) (modify f : ListenM Unit) := off_keeps (.modify h)

theorem off_heap (x : EStateM Crash Heap α) :
    Stable (fun w => ¬ w.obj.InProcess) (zoom World.heapPart x) := off_keeps (.zoom fun _ _ => rfl)

theorem off_swap {old new : ReplState} (h₁ : new ≠ .inprocess1) (h₂ : new ≠ .inprocess) :
    Stable (fun w => ¬ w.obj.InProcess) (swapState old new) := by
  refine fun w hw => Triple.of_run (a := ()) rfl ?_
  dsimp only
  split
  · exact fun h => h.elim h₁ h₂
  · exact hw

theorem off_client {f : Client → Client} (h : ∀ c, (f c).world = c.world) :
    StaysOff (modify f : ClientM Unit) := by
  refine fun c hc => Triple.of_run (a := ()) rfl ?_
  dsimp only
  rw [h]
  exact hc

theorem sets_fail {fail : ListenM Unit} (h : Stable (fun w => ¬ w.obj.InProcess) fail) :
    SetsUp slot Starts Tells (Interleaved.abandon slot fail) (onWorld (abandon fail)) := by
  unfold Interleaved.abandon abandon onWorld
  rw [zoom_bind]
  exact sets_bind (sets_obj h) fun _ => sets_obj (off_swap (by decide) (by decide))

theorem sets_closeConn : SetsUp slot Starts Tells (onClient slot closeConn) closeConn :=
  sets_client (Stable.bind (off_client fun _ => rfl) fun _ => off_client fun _ => rfl)

theorem sets_giveUp {fail : ListenM Unit} (h : Stable (fun w => ¬ w.obj.InProcess) fail) :
    SetsUp slot Starts Tells (Interleaved.giveUp slot fail) (giveUp fail) := by
  refine sets_bind (sets_obj h) fun _ => sets_bind sets_closeConn fun _ => ?_
  exact sets_obj (off_swap (by decide) (by decide))

variable {rest : Code Unit} {rest' : ClientM Unit}

theorem sets_unlessError (error : Option String) (h : SetsUp slot Starts Tells rest rest') :
    SetsUp slot Starts Tells (Interleaved.unlessError slot error rest) (unlessError error rest') := by
  cases error with
  | none => exact h
  | some desc => exact sets_giveUp (off_modify fun _ => rfl)

theorem sets_demand (ok : Bool) (desc : String) (h : SetsUp slot Starts Tells rest rest') :
    SetsUp slot Starts Tells (Interleaved.demand slot ok desc rest) (demand ok desc rest') := by
  cases ok with
  | false => exact sets_giveUp (off_modify fun _ => rfl)
  | true => exact h

theorem sets_withRows {ρ : Type} (answer : Answer ρ) {rest : List ρ → Code Unit}
    {rest' : List ρ → ClientM Unit} (h : ∀ rows, SetsUp slot Starts Tells (rest rows) (rest' rows)) :
    SetsUp slot Starts Tells (Interleaved.withRows slot answer rest) (withRows answer rest') := by
  cases answer with
  | queryError desc => exact sets_giveUp (off_modify fun _ => rfl)
  | storeError desc => exact sets_giveUp (off_modify fun _ => rfl)
  | rows rows => exact h rows

-- ---------------------------------------------------------------------------
-- prepare_replication
-- ---------------------------------------------------------------------------

variable (me : Tid) (calls : ServerCalls)

theorem sets_marked {y : EStateM Crash Shared α} {x : ClientM α}
    (h : ∀ s, ∃ a o m, y.run s = .ok a { s with obj := o, history := s.history ++ m } ∧
      x.run (s.client slot) = .ok a { s.client slot with world := { s.world slot with obj := o } } ∧
      (¬ s.obj.InProcess → ¬ o.InProcess)) :
    SetsUp slot Starts Tells (atomic y) x := by
  refine Prog.Tracks.step stable_setup fun s hn hi => ?_
  obtain ⟨a, o, m, hrun, hx, ho⟩ := h s
  refine Triple.of_run hrun fun _ => ?_
  obtain ⟨hg, hi', hn'⟩ : Shares slot Starts (.client 0) s
      { s with obj := o, history := s.history ++ m } ∧ Between slot Tells _ ∧ NoThread _ :=
    setup_step hn rfl rfl rfl (ho (hi.early hn))
  exact ⟨hg, hi', hn', [], a, fun _ _ => hx, rfl, rfl⟩

theorem sets_finishPrepare : SetsUp slot Starts Tells (Interleaved.finishPrepare slot me)
    (onWorld (swapState .postCreated .prepared)) := by
  refine sets_marked fun s => ⟨(), if s.obj.state = .postCreated then
    { s.obj with state := .prepared } else s.obj, [(me, .prepareDone)], ?_, rfl, fun h => ?_⟩
  · rw [run_bind_ok (run_swap s slot .postCreated .prepared)]
    split <;> rfl
  · split
    · simp [Listener.InProcess]
    · exact h

theorem sets_preparePosition : SetsUp slot Starts Tells (Interleaved.preparePosition slot me calls)
    (Client.preparePosition calls) := by
  refine sets_read fun c => sets_ite (fun _ => ?_) fun _ => ?_
  · refine sets_bind (sets_obj (off_modify fun _ => rfl)) fun _ => ?_
    cases calls.masterStatus with
    | queryError desc => exact sets_giveUp (off_modify fun _ => rfl)
    | storeError desc => exact sets_fail (off_modify fun _ => rfl)
    | rows rows =>
      match rows with
      | [] => exact sets_giveUp (off_modify fun _ => rfl)
      | (some name, some pos) :: _ =>
        exact sets_bind (sets_obj (off_modify fun _ => rfl)) fun _ => sets_finishPrepare me
      | (none, _) :: _ => exact sets_giveUp (off_modify fun _ => rfl)
      | (some _, none) :: _ => exact sets_giveUp (off_modify fun _ => rfl)
  · exact sets_bind (sets_obj (off_modify fun _ => rfl)) fun _ => sets_finishPrepare me

theorem off_readVariables (rows : List (Field × Field)) (v : VariablesOk) :
    StaysOff (readVariables rows v) :=
  Stable.of_keeps (P := fun x : (ReplState × Nat × Bool × Bool) × Bool =>
    ¬ (x.1.1 = .inprocess1 ∨ x.1.1 = .inprocess)) (keeps_readVariables rows v)

theorem sets_prepareVariables : SetsUp slot Starts Tells (Interleaved.prepareVariables slot me calls)
    (Client.prepareVariables calls) := by
  refine sets_withRows _ fun rows => sets_bind (sets_client (off_readVariables _ _)) fun v => ?_
  refine sets_demand _ _ (sets_demand _ _ (sets_demand _ _ (sets_demand _ _ ?_)))
  exact sets_unlessError _ (sets_unlessError _ (sets_preparePosition me calls))

theorem sets_prepareVersion : SetsUp slot Starts Tells (Interleaved.prepareVersion slot me calls)
    (Client.prepareVersion calls) := by
  refine sets_withRows _ fun rows => ?_
  match rows with
  | [] => exact sets_giveUp (off_modify fun _ => rfl)
  | none :: _ => exact sets_giveUp (off_modify fun _ => rfl)
  | some version :: _ =>
    change SetsUp slot Starts Tells _ (do
      modify fun c => { c with serverVersion := (cstr version).take 59 }
      demand ((cstr version).take 59 ≠ []) _ (Client.prepareVariables calls))
    exact sets_bind (sets_client (off_client fun _ => rfl)) fun _ =>
      sets_demand _ _ (sets_prepareVariables me calls)

theorem sets_prepareConnection : SetsUp slot Starts Tells
    (Interleaved.prepareConnection slot me calls) (Client.prepareConnection calls) := by
  refine sets_bind (sets_client (off_client fun _ => rfl)) fun _ => sets_ite (fun _ => ?_) fun _ => ?_
  · refine sets_bind (sets_client (off_client fun _ => rfl)) fun _ => ?_
    refine sets_unlessError _ (sets_bind (sets_client (off_client fun _ => rfl)) fun _ => ?_)
    exact sets_prepareVersion me calls
  · exact sets_fail (off_modify fun _ => rfl)

def passFirst (old new : ReplState) : ClientM Bool := do
  if (← get).world.obj.state ≠ old then pure false
  else
    onWorld (swapState old new)
    pure true

theorem passFirst_passed {c : Client} {old : ReplState} (new : ReplState)
    (h : c.world.obj.state = old) :
    (passFirst old new).run c = .ok true { c with world := c.world.withState new } := by
  refine (run_get_bind _ c).trans ?_
  rw [if_neg (not_not.mpr h)]
  refine congrArg (EStateM.Result.ok true) ?_
  simp [Client.worldPart, World.withState, h]

theorem passFirst_stopped {c : Client} {old : ReplState} (new : ReplState)
    (h : c.world.obj.state ≠ old) : (passFirst old new).run c = .ok false c := by
  refine (run_get_bind _ c).trans ?_
  rw [if_pos h]
  rfl

theorem passFirst_inv {c c' : Client} {old new : ReplState}
    (h : (passFirst old new).run c = .ok true c') :
    c.world.obj.state = old ∧ c' = { c with world := c.world.withState new } := by
  by_cases hs : c.world.obj.state = old
  · rw [passFirst_passed new hs] at h
    cases h
    exact ⟨hs, rfl⟩
  · rw [passFirst_stopped new hs] at h
    cases h

theorem passFirst_bind (old new : ReplState) (yes no : ClientM Unit) : (do
      if (← get).world.obj.state ≠ old then no
      else
        onWorld (swapState old new)
        yes) = passFirst old new >>= fun b => if b then yes else no := by
  funext c
  change EStateM.run _ c = EStateM.run _ c
  by_cases h : c.world.obj.state = old
  · rw [run_bind_ok (passFirst_passed new h), run_get_bind, if_neg (not_not.mpr h), if_pos rfl]
    have hswap : (onWorld (swapState old new)).run c =
        .ok () { c with world := c.world.withState new } := by
      refine congrArg (EStateM.Result.ok ()) ?_
      simp [Client.worldPart, World.withState, h]
    exact run_bind_ok hswap _
  · rw [run_bind_ok (passFirst_stopped new h), run_get_bind, if_pos h, if_neg Bool.false_ne_true]

theorem sets_first {old new : ReplState} (m : Milestone) (h₁ : new ≠ .inprocess1)
    (h₂ : new ≠ .inprocess) :
    SetsUp slot Starts Tells (atomic (swapFirst me old new m)) (passFirst old new) := by
  refine sets_marked fun s => ?_
  by_cases h : s.obj.state = old
  · refine ⟨true, { s.obj with state := new }, [(me, m)], ?_, passFirst_passed (c := s.client slot) new h,
      fun _ h => h.elim h₁ h₂⟩
    exact (run_get_bind _ s).trans (by rw [if_pos h]; rfl)
  · refine ⟨false, s.obj, [], ?_, passFirst_stopped (c := s.client slot) new h, id⟩
    exact (run_get_bind _ s).trans (by rw [if_neg h, List.append_nil]; rfl)

theorem sets_swapFirst {old new : ReplState} (m : Milestone) (h₁ : new ≠ .inprocess1)
    (h₂ : new ≠ .inprocess) {f : Bool → Code Unit} {yes no : ClientM Unit}
    (ht : SetsUp slot Starts Tells (f true) yes) (hf : SetsUp slot Starts Tells (f false) no) :
    SetsUp slot Starts Tells (atomic (swapFirst me old new m) >>= f) (do
      if (← get).world.obj.state ≠ old then no
      else
        onWorld (swapState old new)
        yes) := by
  rw [passFirst_bind]
  refine sets_bind (sets_first me m h₁ h₂) fun b => ?_
  cases b with
  | false => exact hf
  | true => exact ht

theorem sets_prepareReplication : SetsUp slot Starts Tells
    (Interleaved.prepareReplication slot me calls) (Client.prepareReplication calls) := by
  refine sets_bind (sets_obj (off_modify fun _ => rfl)) fun _ => ?_
  refine sets_swapFirst me .preparePassed (by decide) (by decide) ?_ (sets_obj (off_modify fun _ => rfl))
  refine sets_read fun c => sets_ite (fun _ => sets_fail (off_modify fun _ => rfl)) fun _ => ?_
  exact sets_prepareConnection me calls

-- ---------------------------------------------------------------------------
-- table_add
-- ---------------------------------------------------------------------------

/-- An allocation is the same step, whatever the error structure is. -/
theorem onObj_heap (slot slot' : Nat) (x : EStateM Crash Heap α) :
    onObj slot (zoom World.heapPart x) = onObj slot' (zoom World.heapPart x) := by
  unfold onObj
  refine congrArg atomic (funext fun s => ?_)
  change (zoom (Shared.worldPart slot) (zoom World.heapPart x)).run s =
    (zoom (Shared.worldPart slot') (zoom World.heapPart x)).run s
  rw [run_zoom, run_zoom, run_zoom, run_zoom]
  have hget (n : Nat) : World.heapPart.get ((Shared.worldPart n).get s) = s.heap := rfl
  rw [hget, hget]
  cases x.run s.heap with
  | ok a h => simp [Shared.worldPart, Shared.withWorld, Shared.world, World.heapPart]
  | error e h => simp [Shared.worldPart, Shared.withWorld, Shared.world, World.heapPart]

theorem onObj_modifyObj (slot slot' : Nat) (f : Listener → Listener) :
    onObj slot (modifyObj f) = onObj slot' (modifyObj f) := by
  unfold onObj
  refine congrArg atomic (funext fun s => congrArg (EStateM.Result.ok ()) ?_)
  simp [Shared.worldPart, Shared.withWorld, Shared.world]

theorem onWorld_get_bind (f : World → ListenM α) :
    onWorld (get >>= f) = get >>= fun c => onWorld (f c.world) := rfl

theorem onWorld_ite (p : Prop) [Decidable p] (x y : ListenM α) :
    onWorld (if p then x else y) = if p then onWorld x else onWorld y := apply_ite onWorld ..

theorem sets_tableAdd (dbName tblName : List UInt8) : SetsUp slot Starts Tells
    (Interleaved.tableAdd os 0 dbName tblName) (onWorld (tableAdd os dbName tblName)) := by
  unfold Interleaved.tableAdd tableAdd
  rw [onWorld_get_bind]
  refine sets_read fun c => ?_
  rw [onWorld_ite]
  refine sets_ite (fun _ => sets_pure 500) fun _ => ?_
  unfold onWorld
  rw [zoom_bind, onObj_heap 0 slot]
  refine sets_bind (sets_obj (off_heap _)) fun ok => ?_
  cases ok with
  | false => exact sets_pure 700
  | true =>
    change SetsUp slot Starts Tells (do
        onObj 0 (Interleaved.addTable dbName tblName)
        pure 0)
      (zoom Client.worldPart do
        Interleaved.addTable dbName tblName
        pure 0)
    unfold Interleaved.addTable
    rw [zoom_bind, onObj_modifyObj 0 slot]
    exact sets_bind (sets_obj (off_modify fun _ => rfl)) fun _ => sets_pure 0

-- ---------------------------------------------------------------------------
-- start_replication
-- ---------------------------------------------------------------------------

theorem startReplication_run {w : World} (h : w.obj.state = .prepared) :
    (startReplication none).run w = .ok ()
      (({ w with error := none } : World).withState .postPrepared).begun := by
  have hswap : (swapState .prepared .postPrepared).run { w with error := none } =
      .ok () (({ w with error := none } : World).withState .postPrepared) := by
    refine congrArg (EStateM.Result.ok ()) ?_
    simp [World.withState, h]
  unfold startReplication
  rw [run_bind_ok (show clearError.run w = .ok () { w with error := none } from rfl), run_get_bind,
    if_neg (not_not.mpr h), run_bind_ok hswap]
  rfl

/-- The thread was created, and nobody else changes the listener. -/
def Begins (slot : Nat) (o : Listener) (s : Shared) : Prop :=
  s.threads = [slot] ∧ s.obj = o ∧ o.state = .postPrepared

theorem stable_begins (o : Listener) :
    (rules slot Starts Tells).Stable (.client 0) (Begins slot o) := by
  refine stable_of_moves fun j s s' hj hp hm => ?_
  obtain ⟨ht, rfl, hs⟩ := hp
  exact ⟨hm.2.2.1.threads_eq ht, hm.2.2.1.held hj hs, hs⟩

theorem begin_spec (o : Listener) : (onObj slot (swapState .postPrepared
      (if o.positionWasSetted then .inprocess else .inprocess1))).Spec
    (rules slot Starts Tells) (.client 0) (Begins slot o) fun _ _ => True := by
  refine Prog.Spec.atomic (stable_begins o) (fun _ => stable_true) fun s hs hi =>
    Triple.of_run (run_swap s slot .postPrepared _) fun _ => ?_
  obtain ⟨ht, rfl, hstate⟩ := hs
  have hthreads : s.threads ≠ [] := by simp [ht]
  have hnot : (if s.obj.positionWasSetted then ReplState.inprocess else .inprocess1) ≠ .ended := by
    split <;> decide
  rw [if_pos hstate]
  refine ⟨?_, ⟨hi.threads, fun h => absurd h hthreads, fun _ hor => ?_, fun _ h => absurd h hnot⟩,
    trivial⟩
  · exact {
      threads := fun _ => rfl
      setup := fun h => absurd rfl h
      launched := fun h => absurd h hthreads
      held := fun h => absurd rfl h
      final := fun h => absurd rfl h
      world := fun _ _ => .begun hstate rfl
      disabled := fun _ => rfl
      cancelled := id
      idle := by rintro _ _ ⟨⟩ }
  · rcases hor with h | h
    · exact hi.told hthreads (.inl h)
    · exact absurd h hnot

theorem create_spec (hT : ∀ w, Starts w → Tells w.told) {c : Client}
    (hstate : c.world.obj.state = .postPrepared) (he : c.world.error = none)
    (hstarts : Starts c.world.begun) : (Interleaved.createThread slot (.client 0)).Spec
      (rules slot Starts Tells) (.client 0) (fun s => NoThread s ∧ s.client slot = c)
      fun _ => Begins slot c.world.obj := by
  refine Prog.Spec.atomic (stable_setup c) (fun _ => stable_begins _) fun s hs hi =>
    Triple.of_run (a := ()) rfl fun _ => ?_
  obtain ⟨hn, rfl⟩ := hs
  have hnil : s.threads = [] := hn
  have hthreads : s.threads ++ [slot] = [slot] := by rw [hnil, List.nil_append]
  have hended : s.obj.state ≠ .ended := fun h => absurd (hstate.symm.trans h) (by decide)
  refine ⟨?_, ⟨.inr hthreads, fun h => ?_, fun _ _ => hT _ hstarts, fun _ h => absurd h hended⟩,
    hthreads, rfl, hstate⟩
  · exact {
      threads := fun h => absurd hnil h
      setup := fun h => absurd rfl h
      launched := fun _ _ => ⟨hthreads, hstate, he, hstarts⟩
      held := fun h => absurd rfl h
      final := fun h => absurd rfl h
      world := fun _ h => absurd hnil h
      disabled := fun _ => rfl
      cancelled := id
      idle := by rintro _ _ ⟨⟩ }
  · simp at h

theorem quiet_spec {P : Shared → Prop} (hP : (rules slot Starts Tells).Stable (.client 0) P)
    {f : Shared → Shared} (hf : ∀ s, Leaves slot s (f s)) (h : ∀ s, P s → P (f s)) :
    (atomic (modify f) : Code Unit).Spec (rules slot Starts Tells) (.client 0) P fun _ => P :=
  leaves_spec hP (fun _ => hP) fun s hs _ => Triple.of_run (a := ()) rfl ⟨hf s, h s hs⟩

theorem launch_spec (hT : ∀ w, Starts w → Tells w.told) {c : Client}
    (hstate : c.world.obj.state = .postPrepared) (he : c.world.error = none)
    (hstarts : Starts c.world.begun) : (do
      Interleaved.setNeedStop false
      Interleaved.createThread slot (.client 0)
      if (← readObj).positionWasSetted then onObj slot (swapState .postPrepared .inprocess)
      else onObj slot (swapState .postPrepared .inprocess1) : Code Unit).Spec
    (rules slot Starts Tells) (.client 0) (fun s => NoThread s ∧ s.client slot = c)
      fun _ _ => True := by
  refine Prog.Spec.bind (quiet_spec (stable_setup c) (fun _ => ⟨rfl, rfl, rfl, id⟩) fun _ hs => hs)
    fun _ => Prog.Spec.bind (create_spec hT hstate he hstarts) fun _ => ?_
  have hread : readObj.Spec (rules slot Starts Tells) (.client 0) (Begins slot c.world.obj)
      fun a s => Begins slot c.world.obj s ∧ a = c.world.obj :=
    look_spec (stable_begins _) (fun a s s' hs hr => ⟨stable_begins _ s s' hs.1 hr, hs.2⟩)
      fun s hs _ => ⟨hs, hs.2.1⟩
  have hbegin : (onObj slot _).Spec (rules slot Starts Tells) (.client 0) _ _ :=
    begin_spec c.world.obj
  refine Prog.Spec.bind hread fun a s hs => ?_
  obtain ⟨hs, rfl⟩ := hs
  cases h : c.world.obj.positionWasSetted with
  | false => exact (h ▸ hbegin) s hs
  | true => exact (h ▸ hbegin) s hs

theorem start_spec (hT : ∀ w, Starts w → Tells w.told) {c : Client}
    (hstarts : ∀ c', (onWorld (startReplication none)).run c = .ok () c' →
      c'.world.obj.InProcess → Starts c'.world) :
    (Interleaved.startReplication slot (.client 0) .created).Spec (rules slot Starts Tells)
      (.client 0) (fun s => NoThread s ∧ s.client slot = c) fun _ _ => True := by
  have herror (desc : String) :
      SetsUp slot Starts Tells (onObj slot (setError desc)) (onWorld (setError desc)) :=
    sets_obj (off_modify fun _ => rfl)
  refine Prog.Tracks.bind_spec (sets_obj (off_modify fun _ => rfl)) fun _ _ _ c₁ _ hclear => ?_
  cases hclear
  refine Prog.Tracks.bind_spec (sets_first (.client 0) .startPassed (by decide) (by decide))
    fun _ b b' c₂ hb hfirst => ?_
  obtain ⟨-, rfl⟩ := hb
  cases b with
  | false => exact (herror _ c₂).weaken fun _ _ _ => trivial
  | true =>
    obtain ⟨hstate, rfl⟩ := passFirst_inv hfirst
    exact launch_spec hT rfl rfl
      (hstarts _ (run_zoom_ok (startReplication_run hstate)) (World.begun_inProcess _))

-- ---------------------------------------------------------------------------
-- The whole setup
-- ---------------------------------------------------------------------------

theorem setupCode_spec (hT : ∀ w, Starts w → Tells w.told) {calls : ServerCalls}
    {later : List ClientCall} (hlater : ∀ c ∈ later, c.Aside slot 0)
    (adds : List (List UInt8 × List UInt8)) {c : Client}
    (hstarts : ∀ c', (do
        addTables os adds
        Client.prepareReplication calls
        onWorld (startReplication none) : ClientM Unit).run c = .ok () c' →
      c'.world.obj.InProcess → Starts c'.world) :
    (clientCode os (.client 0) (adds.map (fun x => .tableAdd x.1 x.2) ++
      [.prepareReplication slot calls, .startReplication slot .created] ++ later)).Spec
      (rules slot Starts Tells) (.client 0) (fun s => NoThread s ∧ s.client slot = c)
        fun _ _ => True := by
  induction adds generalizing c with
  | nil =>
    refine Prog.Tracks.bind_spec (sets_prepareReplication (.client 0) calls) fun _ _ _ c₁ _ hrun => ?_
    refine Prog.Spec.bind (start_spec hT fun c' hstart => hstarts c' ?_) fun _ => later_spec hlater
    exact (run_bind_ok (a := ()) rfl _).trans ((run_bind_ok hrun _).trans hstart)
  | cons x adds ih =>
    have hadd : SetsUp slot Starts Tells (ClientCall.code os (.client 0) (.tableAdd x.1 x.2)) (do
        let _ ← onWorld (tableAdd os x.1 x.2)
        pure ()) := sets_bind (sets_tableAdd _ _) fun _ => sets_pure ()
    refine Prog.Tracks.bind_spec hadd fun _ _ _ c₁ _ hrun => ih fun c' h => hstarts c' ?_
    obtain ⟨rc, c₂, htable, hpure⟩ := run_bind_inv hrun
    obtain ⟨-, rfl⟩ := run_pure_inv hpure
    rw [addTables, bind_assoc, run_bind_ok htable]
    exact h

end Session

end RplListener
