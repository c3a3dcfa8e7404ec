import RplListener.Listener.ClientSteps
import RplListener.Listener.Decodes

/-!
# The replication thread

While it has cancellation disabled the thread handles an event: `Running` says
what it may count on there, `Idle` what it may count on where it can be cancelled.
Every callback is called from `INPROCESS` on.
-/

namespace RplListener

open Bytes Refine Interleave Outline

variable {still : Prop} {k n m slot : Nat} {α β : Type} {P P' : Outline → Prop}
variable {Q : α → Outline → Prop}

abbrev ThreadSpec (still : Prop) (k : Nat) (P : Outline → Prop) (c : Code α)
    (Q : α → Outline → Prop) : Prop :=
  c.Spec (rules still) (.repl k) (fun s => P s.outline) fun a s => Q a s.outline

abbrev ThreadStable (still : Prop) (k : Nat) (P : Outline → Prop) : Prop :=
  (rules still).Stable (.repl k) fun s => P s.outline

-- ---------------------------------------------------------------------------
-- Where the thread is
-- ---------------------------------------------------------------------------

/-- Between `PTHREAD_CANCEL_DISABLE` and the next `PTHREAD_CANCEL_ENABLE`, in a
state from number `n` on. -/
structure Running (still : Prop) (k n : Nat) (o : Outline) : Prop where
  state : n ≤ o.state.code
  thread : k < o.threads
  fileNameSet : o.fileNameSet = true
  inside : still → o.disabled k = true ∧ o.state ≠ .ended

structure Idle (still : Prop) (k n : Nat) (o : Outline) : Prop where
  state : n ≤ o.state.code
  thread : k < o.threads
  fileNameSet : o.fileNameSet = true
  outside : still → o.disabled k = false

structure Leaving (still : Prop) (k : Nat) (o : Outline) : Prop where
  thread : k < o.threads
  inside : still → o.disabled k = true

theorem Running.mono {o : Outline} (h : Running still k n o) (hm : m ≤ n) : Running still k m o :=
  { h with state := hm.trans h.state }

theorem Running.leaving {o : Outline} (h : Running still k n o) : Leaving still k o :=
  ⟨h.thread, fun hs => (h.inside hs).1⟩

theorem stable_running : ThreadStable still k (Running still k n) := by
  refine Rules.Stable.of_moves fun i s s' hi hp hm => ?_
  have hg := hm.2.2.1.1
  have hassume := hm.2.2.2
  refine ⟨hp.state.trans hg.state, hp.thread.trans_le hg.threads, hg.fileNameSet hp.fileNameSet, ?_⟩
  intro hs
  obtain ⟨hdis, hne⟩ := hp.inside hs
  refine ⟨(hg.disabled _ hi).trans hdis, fun he => hne ?_⟩
  cases i with
  | client c => exact hassume hs c rfl k hp.thread hdis he
  | repl j => exact hg.alone j k rfl (fun h => hi (congrArg Tid.repl h)) hdis he

theorem stable_idle : ThreadStable still k (Idle still k n) :=
  stable_of_guarantee fun _ _ _ hi hp hg =>
    ⟨hp.state.trans hg.state, hp.thread.trans_le hg.threads, hg.fileNameSet hp.fileNameSet,
      fun hs => (hg.disabled _ hi).trans (hp.outside hs)⟩

theorem stable_leaving : ThreadStable still k (Leaving still k) :=
  stable_of_guarantee fun _ _ _ hi hp hg =>
    ⟨hp.thread.trans_le hg.threads, fun hs => (hg.disabled _ hi).trans (hp.inside hs)⟩

theorem stable_nobody : ThreadStable still k fun _ => True := stable_true

-- ---------------------------------------------------------------------------
-- Steps
-- ---------------------------------------------------------------------------

/-- A step of a thread; one that halts may have changed the file name. -/
def Turns (E : α → Outline → Outline → Prop) (x : EStateM Crash Shared α) : Prop :=
  ∀ s, Triple x s (fun a s' => E a s.outline s'.outline)
    fun _ s' => ∃ b, s'.outline = { s.outline with hasName := b }

theorem Running.renamed {o : Outline} (hl : o.Life) (hf : o.fileNameSet = true) (i : Tid) (b : Bool) :
    Guarantee i o { o with hasName := b } ∧ ({ o with hasName := b } : Outline).Life := by
  have hready (h : o.Ready) : ({ o with hasName := b } : Outline).Ready := { h with }
  exact ⟨{ Guarantee.refl i o with }, { hl with
    named := fun _ => hf
    ready := fun h1 h2 => hready (hl.ready h1 h2)
    launched := fun h => hready (hl.launched h) }⟩

theorem running_atomic {x : EStateM Crash Shared α} {E : α → Outline → Outline → Prop}
    (hQ : ∀ a, ThreadStable still k (Q a)) (hx : Turns E x)
    (hE : ∀ a o o', Running still k n o → o.Life → (still → o.Calm) → E a o o' →
      Guarantee (.repl k) o o' ∧ o'.Life ∧ (still → o'.Calm) ∧ Q a o') :
    ThreadSpec still k (Running still k n) (atomic x) Q := by
  refine Prog.Spec.atomic stable_running hQ fun s hs hinv => (hx s).mono ?_ ?_
  · intro a s' he _
    obtain ⟨hg, hl, hc, hq⟩ := hE a _ _ hs hinv.1 hinv.2 he
    exact ⟨⟨hg, fun hst _ _ hend => absurd hend (hs.inside hst).2⟩, ⟨hl, hc⟩, hq⟩
  · rintro _ s' ⟨b, he⟩ _
    obtain ⟨hg, hl⟩ := Running.renamed hinv.1 hs.fileNameSet (.repl k) b
    have hc : still → s'.outline.Calm := fun hst => he ▸ hinv.2 hst
    exact ⟨⟨he ▸ hg, fun hst _ _ hend => absurd hend (hs.inside hst).2⟩, ⟨he ▸ hl, hc⟩⟩

theorem turns_zoom {x : ListenM α} (hx : Keeps World.life x) :
    Turns (fun _ o o' => ∃ b, o' = { o with hasName := b }) (zoom (Shared.worldPart slot) x) := by
  intro s
  refine (Triple.zoom (hx (s.world slot))).mono ?_ ?_
  · rintro a _ ⟨w, hw, rfl⟩
    exact ⟨_, outline_withWorld hw⟩
  · rintro e _ ⟨w, hw, rfl⟩
    exact ⟨_, outline_withWorld hw⟩

theorem Turns.of_does {E : α → Outline → Outline → Prop} {x : EStateM Crash Shared α}
    (h : Does E x) : Turns E x := fun s => (h s).mono (fun _ _ he => he) fun _ _ he => ⟨_, he⟩

theorem running_obj {x : ListenM α} (hx : Keeps World.life x) :
    ThreadSpec still k (Running still k n) (onObj slot x) fun _ => Running still k n := by
  refine running_atomic (fun _ => stable_running) (turns_zoom hx) ?_
  rintro _ o _ hp hl hc ⟨b, rfl⟩
  obtain ⟨hg, hl'⟩ := Running.renamed hl hp.fileNameSet (.repl k) b
  exact ⟨hg, hl', hc, { hp with }⟩

/-- A look at the state that finds `INPROCESS`: it is no earlier from then on. -/
theorem running_read : ThreadSpec still k (Running still k n) readObj fun a =>
    Running still k (if a.state = .inprocess then max 90 n else n) := by
  have hx : Does (fun a o o' => o' = o ∧ a.state = o.state)
      (do pure (← get).obj : EStateM Crash Shared Listener) := fun s =>
    Triple.look ⟨rfl, rfl⟩
  refine running_atomic (fun _ => stable_running) (.of_does hx) ?_
  rintro a o _ hp hl hc ⟨rfl, hstate⟩
  refine ⟨.refl _ _, hl, hc, { hp with state := ?_ }⟩
  split
  case isTrue h => exact max_le (by rw [← hstate, h]; decide) hp.state
  case isFalse => exact hp.state

theorem running_look : ThreadSpec still k (Running still k n) readObj fun _ => Running still k n :=
  running_read.weaken fun a s hs => hs.mono (by split <;> simp)

theorem running_isError (slot : Nat) : ThreadSpec still k (Running still k n) (isError slot)
    fun _ => Running still k n :=
  running_atomic (fun _ => stable_running) (E := fun _ o o' => o' = o)
    (fun _ => Triple.look rfl)
    (by rintro _ o _ hp hl hc rfl; exact ⟨.refl _ _, hl, hc, hp⟩)

theorem running_needStop : ThreadSpec still k (Running still k n) readNeedStop
    fun _ => Running still k n :=
  running_atomic (fun _ => stable_running) (E := fun _ o o' => o' = o)
    (fun _ => Triple.look rfl)
    (by rintro _ o _ hp hl hc rfl; exact ⟨.refl _ _, hl, hc, hp⟩)

theorem running_pure (a : α) : ThreadSpec still k (Running still k n) (pure a)
    fun _ => Running still k n :=
  Prog.Spec.pure (Q := fun _ (s : Shared) => Running still k n s.outline) stable_running

theorem running_call (hn : 90 ≤ n) (registered : Bool) (c : Call) :
    ThreadSpec still k (Running still k n) (onObj slot (call registered c))
      fun _ => Running still k n := by
  have hx : Turns (fun _ o o' => o' = { o with spoken := true })
      (zoom (Shared.worldPart slot) (call registered c)) := by
    intro s
    cases registered with
    | false => exact ⟨s.outline.hasName, by simp [Shared.outline, Shared.withWorld, Shared.worldPart,
        Shared.world]⟩
    | true =>
      refine Triple.of_run (a := ()) rfl ?_
      simp [Shared.outline, Shared.withWorld, Shared.worldPart, Shared.world]
  refine running_atomic (fun _ => stable_running) hx ?_
  rintro _ o _ hp hl hc rfl
  have hready (h : o.Ready) : ({ o with spoken := true } : Outline).Ready := { h with }
  refine ⟨{ Guarantee.refl _ o with }, ?_, hc, { hp with }⟩
  exact { hl with
    spoken := fun _ => hn.trans hp.state
    ready := fun h1 h2 => hready (hl.ready h1 h2)
    launched := fun h => hready (hl.launched h) }

theorem running_settle (hn : 80 ≤ n) : ThreadSpec still k (Running still k n)
    (onObj slot (swapState .inprocess1 .inprocess)) fun _ => Running still k 90 := by
  refine running_atomic (fun _ => stable_running) (.of_does (does_swap _ _)) ?_
  rintro _ o _ hp hl hc rfl
  refine swap_cases (P := fun o' => Guarantee (.repl k) o o' ∧ o'.Life ∧ (still → o'.Calm) ∧
    Running still k 90 o') _ _ (fun hs => ?_) fun hs => ⟨.refl _ _, hl, hc, ?_⟩
  · have hle : o.state.code ≤ ReplState.inprocess.code := hs ▸ by decide
    have hready : o.Ready := hl.launched (Nat.zero_lt_of_lt hp.thread)
    have hmoved : ({ o with state := .inprocess } : Outline).Life :=
      hl.moved hle (by decide) (fun h => absurd h (by decide)) fun _ _ => hready
    refine ⟨.moved hle (by simp [hs]) fun _ _ _ _ _ => by decide, hmoved,
      fun _ => Calm.of_not_ended (by simp), ⟨le_rfl, hp.thread, hp.fileNameSet, ?_⟩⟩
    exact fun hst => ⟨(hp.inside hst).1, by simp⟩
  · refine { hp with state := ?_ }
    have hcode := hn.trans hp.state
    cases h : o.state <;> simp_all [ReplState.code]

-- ---------------------------------------------------------------------------
-- Pieces that keep the life
-- ---------------------------------------------------------------------------

theorem life_zoom {x : EStateM Crash Heap α} : Keeps World.life (zoom World.heapPart x) :=
  Keeps.zoom fun _ _ => rfl

theorem life_setError (desc : String) : Keeps World.life (setError desc) :=
  Keeps.modify fun _ => rfl

theorem life_setErrorMySQL (desc : String) : Keeps World.life (setErrorMySQL desc) :=
  Keeps.modify fun _ => rfl

theorem life_clearError : Keeps World.life clearError := Keeps.modify fun _ => rfl

theorem life_modifyObj {f : Listener → Listener}
    (h : ∀ o, (f o).state = o.state ∧ (f o).tables.length = o.tables.length ∧
      (f o).rpl.fileNameSet = o.rpl.fileNameSet) : Keeps World.life (modifyObj f) :=
  Keeps.modify fun w => by simp [World.life, h w.obj]

theorem life_fillTable (lib : Library) (os : Allocator) (ev : RowsLogEvent2) (map : TableMapLogEvent)
    (q : Nat) : Keeps World.life (fillTable lib os ev map q) := by
  intro w
  cases ht : w.obj.tables[q]? with
  | some t =>
    refine Triple.of_run (fillTable_result ht) ?_
    simp [World.life, World.refill]
  | none =>
    have hrun : (fillTable lib os ev map q).run w = .error .memory w := by
      simp only [EStateM.run, fillTable, ht]
    unfold Triple
    rw [hrun]

theorem life_rotate (newLogIdent : List UInt8) : Keeps World.life (processRotate newLogIdent) := by
  refine life_modifyObj fun o => ?_
  dsimp only
  split <;> exact ⟨rfl, rfl, rfl⟩

theorem life_formatDescription (event : FormatDescription) :
    Keeps World.life (processFormatDescription event) := by
  refine life_modifyObj fun o => ⟨rfl, rfl, ?_⟩
  dsimp only
  split <;> rfl

-- ---------------------------------------------------------------------------
-- process_event
-- ---------------------------------------------------------------------------

namespace Interleaved

variable {lib : Library} {os : Allocator}

abbrev Handles (still : Prop) (k : Nat) (c : Code α) : Prop :=
  ThreadSpec still k (Running still k 80) c fun _ => Running still k 80

theorem back {c : Code α} {P : Outline → Prop}
    (h : ThreadSpec still k P c fun _ => Running still k 90) :
    ThreadSpec still k P c fun _ => Running still k 80 :=
  h.weaken fun _ _ hs => hs.mono (by decide)

theorem after_read {c : Code α} {a : Listener} (ha : a.state = .inprocess)
    (h : ThreadSpec still k (Running still k 90) c Q) :
    ThreadSpec still k (Running still k (if a.state = .inprocess then max 90 80 else 80)) c Q :=
  h.strengthen fun _ hs => hs.mono (by rw [if_pos ha]; decide)

theorem after_look {c : Code α} {p : Prop} [Decidable p]
    (h : ThreadSpec still k (Running still k 80) c Q) :
    ThreadSpec still k (Running still k (if p then max 90 80 else 80)) c Q :=
  h.strengthen fun _ hs => hs.mono (by split <;> decide)

theorem commitTransaction_spec (when : Nat) : ThreadSpec still k (Running still k 80)
    ((access slot).commitTransaction when) fun called => Running still k (if called then 90 else 80) := by
  refine Prog.Spec.bind running_read fun o => ?_
  split
  case isTrue h =>
    exact after_read h.2.1 (Prog.Spec.bind (running_call (by decide) _ _) fun _ => running_pure true)
  case isFalse => exact after_look (running_pure false)

theorem endTransaction_spec : ThreadSpec still k (Running still k 80) (access slot).endTransaction
    fun _ => Running still k 90 :=
  Prog.Spec.bind (running_obj (life_modifyObj fun _ => ⟨rfl, rfl, rfl⟩)) fun _ =>
    running_settle (by decide)

theorem convertToHeartbeat_spec (type : LogEventType) (when : Nat) :
    Handles still k ((access slot).convertToHeartbeat type when) := by
  refine Prog.Spec.bind running_read fun o => ?_
  split
  case isTrue h => exact after_read h.2.1 (back (running_call le_rfl _ _))
  case isFalse => exact after_look (running_pure ())

theorem openTransaction_spec (text : List UInt8) : Handles still k ((access slot).openTransaction text) := by
  unfold Access.openTransaction
  split
  · refine Prog.Spec.bind (back (running_settle (by decide))) fun _ => ?_
    exact running_obj (life_modifyObj fun _ => ⟨rfl, rfl, rfl⟩)
  · exact running_pure ()

/-- A query that closed a reported transaction is handled from `INPROCESS` on. -/
theorem closeTransaction_spec (text : List UInt8) (when : Nat) : ThreadSpec still k
    (Running still k 80) ((access slot).closeTransaction text when) fun convert =>
      Running still k (if convert then 80 else 90) := by
  unfold Access.closeTransaction
  split
  · refine Prog.Spec.bind (commitTransaction_spec when) fun called => ?_
    refine Prog.Spec.bind (Prog.Spec.strengthen endTransaction_spec fun s hs => hs.mono ?_)
      fun _ => ?_
    · split <;> decide
    · refine (running_pure (n := 90) _).weaken fun convert s hs => hs.mono ?_
      split <;> decide
  · exact running_pure true

theorem queryHeartbeat_spec (convert : Bool) (when : Nat) : ThreadSpec still k
    (Running still k (if convert then 80 else 90)) ((access slot).queryHeartbeat convert when)
      fun _ => Running still k 80 := by
  refine Prog.Spec.bind running_look fun o => ?_
  cases convert with
  | false => exact back (running_call le_rfl _ _)
  | true => exact running_pure ()

theorem processQuery_spec (when : Nat) (query : List UInt8) :
    Handles still k ((access slot).processQuery os when query) := by
  refine Prog.Spec.bind (running_obj life_zoom) fun ok => ?_
  cases ok with
  | false => exact running_obj (life_setError _)
  | true =>
    refine Prog.Spec.bind (openTransaction_spec _) fun _ => ?_
    exact Prog.Spec.bind (closeTransaction_spec _ _) fun convert => queryHeartbeat_spec convert when

theorem processXid_spec (when : Nat) : Handles still k ((access slot).processXid when) := by
  refine Prog.Spec.bind (commitTransaction_spec when) fun called => ?_
  exact back (endTransaction_spec.strengthen fun s hs => hs.mono (by split <;> decide))

theorem clearRows_spec (x : ReplLogXRows) : ThreadSpec still k (Running still k n)
    (onObj slot (clearRows x)) fun _ => Running still k n := running_obj life_zoom

theorem startTransaction_spec (when : Nat) : ThreadSpec still k (Running still k 90)
    ((access slot).startTransaction when) fun _ => Running still k 90 := by
  refine Prog.Spec.bind running_look fun o => ?_
  split
  · refine Prog.Spec.bind (running_obj (life_modifyObj fun _ => ⟨rfl, rfl, rfl⟩)) fun _ => ?_
    split
    · exact running_call le_rfl _ _
    · exact running_pure ()
  · exact running_pure ()

theorem finishRows_spec (result : Except FillStop ReplLogXRows) : ThreadSpec still k
    (Running still k 90) ((access slot).finishRows result) fun _ => Running still k 90 := by
  cases result with
  | ok x =>
    refine Prog.Spec.bind running_look fun o => ?_
    dsimp only
    split
    · exact Prog.Spec.bind (running_call le_rfl _ _) fun _ => clearRows_spec x
    · exact clearRows_spec x
  | error e =>
    cases e with
    | failed desc => exact running_obj (life_setError _)
    | thrown what x =>
      exact Prog.Spec.bind (clearRows_spec x) fun _ => running_obj (life_setError _)
    | stopped desc x =>
      exact Prog.Spec.bind (clearRows_spec x) fun _ => running_obj (life_setError _)
    | memory => exact running_obj (Keeps.throw _)

theorem processRows_spec (ev : RowsLogEvent2) : Handles still k ((access slot).processRows lib os ev) := by
  refine Prog.Spec.bind running_read fun o => ?_
  split
  case isTrue hs =>
    refine after_read hs (back ?_)
    cases o.mapOf ev with
    | none => exact running_obj (life_setError _)
    | some map =>
      dsimp only
      cases watchedTable map o.tables 0 none with
      | none => exact running_pure ()
      | some q =>
        refine Prog.Spec.bind (startTransaction_spec _) fun _ => ?_
        exact Prog.Spec.bind (running_obj (life_fillTable lib os ev map q)) fun result =>
          finishRows_spec result
  case isFalse => exact after_look (running_pure ())

theorem processLeaf_spec (ev : LeafEvent) : Handles still k ((access slot).processLeaf lib os ev) := by
  cases ev with
  | query when query => exact processQuery_spec when query
  | formatDescription when event => exact running_obj (life_formatDescription event)
  | tableMap when event => exact running_obj (life_modifyObj fun _ => ⟨rfl, rfl, rfl⟩)
  | rotate when newLogIdent => exact running_obj (life_rotate newLogIdent)
  | rows event isRows => exact processRows_spec event
  | xid when => exact processXid_spec when
  | xaPrepareLog when => exact processXid_spec when
  | other type when unlisted =>
    unfold Access.processLeaf
    split
    case h_8 => exact back (running_settle le_rfl)
    case h_9 => exact back (running_settle le_rfl)
    all_goals first | exact running_pure () | simp_all

theorem handleLeaf_spec (ev : LeafEvent) : Handles still k ((access slot).handleLeaf lib os ev) := by
  refine Prog.Spec.bind (running_obj life_clearError) fun _ => ?_
  exact Prog.Spec.bind (convertToHeartbeat_spec _ _) fun _ => processLeaf_spec ev

mutual

theorem processEvent_spec : (ev : LogEvent) → Handles still k (processEvent lib os slot ev)
  | .leaf ev => handleLeaf_spec ev
  | .transactionPayload when payload => by
    unfold processEvent
    refine Prog.Spec.bind (running_obj life_clearError) fun _ => ?_
    refine Prog.Spec.bind running_look fun o => ?_
    split
    · exact running_obj (Keeps.throw _)
    · exact processPayload_spec payload

theorem processPayload_spec : (payload : Payload) → Handles still k (processPayload lib os slot payload)
  | .nil => by
    unfold processPayload
    exact running_pure ()
  | .failed desc => by
    unfold processPayload
    exact running_obj (life_setError _)
  | .cons ev rest => by
    unfold processPayload
    refine Prog.Spec.bind (processEvent_spec ev) fun _ => ?_
    refine Prog.Spec.bind (running_isError slot) fun failed => ?_
    cases failed with
    | true => exact running_pure ()
    | false =>
      refine Prog.Spec.bind running_needStop fun stop => ?_
      cases stop with
      | true => exact running_pure ()
      | false => exact processPayload_spec rest

end

-- ---------------------------------------------------------------------------
-- The loop
-- ---------------------------------------------------------------------------

theorem processHeartbeat_spec (when : Nat) : Handles still k ((access slot).processHeartbeat when) := by
  refine Prog.Spec.bind running_look fun o => ?_
  split
  · exact running_obj (life_setError _)
  · refine Prog.Spec.bind (running_settle le_rfl) fun _ => ?_
    refine Prog.Spec.bind running_look fun o => ?_
    split
    · exact back (running_call le_rfl _ _)
    · exact back (running_pure ())

theorem setSize_spec (size : Nat) : Handles still k (onObj slot (setSize size)) :=
  running_obj (life_modifyObj fun _ => ⟨rfl, rfl, rfl⟩)

theorem turn_spec (p : Packet) : Handles still k (turn lib os slot p) := by
  cases p with
  | fetchError desc =>
    exact Prog.Spec.bind (running_obj (life_setErrorMySQL _)) fun _ => running_pure true
  | eof => exact Prog.Spec.bind (running_obj (life_setError _)) fun _ => running_pure true
  | failed size desc =>
    refine Prog.Spec.bind (setSize_spec size) fun _ => ?_
    exact Prog.Spec.bind (running_obj (life_setError _)) fun _ => running_pure true
  | heartbeat size when =>
    refine Prog.Spec.bind (setSize_spec size) fun _ => ?_
    refine Prog.Spec.bind (processHeartbeat_spec when) fun _ => ?_
    refine Prog.Spec.bind (running_isError slot) fun failed => ?_
    cases failed with
    | true => exact running_pure true
    | false => exact running_needStop
  | event size ev =>
    refine Prog.Spec.bind (setSize_spec size) fun _ => ?_
    refine Prog.Spec.bind (processEvent_spec ev) fun _ => ?_
    refine Prog.Spec.bind (running_isError slot) fun failed => ?_
    cases failed with
    | true => exact running_pure true
    | false =>
      refine Prog.Spec.bind (running_obj (life_modifyObj fun _ => ⟨rfl, rfl, rfl⟩)) fun _ => ?_
      exact running_needStop

-- ---------------------------------------------------------------------------
-- The life of the thread
-- ---------------------------------------------------------------------------

theorem silent_atomic {x : EStateM Crash Shared α} {E : α → Outline → Outline → Prop}
    (hP : ThreadStable still k P) (hQ : ∀ a, ThreadStable still k (Q a))
    (hx : Does E x) (htold : Keeps Shared.told x)
    (hE : ∀ a o o', P o → o.Life → (still → o.Calm) → E a o o' →
      Guarantee (.repl k) o o' ∧ o'.Life ∧ (still → o'.Calm) ∧ Q a o') :
    ThreadSpec still k P (atomic x) Q := by
  refine Prog.Spec.atomic hP hQ fun s hs hinv => ((hx s).and (htold s)).mono ?_ ?_
  · rintro a s' ⟨he, ht⟩ _
    obtain ⟨hg, hl, hc, hq⟩ := hE a _ _ hs hinv.1 hinv.2 he
    exact ⟨⟨hg, fun _ _ _ _ => ht⟩, ⟨hl, hc⟩, hq⟩
  · rintro _ s' ⟨he, ht⟩ _
    have hg : Guarantee (.repl k) s.outline s'.outline := he ▸ .refl _ _
    have hinv' : s'.outline.Life ∧ (still → s'.outline.Calm) := he ▸ hinv
    exact ⟨⟨hg, fun _ _ _ _ => ht⟩, hinv'⟩

theorem silent_same {x : EStateM Crash Shared α} (hP : ThreadStable still k P)
    (hx : Does (fun _ o o' => o' = o) x) (htold : Keeps Shared.told x) :
    ThreadSpec still k P (atomic x) fun _ => P := by
  refine silent_atomic hP (fun _ => hP) hx htold ?_
  rintro a o _ hp hl hc rfl
  exact ⟨.refl _ _, hl, hc, hp⟩

theorem clearError_told (hP : ThreadStable still k P) :
    ThreadSpec still k P (onObj slot clearError) fun _ => P :=
  silent_same hP (does_zoom (Keeps.modify fun _ => rfl)) fun _ => Triple.of_run (a := ()) rfl rfl

theorem closeConn_told (hP : ThreadStable still k P) :
    ThreadSpec still k P (onClient slot closeConn) fun _ => P :=
  silent_same hP (does_zoom_client keeps_closeConn) fun _ => Triple.of_run (a := ()) rfl rfl

theorem look_told (hP : ThreadStable still k P) : ThreadSpec still k P readObj fun _ => P :=
  silent_same hP (fun _ => Triple.look rfl) fun _ => Triple.look rfl

theorem enableCancel_spec (hP : ThreadStable still k P)
    (h : ∀ o, P o → o.Life → n ≤ o.state.code ∧ k < o.threads ∧
      (still → o.state = .ended → o.disabled k = false)) :
    ThreadSpec still k P (enableCancel k) fun _ => Idle still k n := by
  have hx : Does (fun _ o o' => o' = { o with disabled := Function.update o.disabled k false })
      (modify fun s => { s with disabled := Function.update s.disabled k false }) :=
    fun _ => Triple.of_run (a := ()) rfl rfl
  refine silent_atomic hP (fun _ => stable_idle) hx (Keeps.modify fun _ => rfl) ?_
  rintro _ o _ hp hl hc rfl
  obtain ⟨hn, hk, hend⟩ := h o hp hl
  have hready (h : o.Ready) : ({ o with
      disabled := Function.update o.disabled k false } : Outline).Ready := { h with }
  refine ⟨?_, ?_, fun hs he j hj => ?_, ?_⟩
  · exact { Guarantee.refl (.repl k) o with
      disabled := fun j hj => Function.update_of_ne (fun h => hj (congrArg Tid.repl h.symm)) _ _ }
  · exact { hl with
      ready := fun h1 h2 => hready (hl.ready h1 h2)
      launched := fun h => hready (hl.launched h)
      disabled := fun j hj => hl.disabled j (by
        by_cases h : j = k
        · simp [h] at hj
        · simpa [Function.update_of_ne h] using hj) }
  · refine (hc hs he j hj).imp_right fun hdis => ?_
    have hjk : j ≠ k := by
      rintro rfl
      exact absurd ((hend hs he).symm.trans hdis) (by decide)
    exact (Function.update_of_ne hjk _ _).trans hdis
  · exact ⟨hn, hk, (hl.launched (Nat.zero_lt_of_lt hk)).fileNameSet, fun _ => Function.update_self ..⟩

theorem stable_goesOn (b : Bool) : ThreadStable still k fun o => b = true → Running still k n o :=
  fun s s' hs hr hb => stable_running s s' (hs hb) hr

/-- `PTHREAD_CANCEL_DISABLE`: a thread that gets so far was not told to end, so
that the listener has not ended. -/
theorem disableCancel_spec : ThreadSpec still k (Idle still k n) (disableCancel k) fun b o =>
    b = true → Running still k n o := by
  have hx : Does (fun b o o' => if b then
        o.cancelled k = false ∧ o' = { o with disabled := Function.update o.disabled k true }
      else o' = o) (do
        if (← get).cancelled k then pure false
        else
          modify fun s => { s with disabled := Function.update s.disabled k true }
          pure true : EStateM Crash Shared Bool) := by
    intro s
    refine Triple.get_bind ?_
    split
    case isTrue => exact Triple.of_run (a := false) rfl rfl
    case isFalse h => exact Triple.of_run (a := true) rfl ⟨Bool.eq_false_iff.mpr h, rfl⟩
  have htold : Keeps Shared.told (do
        if (← get).cancelled k then pure false
        else
          modify fun s => { s with disabled := Function.update s.disabled k true }
          pure true : EStateM Crash Shared Bool) := by
    refine Keeps.bind .get fun s => ?_
    split
    · exact Keeps.pure _
    · exact Keeps.bind (Keeps.modify fun _ => rfl) fun _ => Keeps.pure _
  refine silent_atomic stable_idle stable_goesOn hx htold ?_
  rintro b o o' hp hl hc h
  cases b with
  | false =>
    cases h
    exact ⟨.refl _ _, hl, hc, fun hb => by cases hb⟩
  | true =>
    obtain ⟨hno, rfl⟩ := h
    have hready (h : o.Ready) : ({ o with
        disabled := Function.update o.disabled k true } : Outline).Ready := { h with }
    have hkept : ∀ j, o.disabled j = true → Function.update o.disabled k true j = true := by
      intro j hj
      rw [Function.update_apply]
      split <;> [rfl; exact hj]
    refine ⟨?_, ?_, fun hs he j hj => (hc hs he j hj).imp_right (hkept j), fun _ => ?_⟩
    · exact { Guarantee.refl (.repl k) o with
        disabled := fun j hj => Function.update_of_ne (fun h => hj (congrArg Tid.repl h.symm)) _ _ }
    · exact { hl with
        ready := fun h1 h2 => hready (hl.ready h1 h2)
        launched := fun h => hready (hl.launched h)
        disabled := fun j hj => by
          by_cases h : j = k
          · exact h ▸ hp.thread
          · exact hl.disabled j (by simpa [Function.update_of_ne h] using hj) }
    · refine ⟨hp.state, hp.thread, hp.fileNameSet, fun hs => ⟨Function.update_self .., fun he => ?_⟩⟩
      rcases hc hs he k hp.thread with h | h
      · exact absurd (hno.symm.trans h) (by decide)
      · exact absurd ((hp.outside hs).symm.trans h) (by decide)

/-- The thread ends the listener; there is no other thread that could be handling. -/
theorem swapEnded_thread {old : ReplState} (hold : old = .inprocess1 ∨ old = .inprocess) :
    ThreadSpec still k (Leaving still k) (onObj slot (swapState old .ended))
      fun _ => Leaving still k := by
  have hle : old.code ≤ ReplState.ended.code := by rcases hold with rfl | rfl <;> decide
  have htold : Keeps Shared.told (zoom (Shared.worldPart slot) (swapState old .ended)) := by
    intro s
    refine Triple.of_run (outline_swap s slot old .ended) ?_
    unfold Shared.told Shared.withWorld
    dsimp only [Shared.world]
    split <;> rfl
  refine silent_atomic stable_leaving (fun _ => stable_leaving) (does_swap _ _) htold ?_
  rintro _ o _ hp hl hc rfl
  refine swap_cases (P := fun o' => Guarantee (.repl k) o o' ∧ o'.Life ∧ (still → o'.Calm) ∧
    Leaving still k o') _ _ (fun hs => ?_) fun hs => ⟨.refl _ _, hl, hc, hp⟩
  have hmoved : ({ o with state := .ended } : Outline).Life :=
    hl.moved (hs ▸ hle) (by decide) (fun h => absurd h (by decide)) fun _ h => absurd h (by decide)
  refine ⟨.moved (hs ▸ hle) ?_ ?_, hmoved, fun hst _ j hj => .inr ?_, ⟨hp.thread, hp.inside⟩⟩
  · intro h
    rcases hold with rfl | rfl <;> simp [hs] at h
  · rintro j k' ⟨⟩ hjk hk' -
    exact hjk (hl.alone hp.thread hk')
  · exact (hl.alone hj (hp.inside hst)).symm ▸ hp.inside hst

theorem endReplication_spec : ThreadSpec still k (Leaving still k) (endReplication slot)
    fun _ => Leaving still k := by
  refine Prog.Spec.bind (closeConn_told stable_leaving) fun _ => ?_
  exact Prog.Spec.bind (swapEnded_thread (.inl rfl)) fun _ => swapEnded_thread (.inr rfl)

theorem abortThread_spec : ThreadSpec still k (Leaving still k) (abortThread slot)
    fun _ => Leaving still k := by
  refine Prog.Spec.bind (closeConn_told stable_leaving) fun _ => ?_
  refine Prog.Spec.bind (look_told stable_leaving) fun o => ?_
  split
  · exact swapEnded_thread (.inr rfl)
  · exact swapEnded_thread (.inl rfl)

theorem leaving {c : Code α} (h : ThreadSpec still k (Leaving still k) c Q) :
    ThreadSpec still k (Running still k 80) c Q := h.strengthen fun _ hs => hs.leaving

theorem ends {P : Outline → Prop} : ThreadSpec still k P (pure false : Code Bool) fun b o =>
    b = true → Running still k n o :=
  (Prog.Spec.pure (Q := fun b (s : Shared) => b = true → Running still k n s.outline)
    (stable_goesOn false)).strengthen fun _ _ hb => by cases hb

theorem threadStart_spec (binlogOpen : Option String) : ThreadSpec still k (Running still k 80)
    (threadStart os slot binlogOpen) fun b o => b = true → Running still k 80 o := by
  refine Prog.Spec.bind (running_obj life_zoom) fun ok => ?_
  cases ok with
  | false =>
    refine Prog.Spec.bind (running_obj (life_modifyObj fun _ => ⟨rfl, rfl, rfl⟩)) fun _ => ?_
    refine Prog.Spec.bind (running_obj (life_setError _)) fun _ => ?_
    exact Prog.Spec.bind (leaving abortThread_spec) fun _ => ends
  | true =>
    refine Prog.Spec.bind (running_obj (life_modifyObj fun _ => ⟨rfl, rfl, rfl⟩)) fun _ => ?_
    refine Prog.Spec.bind (running_obj (life_modifyObj fun _ => ⟨rfl, rfl, rfl⟩)) fun _ => ?_
    cases binlogOpen with
    | none => exact (running_pure true).weaken fun _ _ hs _ => hs
    | some desc =>
      refine Prog.Spec.bind (running_obj (life_setErrorMySQL _)) fun _ => ?_
      exact Prog.Spec.bind (leaving abortThread_spec) fun _ => ends

theorem enableCancel_turn : ThreadSpec still k (Running still k n) (enableCancel k)
    fun _ => Idle still k n :=
  enableCancel_spec stable_running fun _ hp _ =>
    ⟨hp.state, hp.thread, fun hs he => absurd he (hp.inside hs).2⟩

theorem replicationLoop_spec (packets : List Packet) : ThreadSpec still k (Running still k 80)
    (replicationLoop lib os slot k packets) fun _ _ => True := by
  induction packets with
  | nil =>
    refine Prog.Spec.bind enableCancel_turn fun _ => ?_
    exact Prog.Spec.waitFor stable_idle stable_nobody fun _ _ _ h => by cases h
  | cons p ps ih =>
    refine Prog.Spec.bind enableCancel_turn fun _ => ?_
    refine Prog.Spec.bind disableCancel_spec fun alive => ?_
    cases alive with
    | false => exact (Prog.Spec.pure stable_nobody).strengthen fun _ _ => trivial
    | true =>
      refine Prog.Spec.strengthen (P := fun s => Running still k 80 s.outline) ?_ fun s hs => hs rfl
      refine Prog.Spec.bind (turn_spec p) fun done => ?_
      cases done with
      | true => exact (leaving endReplication_spec).weaken fun _ _ _ => trivial
      | false => exact ih

theorem awaitStart_spec : ThreadSpec still k (Idle still k 0) awaitStart
    fun _ => Idle still k 80 := by
  refine Prog.Spec.bind (look_told stable_idle) fun o => ?_
  split
  · refine Prog.Spec.waitFor stable_idle stable_idle fun s hs _ h => { hs with state := ?_ }
    have hstate : s.outline.state = .inprocess := of_decide_eq_true h
    rw [hstate]
    decide
  · refine Prog.Spec.waitFor stable_idle stable_idle fun s hs _ h => { hs with state := ?_ }
    have hstate : s.outline.state = .inprocess1 := of_decide_eq_true h
    rw [hstate]
    decide

/-- The thread keeps the rules, from before it is created on. -/
theorem processReplicationThreadFnc_spec (binlogOpen : Option String) (packets : List Packet) :
    ThreadSpec still k (fun o => still → o.disabled k = false)
      (processReplicationThreadFnc lib os k binlogOpen packets) fun _ _ => True := by
  have hunborn : ThreadStable still k fun o => still → o.disabled k = false :=
    stable_of_guarantee (P := fun o => still → o.disabled k = false)
      fun _ _ _ hi hp hg hs => (hg.disabled _ hi).trans (hp hs)
  have hborn : ThreadStable still k fun o => k < o.threads ∧ (still → o.disabled k = false) :=
    stable_of_guarantee (P := fun o => k < o.threads ∧ (still → o.disabled k = false))
      fun _ _ _ hi hp hg =>
        ⟨hp.1.trans_le hg.threads, fun hs => (hg.disabled _ hi).trans (hp.2 hs)⟩
  refine Prog.Spec.bind (Prog.Spec.waitFor (Q := fun _ (s : Shared) => k < s.outline.threads ∧
    (still → s.outline.disabled k = false)) hunborn hborn fun s hs _ h =>
      ⟨of_decide_eq_true h, hs⟩) fun _ => ?_
  refine Prog.Spec.bind (silent_same hborn
    (fun _ => Triple.look rfl) fun _ => Triple.look rfl) fun slot => ?_
  refine Prog.Spec.bind (enableCancel_spec (n := 0) hborn fun o hp _ =>
    ⟨Nat.zero_le _, hp.1, fun hs _ => hp.2 hs⟩) fun _ => ?_
  refine Prog.Spec.bind (clearError_told stable_idle) fun _ => ?_
  refine Prog.Spec.bind awaitStart_spec fun _ => ?_
  refine Prog.Spec.bind disableCancel_spec fun alive => ?_
  cases alive with
  | false => exact (Prog.Spec.pure stable_nobody).strengthen fun _ _ => trivial
  | true =>
    refine Prog.Spec.strengthen (P := fun s => Running still k 80 s.outline) ?_ fun s hs => hs rfl
    refine Prog.Spec.bind (threadStart_spec binlogOpen) fun started => ?_
    cases started with
    | false => exact (Prog.Spec.pure stable_nobody).strengthen fun _ _ => trivial
    | true => exact (replicationLoop_spec packets).strengthen fun s hs => hs rfl

end Interleaved

end RplListener
