import RplListener.Listener.Outline

/-!
# The calls of the client threads

Each call keeps the rules, whatever the server and the thread functions answer.
A call past its first compare-and-swap knows what it needs for the later ones:
`prepare_replication` that there are tables and a file name,
`start_replication` that it alone may create the thread.
-/

namespace RplListener

open Bytes Refine Interleave Outline

variable {still : Prop} {n slot : Nat} {α β : Type} {P P' : Outline → Prop}
variable {Q : α → Outline → Prop} {R : β → Outline → Prop}

abbrev ClientSpec (still : Prop) (n : Nat) (P : Outline → Prop) (c : Code α)
    (Q : α → Outline → Prop) : Prop :=
  c.Spec (rules still) (.client n) (fun s => P s.outline) fun a s => Q a s.outline

abbrev ClientStable (still : Prop) (n : Nat) (P : Outline → Prop) : Prop :=
  (rules still).Stable (.client n) fun s => P s.outline

-- ---------------------------------------------------------------------------
-- Steps
-- ---------------------------------------------------------------------------

theorem client_atomic {x : EStateM Crash Shared α} {E : α → Outline → Outline → Prop}
    (hP : ClientStable still n P) (hQ : ∀ a, ClientStable still n (Q a)) (hx : Does E x)
    (hE : ∀ a o o', P o → o.Life → (still → o.Calm) → E a o o' →
      Guarantee (.client n) o o' ∧ o'.Life ∧ (still → o'.Calm) ∧ Q a o') :
    ClientSpec still n P (atomic x) Q := by
  refine Prog.Spec.atomic hP hQ fun s hs hinv => (hx s).mono ?_ ?_
  · intro a s' he _
    obtain ⟨hg, hl, hc, hq⟩ := hE a _ _ hs hinv.1 hinv.2 he
    exact ⟨⟨hg, by rintro - _ ⟨⟩⟩, ⟨hl, hc⟩, hq⟩
  · intro _ s' he _
    have hg : Guarantee (.client n) s.outline s'.outline := he ▸ .refl _ _
    have hinv' : s'.outline.Life ∧ (still → s'.outline.Calm) := he ▸ hinv
    exact ⟨⟨hg, by rintro - _ ⟨⟩⟩, hinv'⟩

theorem client_same (hP : ClientStable still n P) {x : EStateM Crash Shared α}
    (hx : Does (fun _ o o' => o' = o) x) : ClientSpec still n P (atomic x) fun _ => P := by
  refine client_atomic hP (fun _ => hP) hx ?_
  rintro a o _ hp hl hc rfl
  exact ⟨.refl _ _, hl, hc, hp⟩

theorem client_obj (hP : ClientStable still n P) {x : ListenM α} (hx : Keeps World.lifeAndName x) :
    ClientSpec still n P (onObj slot x) fun _ => P := client_same hP (does_zoom hx)

theorem client_client (hP : ClientStable still n P) {x : ClientM α}
    (hx : Keeps (fun c => c.world.lifeAndName) x) :
    ClientSpec still n P (onClient slot x) fun _ => P := client_same hP (does_zoom_client hx)

/-- What a look at the listener says about the outline of that moment. -/
structure Saw (a : Listener) (o : Outline) : Prop where
  state : a.state = o.state
  tables : a.tables.length = o.tables
  hasName : a.mLogNm ≠ [] → o.hasName = true

theorem client_read {Q : Listener → Outline → Prop} (hP : ClientStable still n P)
    (hQ : ∀ a, ClientStable still n (Q a)) (h : ∀ a o, P o → o.Life → Saw a o → Q a o) :
    ClientSpec still n P readObj Q := by
  have hx : Does (fun a o o' => o' = o ∧ Saw a o)
      (do pure (← get).obj : EStateM Crash Shared Listener) := by
    intro s
    refine Triple.look ⟨rfl, rfl, rfl, fun hn => ?_⟩
    simpa [Shared.outline] using hn
  refine client_atomic hP hQ hx ?_
  rintro a o _ hp hl hc ⟨rfl, hsaw⟩
  exact ⟨.refl _ _, hl, hc, h a _ hp hl hsaw⟩

theorem client_look (hP : ClientStable still n P) : ClientSpec still n P readObj fun _ => P :=
  client_read hP (fun _ => hP) fun _ _ hp _ _ => hp

theorem client_swap {old new : ReplState} (hP : ClientStable still n P)
    (hP' : ClientStable still n P') (hle : old.code ≤ new.code)
    (hswap : ∀ o, P o → o.Life → o.state = old →
      (o.state = .postPrepared → (o.who .startPassed).count (.client n) ≠ 0) ∧
      ({ o with state := new } : Outline).Life ∧
      (still → ({ o with state := new } : Outline).Calm) ∧ P' { o with state := new })
    (hkeep : ∀ o, P o → o.state ≠ old → P' o) :
    ClientSpec still n P (onObj slot (swapState old new)) fun _ => P' := by
  refine client_atomic hP (fun _ => hP') (does_swap old new) ?_
  rintro _ o _ hp hl hc rfl
  refine swap_cases (P := fun o' => Guarantee (.client n) o o' ∧ o'.Life ∧ (still → o'.Calm) ∧ P' o')
    old new (fun hs => ?_) fun hs => ⟨.refl _ _, hl, hc, hkeep o hp hs⟩
  obtain ⟨hheld, hl', hc', hp'⟩ := hswap o hp hl hs
  exact ⟨.moved (hs ▸ hle) hheld (by rintro _ _ ⟨⟩), hl', hc', hp'⟩

theorem client_pure (hQ : ClientStable still n P) (a : α) :
    ClientSpec still n P (pure a) fun _ => P := Prog.Spec.pure (Q := fun _ (s : Shared) => P s.outline) hQ

theorem stable_nothing : ClientStable still n fun _ => True := stable_true

theorem ClientSpec.done {c : Code α} (h : ClientSpec still n P c Q) :
    ClientSpec still n P c fun _ _ => True := h.weaken fun _ _ _ => trivial

-- ---------------------------------------------------------------------------
-- Pieces that keep the outline
-- ---------------------------------------------------------------------------

theorem keeps_clearError : Keeps World.lifeAndName clearError := Keeps.modify fun _ => rfl

theorem keeps_setError (desc : String) : Keeps World.lifeAndName (setError desc) :=
  Keeps.modify fun _ => rfl

theorem keeps_setErrorMySQL (desc : String) : Keeps World.lifeAndName (setErrorMySQL desc) :=
  Keeps.modify fun _ => rfl

theorem keeps_heap (x : EStateM Crash Heap α) : Keeps World.lifeAndName (zoom World.heapPart x) :=
  Keeps.zoom fun _ _ => rfl

theorem keeps_closeConn : Keeps (fun c : Client => c.world.lifeAndName) closeConn :=
  Keeps.bind (Keeps.modify fun _ => rfl) fun _ => Keeps.modify fun _ => rfl

theorem keeps_strcmpEq (field : Field) (text : String) :
    Keeps (fun c : Client => c.world.lifeAndName) (strcmpEq field text) := by
  cases field with
  | none => exact Keeps.throw _
  | some t => exact Keeps.pure _

theorem keeps_testVariable (row : Field × Field) (name value : String) (ok : Bool) :
    Keeps (fun c : Client => c.world.lifeAndName) (testVariable row name value ok) := by
  refine Keeps.bind (keeps_strcmpEq _ _) fun found => ?_
  cases found with
  | false => exact Keeps.pure _
  | true =>
    refine Keeps.bind (keeps_strcmpEq _ _) fun set => ?_
    cases set with
    | false => exact Keeps.pure _
    | true => exact Keeps.pure _

theorem keeps_readVariables (rows : List (Field × Field)) (v : VariablesOk) :
    Keeps (fun c : Client => c.world.lifeAndName) (readVariables rows v) := by
  induction rows generalizing v with
  | nil => exact Keeps.pure _
  | cons row rows ih =>
    refine Keeps.bind (keeps_testVariable _ _ _ _) fun _ => ?_
    refine Keeps.bind (keeps_testVariable _ _ _ _) fun _ => ?_
    refine Keeps.bind (keeps_testVariable _ _ _ _) fun _ => ?_
    exact Keeps.bind (keeps_testVariable _ _ _ _) fun _ => ih _

-- ---------------------------------------------------------------------------
-- table_add
-- ---------------------------------------------------------------------------

namespace Interleaved

theorem addTable_spec (dbName tblName : List UInt8) : ClientSpec still n (fun _ => True)
    (onObj slot (addTable dbName tblName)) fun _ _ => True := by
  refine client_atomic (E := fun _ o o' => o' = { o with tables := o.tables + 1 }) stable_nothing
    (fun _ => stable_nothing) ?_ ?_
  · refine does_modifyObj (E := fun o o' => o' = { o with tables := o.tables + 1 }) fun s => ?_
    simp [Shared.outline]
  · rintro _ o _ _ hl hc rfl
    refine ⟨{ Guarantee.refl _ o with tables := Nat.le_succ _ }, ?_, hc, trivial⟩
    have hready (h : o.Ready) : ({ o with tables := o.tables + 1 } : Outline).Ready :=
      { h with tables := Nat.succ_pos _ }
    exact { hl with
      ready := fun h1 h2 => hready (hl.ready h1 h2)
      launched := fun h => hready (hl.launched h) }

theorem tableAdd_spec (os : Allocator) (dbName tblName : List UInt8) :
    ClientSpec still n (fun _ => True) (tableAdd os slot dbName tblName) fun _ _ => True := by
  refine Prog.Spec.bind (client_look stable_nothing) fun o => ?_
  split
  · exact client_pure stable_nothing _
  · refine Prog.Spec.bind (client_obj stable_nothing (keeps_heap _)) fun ok => ?_
    cases ok with
    | false => exact client_pure stable_nothing _
    | true => exact Prog.Spec.bind (addTable_spec _ _) fun _ => client_pure stable_nothing _

-- ---------------------------------------------------------------------------
-- prepare_replication
-- ---------------------------------------------------------------------------

structure Preparing (named : Prop) (o : Outline) : Prop where
  tables : 0 < o.tables
  fileNameSet : named → o.fileNameSet = true

theorem Preparing.mono {named named' : Prop} {o : Outline} (h : Preparing named o)
    (hn : named' → named) : Preparing named' o := ⟨h.tables, fun h' => h.fileNameSet (hn h')⟩

theorem stable_preparing (named : Prop) : ClientStable still n (Preparing named) :=
  stable_of_guarantee fun _ _ _ _ hp hg =>
    ⟨hp.tables.trans_le hg.tables, fun h => hg.fileNameSet (hp.fileNameSet h)⟩

theorem stable_after {p : Prop} (h : p → ClientStable still n P) :
    ClientStable still n fun o => p → P o := fun s s' hs hr hp => h hp s s' (hs hp) hr

theorem endPrepare_spec : ClientSpec still n (fun _ => True)
    (onObj slot (swapState .postCreated .ended)) fun _ _ => True := by
  refine client_swap stable_nothing stable_nothing (by decide) ?_ fun _ _ _ => trivial
  intro o _ hl hs
  have hle : o.state.code ≤ ReplState.ended.code := hs ▸ by decide
  have hthreads : o.threads = 0 := hl.no_thread_early (hs ▸ by decide)
  refine ⟨by simp [hs], ?_, fun _ => Calm.of_no_thread hthreads, trivial⟩
  exact hl.moved hle (by decide) (fun h => absurd h (by decide)) fun _ h => absurd h (by decide)

variable {fail : ListenM Unit}

theorem abandon_spec (hfail : Keeps World.lifeAndName fail) :
    ClientSpec still n (fun _ => True) (abandon slot fail) fun _ _ => True :=
  Prog.Spec.bind (client_obj stable_nothing hfail) fun _ => endPrepare_spec

theorem giveUp_spec (hfail : Keeps World.lifeAndName fail) :
    ClientSpec still n (fun _ => True) (giveUp slot fail) fun _ _ => True := by
  refine Prog.Spec.bind (client_obj stable_nothing hfail) fun _ => ?_
  exact Prog.Spec.bind (client_client stable_nothing keeps_closeConn) fun _ => endPrepare_spec

theorem failing (hfail : Keeps World.lifeAndName fail) :
    ClientSpec still n P (giveUp slot fail) fun _ _ => True :=
  (giveUp_spec hfail).strengthen fun _ _ => trivial

theorem abandoning (hfail : Keeps World.lifeAndName fail) :
    ClientSpec still n P (abandon slot fail) fun _ _ => True :=
  (abandon_spec hfail).strengthen fun _ _ => trivial

variable {rest : Code Unit}

theorem unlessError_spec {error : Option String}
    (h : ClientSpec still n P rest fun _ _ => True) :
    ClientSpec still n P (unlessError slot error rest) fun _ _ => True := by
  cases error with
  | none => exact h
  | some desc => exact failing (keeps_setErrorMySQL _)

theorem demand_spec {ok : Bool} {desc : String} (h : ClientSpec still n P rest fun _ _ => True) :
    ClientSpec still n P (demand slot ok desc rest) fun _ _ => True := by
  cases ok with
  | false => exact failing (keeps_setError _)
  | true => exact h

theorem withRows_spec {ρ : Type} {answer : Answer ρ} {rest : List ρ → Code Unit}
    (h : ∀ rows, ClientSpec still n P (rest rows) fun _ _ => True) :
    ClientSpec still n P (withRows slot answer rest) fun _ _ => True := by
  cases answer with
  | queryError desc => exact failing (keeps_setErrorMySQL _)
  | storeError desc => exact failing (keeps_setErrorMySQL _)
  | rows rows => exact h rows

theorem does_finishPrepare (me : Tid) :
    Does (fun _ o o' => o' = (o.swap .postCreated .prepared).marked me .prepareDone)
      (do zoom (Shared.worldPart slot) (swapState .postCreated .prepared)
          record me .prepareDone) := by
  intro s
  refine Triple.bind (does_swap .postCreated .prepared s) fun _ s' hs => ?_
  exact Triple.of_run (a := ()) rfl (congrArg (Outline.marked · me .prepareDone) hs)

theorem life_prepared {o : Outline} (h : o.Life) (me : Tid) (hp : Preparing True o)
    (hs : o.state = .postCreated) :
    (({ o with state := .prepared } : Outline).marked me .prepareDone).Life := by
  have hle : o.state.code ≤ ReplState.prepared.code := hs ▸ by decide
  have hmarked : (o.marked me .prepareDone).Life :=
    h.marked (fun hm => by cases hm) (fun hm => by cases hm) (by decide)
  have hready : (o.marked me .prepareDone).Ready :=
    ⟨by simp [who_marked_self], hp.tables, hp.fileNameSet trivial⟩
  exact Life.moved (o := o.marked me .prepareDone) hle hmarked (by simp) (fun _ => hs ▸ by decide)
    fun _ _ => hready

theorem finishPrepare_spec : ClientSpec still n (Preparing True)
    (finishPrepare slot (.client n)) fun _ _ => True := by
  refine client_atomic (stable_preparing _) (fun _ => stable_nothing) (does_finishPrepare _) ?_
  rintro _ o _ hp hl hc rfl
  by_cases hs : o.state = .postCreated
  · have hle : o.state.code ≤ ReplState.prepared.code := hs ▸ by decide
    rw [swap, if_pos hs]
    exact ⟨.passed _ hle (by simp [hs]), life_prepared hl _ hp hs,
      fun _ => Calm.of_not_ended (by simp [marked]), trivial⟩
  · rw [swap, if_neg hs]
    exact ⟨.marked _ _ _, hl.marked (fun hm => by cases hm) (fun hm => by cases hm) (by decide),
      hc, trivial⟩

theorem setPosition_spec (name pos : List UInt8) : ClientSpec still n (Preparing False)
    (onObj slot (setPosition name pos)) fun _ => Preparing True := by
  refine client_atomic (E := fun _ o o' => ∃ b, o' = { o with fileNameSet := true, hasName := b })
    (stable_preparing _) (fun _ => stable_preparing _) (does_modifyObj fun s => ⟨_, rfl⟩) ?_
  rintro _ o _ hp hl hc ⟨b, rfl⟩
  refine ⟨{ Guarantee.refl _ o with fileNameSet := fun _ => rfl }, ?_, hc, ⟨hp.tables, fun _ => rfl⟩⟩
  have hready (h : o.Ready) : ({ o with fileNameSet := true, hasName := b } : Outline).Ready :=
    { h with fileNameSet := rfl }
  exact { hl with
    named := fun _ => rfl
    ready := fun h1 h2 => hready (hl.ready h1 h2)
    launched := fun h => hready (hl.launched h) }

/-- A name that is found without asking the server was set by the constructor. -/
theorem preparePosition_spec (calls : ServerCalls) : ClientSpec still n (Preparing False)
    (preparePosition slot (.client n) calls) fun _ _ => True := by
  have hread : ClientSpec still n (Preparing False) readObj fun a => Preparing (a.mLogNm ≠ []) :=
    client_read (stable_preparing _) (fun _ => stable_preparing _) fun a o hp hl hsaw =>
      ⟨hp.tables, fun h => hl.named (hsaw.hasName h)⟩
  refine Prog.Spec.bind hread fun a => ?_
  split
  case isTrue =>
    refine Prog.Spec.strengthen (P := fun s => Preparing False s.outline) ?_
      fun s (hs : Preparing _ s.outline) => hs.mono False.elim
    refine Prog.Spec.bind (client_obj (stable_preparing _) (Keeps.modify fun _ => rfl)) fun _ => ?_
    cases calls.masterStatus with
    | queryError desc => exact failing (keeps_setErrorMySQL _)
    | storeError desc => exact abandoning (keeps_setErrorMySQL _)
    | rows rows =>
      match rows with
      | [] => exact failing (keeps_setErrorMySQL _)
      | (some name, some pos) :: _ =>
        exact Prog.Spec.bind (setPosition_spec _ _) fun _ => finishPrepare_spec
      | (none, _) :: _ => exact failing (keeps_setError _)
      | (some _, none) :: _ => exact failing (keeps_setError _)
  case isFalse hname =>
    refine Prog.Spec.strengthen (P := fun s => Preparing True s.outline) ?_
      fun s (hs : Preparing _ s.outline) => hs.mono fun _ => hname
    refine Prog.Spec.bind (client_obj (stable_preparing _) (Keeps.modify fun _ => rfl)) fun _ => ?_
    exact finishPrepare_spec

theorem prepareVariables_spec (calls : ServerCalls) : ClientSpec still n (Preparing False)
    (prepareVariables slot (.client n) calls) fun _ _ => True := by
  refine withRows_spec fun rows => ?_
  refine Prog.Spec.bind (client_client (stable_preparing _) (keeps_readVariables _ _)) fun v => ?_
  refine demand_spec (demand_spec (demand_spec (demand_spec ?_)))
  exact unlessError_spec (unlessError_spec (preparePosition_spec calls))

theorem prepareVersion_spec (calls : ServerCalls) : ClientSpec still n (Preparing False)
    (prepareVersion slot (.client n) calls) fun _ _ => True := by
  refine withRows_spec fun rows => ?_
  match rows with
  | [] => exact failing (keeps_setError _)
  | none :: _ => exact failing (keeps_setError _)
  | some version :: _ =>
    refine Prog.Spec.bind (client_client (stable_preparing _) (Keeps.modify fun _ => rfl)) fun _ => ?_
    exact demand_spec (prepareVariables_spec calls)

theorem prepareConnection_spec (calls : ServerCalls) : ClientSpec still n (Preparing False)
    (prepareConnection slot (.client n) calls) fun _ _ => True := by
  refine Prog.Spec.bind (client_client (stable_preparing _) (Keeps.modify fun _ => rfl)) fun _ => ?_
  cases calls.init with
  | false => exact abandoning (keeps_setError _)
  | true =>
    refine Prog.Spec.bind (client_client (stable_preparing _) (Keeps.modify fun _ => rfl)) fun _ => ?_
    refine unlessError_spec ?_
    refine Prog.Spec.bind (client_client (stable_preparing _) (Keeps.modify fun _ => rfl)) fun _ => ?_
    exact prepareVersion_spec calls

theorem does_swapFirst (me : Tid) (old new : ReplState) (m : Milestone) :
    Does (fun passed o o' => if passed then
        o.state = old ∧ o' = ({ o with state := new } : Outline).marked me m
      else o' = o) (swapFirst me old new m) := by
  intro s
  unfold swapFirst
  refine Triple.get_bind ?_
  split
  case isTrue hs => exact Triple.of_run (a := true) rfl ⟨hs, rfl⟩
  case isFalse => exact Triple.of_run (a := false) rfl rfl

theorem swapFirst_spec {old new : ReplState} {m : Milestone} (hP : ClientStable still n P)
    (hold : old ≠ .postPrepared) (hle : old.code ≤ new.code) (hnew : new ≠ .ended)
    (hP' : ∀ o : Outline, o.Life → o.state = old →
      (({ o with state := new } : Outline).marked (.client n) m).Life ∧
      P (({ o with state := new } : Outline).marked (.client n) m)) :
    ClientSpec still n (fun _ => True) (atomic (swapFirst (.client n) old new m)) fun passed o =>
      passed = true → P o := by
  refine client_atomic stable_nothing (fun passed => stable_after fun _ => hP)
    (does_swapFirst _ _ _ _) ?_
  rintro passed o o' - hl hc h
  cases passed with
  | false =>
    cases h
    exact ⟨.refl _ _, hl, hc, fun hp => by cases hp⟩
  | true =>
    obtain ⟨hs, rfl⟩ := h
    obtain ⟨hl', hp'⟩ := hP' o hl hs
    refine ⟨.passed m (hs ▸ hle) (hs ▸ hold), hl', fun _ => Calm.of_not_ended ?_, fun _ => hp'⟩
    exact hnew

theorem prepareReplication_spec (calls : ServerCalls) : ClientSpec still n (fun _ => True)
    (prepareReplication slot (.client n) calls) fun _ _ => True := by
  refine Prog.Spec.bind (client_obj stable_nothing keeps_clearError) fun _ => ?_
  have hfirst : ClientSpec still n (fun _ => True)
      (atomic (swapFirst (.client n) .created .postCreated .preparePassed)) fun passed _ =>
        passed = true → True := by
    refine swapFirst_spec stable_nothing (by decide) (by decide) (by decide) fun o hl hs => ?_
    have hle : o.state.code ≤ ReplState.postCreated.code := hs ▸ by decide
    have hmoved : ({ o with state := .postCreated } : Outline).Life :=
      hl.moved hle (by decide) (fun _ => hs ▸ by decide) fun h => absurd h (by decide)
    exact ⟨hmoved.marked (m := .preparePassed) (fun _ => ⟨by simp, hl.created hs⟩) (fun hm => by cases hm) (by decide),
      trivial⟩
  refine Prog.Spec.bind (hfirst.done) fun passed => ?_
  cases passed with
  | false => exact client_obj stable_nothing (keeps_setError _)
  | true =>
    have hread : ClientSpec still n (fun _ => True) readObj fun a o =>
        a.tables.isEmpty = false → Preparing False o :=
      client_read stable_nothing (fun a => stable_after fun _ => stable_preparing _)
        fun a o _ _ hsaw hne => ⟨hsaw.tables ▸ by
          rw [List.length_pos_iff]
          simpa using hne, False.elim⟩
    refine Prog.Spec.bind hread fun a => ?_
    split
    case isTrue =>
      exact abandoning (P := fun o => a.tables.isEmpty = false → Preparing False o)
        (keeps_setError _)
    case isFalse hne =>
      exact (prepareConnection_spec calls).strengthen fun s hs => hs (Bool.eq_false_iff.mpr hne)

-- ---------------------------------------------------------------------------
-- start_replication
-- ---------------------------------------------------------------------------

/-- Between the first and the last compare-and-swap, before the thread is created. -/
structure Launching (me : Tid) (o : Outline) : Prop where
  state : o.state = .postPrepared
  ready : o.Ready
  unused : (o.who .threadCreated).count me < (o.who .startPassed).count me

structure Launched (me : Tid) (o : Outline) : Prop where
  ready : o.Ready
  passed : (o.who .startPassed).count me ≠ 0

theorem stable_launched : ClientStable still n (Launched (.client n)) :=
  stable_of_guarantee fun _ _ _ hj hp hg =>
    ⟨hg.ready hp.ready, (hg.own _ _ (Ne.symm hj)).symm ▸ hp.passed⟩

/-- Nobody else has passed the first step, so nobody else leaves the state. -/
theorem stable_launching : ClientStable still n (Launching (.client n)) := by
  refine Rules.Stable.of_moves fun j s s' hj hp hm => ?_
  have hg := hm.2.2.1.1
  have hnone : (s.outline.who .startPassed).count j = 0 := by
    have hstarts := hm.1.1.starts
    have hme : 0 < (s.outline.who .startPassed).count (.client n) := Nat.zero_lt_of_lt hp.unused
    have hmem := List.count_pos_iff.mp hme
    obtain ⟨i, hi⟩ := List.length_eq_one_iff.mp (le_antisymm hstarts (List.length_pos_of_mem hmem))
    rw [hi, List.mem_singleton] at hmem
    rw [hi, ← hmem, List.count_singleton, if_neg (by simpa using Ne.symm hj)]
  refine ⟨hg.held hp.state hnone, hg.ready hp.ready, ?_⟩
  rw [hg.own _ _ (Ne.symm hj), hg.own _ _ (Ne.symm hj)]
  exact hp.unused

theorem failStart_spec (desc : String) : ClientSpec still n (Launching (.client n))
    (failStart slot desc) fun _ _ => True := by
  refine Prog.Spec.bind (client_obj stable_launching (keeps_setError _)) fun _ => ?_
  refine client_swap stable_launching stable_nothing (by decide) ?_ fun _ _ _ => trivial
  intro o hp hl hs
  have hle : o.state.code ≤ ReplState.ended.code := hs ▸ by decide
  have hmoved : ({ o with state := .ended } : Outline).Life :=
    hl.moved hle (by decide) (fun h => absurd h (by decide)) fun _ h => absurd h (by decide)
  exact ⟨fun _ => Nat.ne_zero_of_lt hp.unused, hmoved,
    fun _ => Calm.of_no_thread (hl.no_thread hp.unused), trivial⟩

def withThread (o : Outline) (me : Tid) : Outline :=
  { o.marked me .threadCreated with threads := o.threads + 1 }

theorem life_withThread {o : Outline} {me : Tid} (hl : o.Life) (hp : Launching me o) :
    (withThread o me).Life where
  created h := absurd (hp.state.symm.trans h) (by decide)
  prepares := (congrArg List.length (who_marked_other (by decide) o me)).trans_le hl.prepares
  early h := absurd h (by simp [withThread, marked, hp.state, ReplState.code])
  starts := (congrArg List.length (who_marked_other (by decide) o me)).trans_le hl.starts
  ready _ _ := ⟨(hp.ready.marked me .threadCreated).prepared, hp.ready.tables, hp.ready.fileNameSet⟩
  launched _ := ⟨(hp.ready.marked me .threadCreated).prepared, hp.ready.tables, hp.ready.fileNameSet⟩
  named := hl.named
  spoken := hl.spoken
  owners i := by
    have hcreated : (withThread o me).who .threadCreated = o.who .threadCreated ++ [me] :=
      who_marked_self o me _
    have hstart : (withThread o me).who .startPassed = o.who .startPassed :=
      who_marked_other (by decide) o me
    rw [hcreated, hstart, List.count_append]
    by_cases hi : i = me
    · subst hi
      rw [List.count_singleton_self]
      exact hp.unused
    · rw [List.count_singleton, if_neg (by simpa using Ne.symm hi)]
      exact hl.owners i
  threads := by
    have hcreated : (withThread o me).who .threadCreated = o.who .threadCreated ++ [me] :=
      who_marked_self o me _
    rw [hcreated, List.length_append, ← hl.threads]
    rfl
  disabled k hk := (hl.disabled k hk).trans (Nat.lt_succ_self _)

theorem createThread_spec : ClientSpec still n (Launching (.client n))
    (createThread slot (.client n)) fun _ => Launched (.client n) := by
  have hx : Does (fun _ o o' => o' = withThread o (.client n))
      (do modify fun s => { s with threads := s.threads ++ [slot] }
          record (.client n) .threadCreated) := by
    refine fun s => Triple.of_run (a := ()) rfl ?_
    simp [Shared.outline, withThread, marked]
  refine client_atomic stable_launching (fun _ => stable_launched) hx ?_
  rintro _ o _ hp hl hc rfl
  have hg : Guarantee (.client n) o (withThread o (.client n)) :=
    { Guarantee.marked o (.client n) .threadCreated with
      threads := Nat.le_succ _
      created := fun _ => hp.ready }
  have hstart : (withThread o (.client n)).who .startPassed = o.who .startPassed :=
    who_marked_other (by decide) o _
  refine ⟨hg, life_withThread hl hp, fun _ => Calm.of_not_ended ?_, hg.ready hp.ready, ?_⟩
  · simp [withThread, marked, hp.state]
  · rw [hstart]
    exact Nat.ne_zero_of_lt hp.unused

theorem beginProcess_spec {new : ReplState} (hnew : new = .inprocess ∨ new = .inprocess1) :
    ClientSpec still n (Launched (.client n)) (onObj slot (swapState .postPrepared new))
      fun _ _ => True := by
  have hcode : 80 ≤ new.code := by rcases hnew with rfl | rfl <;> decide
  have hle : ReplState.postPrepared.code ≤ new.code := hcode.trans' (by decide)
  refine client_swap stable_launched stable_nothing hle ?_ fun _ _ _ => trivial
  intro o hp hl hs
  have hmoved : ({ o with state := new } : Outline).Life :=
    hl.moved (hs ▸ hle) (by rcases hnew with rfl | rfl <;> decide) (by omega) fun _ _ => hp.ready
  refine ⟨fun _ => hp.passed, hmoved, fun _ => Calm.of_not_ended ?_, trivial⟩
  rcases hnew with rfl | rfl <;> simp

theorem setNeedStop_spec (hP : ClientStable still n P) (b : Bool) :
    ClientSpec still n P (setNeedStop b) fun _ => P :=
  client_same hP fun _ => Triple.of_run (a := ()) rfl rfl

theorem startReplication_spec (thread : ThreadCalls) : ClientSpec still n (fun _ => True)
    (startReplication slot (.client n) thread) fun _ _ => True := by
  refine Prog.Spec.bind (client_obj stable_nothing keeps_clearError) fun _ => ?_
  have hfirst : ClientSpec still n (fun _ => True)
      (atomic (swapFirst (.client n) .prepared .postPrepared .startPassed)) fun passed o =>
        passed = true → Launching (.client n) o := by
    refine swapFirst_spec stable_launching (by decide) (by decide) (by decide) fun o hl hs => ?_
    have hle : o.state.code ≤ ReplState.postPrepared.code := hs ▸ by decide
    have hready : o.Ready := hl.ready (hs ▸ by decide) (hs ▸ by decide)
    have hnone : o.who .startPassed = [] := hl.early (hs ▸ by decide)
    have hmoved : ({ o with state := .postPrepared } : Outline).Life :=
      hl.moved hle (by decide) (fun _ => hs ▸ by decide) fun _ _ => hready
    have hready' : ({ o with state := .postPrepared } : Outline).Ready :=
      ⟨hready.prepared, hready.tables, hready.fileNameSet⟩
    refine ⟨hmoved.marked (m := .startPassed) (fun hm => by cases hm)
      (fun _ => ⟨le_rfl, hnone⟩) (by decide), rfl, hready'.marked _ _, ?_⟩
    have howner := hmoved.owners (.client n)
    rw [who_marked_other (by decide), who_marked_self, List.count_append, List.count_singleton_self]
    exact Nat.lt_succ_of_le howner
  refine Prog.Spec.bind hfirst fun passed => ?_
  cases passed with
  | false => exact (client_obj stable_nothing (keeps_setError _)).strengthen fun _ _ => trivial
  | true =>
    refine Prog.Spec.strengthen (P := fun s => Launching (.client n) s.outline) ?_
      fun s hs => hs rfl
    cases thread with
    | noAttr => exact failStart_spec _
    | noDetachState => exact failStart_spec _
    | noThread => exact Prog.Spec.bind (setNeedStop_spec stable_launching _) fun _ => failStart_spec _
    | created =>
      refine Prog.Spec.bind (setNeedStop_spec stable_launching _) fun _ => ?_
      refine Prog.Spec.bind createThread_spec fun _ => ?_
      refine Prog.Spec.bind (client_look stable_launched) fun a => ?_
      split
      · exact beginProcess_spec (.inl rfl)
      · exact beginProcess_spec (.inr rfl)

-- ---------------------------------------------------------------------------
-- stop_replication
-- ---------------------------------------------------------------------------

theorem inProcessGlobal_spec (hP : ClientStable still n P) :
    ClientSpec still n P inProcessGlobal fun _ => P :=
  Prog.Spec.bind (client_look hP) fun _ => client_pure hP _

theorem awaitEnd_spec (looks : Nat) :
    ClientSpec still n (fun _ => True) (awaitEnd looks) fun _ _ => True := by
  induction looks with
  | zero => exact client_pure stable_nothing _
  | succ looks ih =>
    refine Prog.Spec.bind (inProcessGlobal_spec stable_nothing) fun b => ?_
    cases b with
    | false => exact client_pure stable_nothing _
    | true => exact ih

def Cancelled (o : Outline) : Prop := o.cancelled 0 = true

theorem stable_cancelled : ClientStable still n Cancelled :=
  stable_of_guarantee fun _ _ _ _ hp hg => hg.cancelled 0 hp

theorem cancelThread_spec :
    ClientSpec still n (fun _ => True) cancelThread fun _ => Cancelled := by
  have hx : Does (fun _ o o' =>
      o' = { o with cancelled := Function.update o.cancelled (o.threads - 1) true })
      (modify fun s => { s with
        cancelled := Function.update s.cancelled (s.threads.length - 1) true }) :=
    fun _ => Triple.of_run (a := ()) rfl rfl
  refine client_atomic stable_nothing (fun _ => stable_cancelled) hx ?_
  rintro _ o _ _ hl hc rfl
  have hkept : ∀ k, o.cancelled k = true →
      Function.update o.cancelled (o.threads - 1) true k = true := by
    intro k hk
    rw [Function.update_apply]
    split <;> [rfl; exact hk]
  have hone : o.threads - 1 = 0 := by
    have := hl.threads_le
    omega
  have hready (h : o.Ready) : ({ o with
      cancelled := Function.update o.cancelled (o.threads - 1) true } : Outline).Ready := { h with }
  refine ⟨{ Guarantee.refl _ o with cancelled := hkept },
    { hl with
      ready := fun h1 h2 => hready (hl.ready h1 h2)
      launched := fun h => hready (hl.launched h) }, ?_, ?_⟩
  · exact fun hs he k hk => (hc hs he k hk).imp_left (hkept k)
  · simp [Cancelled, hone]

theorem swapEnded_spec {old : ReplState} (hold : old = .inprocess1 ∨ old = .inprocess) :
    ClientSpec still n Cancelled (onObj slot (swapState old .ended)) fun _ => Cancelled := by
  have hle : old.code ≤ ReplState.ended.code := by rcases hold with rfl | rfl <;> decide
  refine client_swap stable_cancelled stable_cancelled hle ?_ fun _ hp _ => hp
  intro o hp hl hs
  have hmoved : ({ o with state := .ended } : Outline).Life :=
    hl.moved (hs ▸ hle) (by decide) (fun h => absurd h (by decide)) fun _ h => absurd h (by decide)
  refine ⟨fun h => ?_, hmoved, fun _ _ k hk => .inl ?_, hp⟩
  · rcases hold with rfl | rfl <;> simp [hs] at h
  · have := hl.threads_le
    have hk0 : k = 0 := by
      have hk : k < o.threads := hk
      omega
    exact hk0 ▸ hp

theorem stopReplication_spec (ret : Nat) : ClientSpec still n (fun _ => True)
    (stopReplication slot ret) fun _ _ => True := by
  refine Prog.Spec.bind (inProcessGlobal_spec stable_nothing) fun b => ?_
  cases b with
  | false => exact client_pure stable_nothing _
  | true =>
    refine Prog.Spec.bind (setNeedStop_spec stable_nothing _) fun _ => ?_
    refine Prog.Spec.bind (awaitEnd_spec 41) fun _ => ?_
    refine Prog.Spec.bind (inProcessGlobal_spec stable_nothing) fun b => ?_
    cases b with
    | false => exact client_pure stable_nothing _
    | true =>
      refine Prog.Spec.bind cancelThread_spec fun _ => ?_
      refine Prog.Spec.bind (swapEnded_spec (.inl rfl)) fun _ => ?_
      refine Prog.Spec.bind (swapEnded_spec (.inr rfl)) fun _ => ?_
      exact (client_pure stable_cancelled _).done

-- ---------------------------------------------------------------------------
-- The other calls
-- ---------------------------------------------------------------------------

theorem getTablemapEvents_spec (os : Allocator) : ClientSpec still n (fun _ => True)
    (getTablemapEvents os slot) fun _ _ => True := by
  refine Prog.Spec.bind (client_obj stable_nothing keeps_clearError) fun _ => ?_
  refine Prog.Spec.bind (client_look stable_nothing) fun _ => ?_
  split
  · refine Prog.Spec.bind (client_obj stable_nothing (keeps_setError _)) fun _ => ?_
    exact client_pure stable_nothing _
  · refine Prog.Spec.bind (client_look stable_nothing) fun _ => ?_
    refine Prog.Spec.bind (client_obj stable_nothing (keeps_heap _)) fun copied => ?_
    cases copied with
    | ok bufs => exact client_pure stable_nothing _
    | error desc =>
      refine Prog.Spec.bind (client_obj stable_nothing (keeps_setError _)) fun _ => ?_
      exact client_pure stable_nothing _

theorem getLastSucessfulPosition_spec (maxlen : Nat) : ClientSpec still n (fun _ => True)
    (getLastSucessfulPosition maxlen) fun _ _ => True := by
  refine Prog.Spec.bind (client_look stable_nothing) fun _ => ?_
  split
  · refine Prog.Spec.bind (client_look stable_nothing) fun _ => ?_
    exact Prog.Spec.bind (client_look stable_nothing) fun _ => client_pure stable_nothing _
  · exact client_pure stable_nothing _

theorem inProcess_spec : ClientSpec still n (fun _ => True) inProcess fun _ _ => True := by
  refine Prog.Spec.bind (client_look stable_nothing) fun _ => ?_
  dsimp only
  split
  · exact client_pure stable_nothing _
  · exact client_pure stable_nothing _

end Interleaved

theorem ClientSpec.discard {c : Code α} (h : ClientSpec still n (fun _ => True) c fun _ _ => True) :
    ClientSpec still n (fun _ => True) (do let _ ← c) fun _ _ => True :=
  Prog.Spec.bind h fun _ => client_pure stable_nothing _

theorem clientCall_spec (os : Allocator) (c : ClientCall) :
    ClientSpec still n (fun _ => True) (c.code os (.client n)) fun _ _ => True := by
  cases c with
  | tableAdd dbName tblName => exact (Interleaved.tableAdd_spec os _ _).discard
  | prepareReplication slot calls => exact Interleaved.prepareReplication_spec calls
  | startReplication slot thread => exact Interleaved.startReplication_spec thread
  | stopReplication ret => exact (Interleaved.stopReplication_spec ret).discard
  | getTablemapEvents slot => exact (Interleaved.getTablemapEvents_spec os).discard
  | getLastSucessfulPosition maxlen =>
    exact (Interleaved.getLastSucessfulPosition_spec maxlen).discard
  | inProcess => exact Interleaved.inProcess_spec.discard

/-- A client keeps the rules, whatever it calls. -/
theorem clientCode_spec (os : Allocator) (calls : List ClientCall) :
    ClientSpec still n (fun _ => True) (clientCode os (.client n) calls) fun _ _ => True := by
  induction calls with
  | nil => exact client_pure stable_nothing _
  | cons c cs ih => exact Prog.Spec.bind (clientCall_spec os c) fun _ => ih

end RplListener
