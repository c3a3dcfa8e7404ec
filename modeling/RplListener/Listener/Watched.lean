import RplListener.Listener.Steps

/-!
# The rows of a watched table

What is delivered for a rows event, and what a rows event does in general:
nothing before `INPROCESS`, an error without a table map, nothing when the table
is not watched, and a delivery otherwise. With it `Step` has every way a step
can end.
-/

namespace RplListener

open Bytes Refine

variable {lib : Library} {os : Allocator} {w w' : World}
variable {ev : RowsLogEvent2} {map : TableMapLogEvent}

-- ---------------------------------------------------------------------------
-- Which table
-- ---------------------------------------------------------------------------

def Listener.watches (o : Listener) (map : TableMapLogEvent) : Bool :=
  o.tables.any fun t => t.names map

theorem watchedTable_isSome {ts : List ListeningTable} {q : Nat} {found : Option Nat} :
    (watchedTable map ts q found).isSome = (found.isSome || ts.any fun t => t.names map) := by
  induction ts generalizing q found with
  | nil => simp [watchedTable]
  | cons t ts ih =>
    rw [watchedTable, ih]
    cases ht : t.names map <;> simp [ht]

theorem watchedTable_lt {ts : List ListeningTable} {q i : Nat} {found : Option Nat}
    (h : watchedTable map ts q found = some i) (hf : ∀ j, found = some j → j < q) :
    i < q + ts.length := by
  induction ts generalizing q found with
  | nil => exact hf i h
  | cons t ts ih =>
    rw [watchedTable] at h
    have hi : i < q + 1 + ts.length := by
      refine ih h fun j hj => ?_
      split at hj
      · cases hj
        exact Nat.lt_succ_self q
      · exact Nat.lt_succ_of_lt (hf j hj)
    rw [List.length_cons]
    omega

-- ---------------------------------------------------------------------------
-- What is filled in
-- ---------------------------------------------------------------------------

structure ReplLogXRows.Of (x : ReplLogXRows) (ev : RowsLogEvent2) (map : TableMapLogEvent) :
    Prop where
  tblId : x.tblId = ev.tableId
  tblName : x.tblName = (cstr map.tableName).take 319
  dbName : x.dbName = (cstr map.dbName).take 319
  typeCode : some x.set.typeCode = ev.typeCode.firstImage.map RowImageType.typeCode

theorem replLogXRowsInit_eq {disp : DisplayBlobs} {s s' : FillState} {x : ReplLogXRows}
    (h : (replLogXRowsInit os ev map disp).run s = .ok x s') :
    ∃ colNames colTypes, x = { ReplLogXRows.init ev map disp with colNames, colTypes } := by
  obtain ⟨cols, _, -, h⟩ := run_bind_inv h
  obtain ⟨colNames, _, -, h⟩ := run_bind_inv h
  obtain ⟨colTypes, _, -, h⟩ := run_bind_inv h
  refine ⟨colNames, colTypes, ?_⟩
  split at h
  · obtain ⟨_, _, -, h⟩ := run_bind_inv h
    obtain ⟨_, _, -, h⟩ := run_bind_inv h
    cases h
  · cases h
    rfl

theorem callGetRows_eq {s s' : FillState} {x y : ReplLogXRows}
    (h : (callGetRows lib os ev map x).run s = .ok y s') :
    ∃ set, y = { x with set } ∧
      some set.typeCode = ev.typeCode.firstImage.map RowImageType.typeCode := by
  simp only [callGetRows, EStateM.run] at h
  split at h
  case h_1 value t hrun =>
    cases h
    exact ⟨t.set, rfl, getRows_typeCode hrun⟩
  case h_2 => cases h
  case h_3 => cases h

theorem fillRows_of {disp : DisplayBlobs} {s s' : FillState} {x : ReplLogXRows}
    (h : (fillRows lib os ev map disp).run s = .ok x s') : x.Of ev map := by
  obtain ⟨_, _, -, h⟩ := run_bind_inv h
  obtain ⟨y, _, hinit, h⟩ := run_bind_inv h
  obtain ⟨colNames, colTypes, rfl⟩ := replLogXRowsInit_eq hinit
  obtain ⟨set, rfl, htype⟩ := callGetRows_eq h
  exact ⟨rfl, rfl, rfl, htype⟩

-- ---------------------------------------------------------------------------
-- A delivery
-- ---------------------------------------------------------------------------

def ListeningTable.pair (t : ListeningTable) : List UInt8 × List UInt8 := (t.dbName, t.tblName)

def Listener.pairs (o : Listener) : List (List UInt8 × List UInt8) :=
  o.tables.map ListeningTable.pair

def Listener.rowCalls (o : Listener) : Option ReplLogXRows → List Call
  | some x => if o.onRow then [.onRow x] else []
  | none => []

/-- What the rows of a watched table change, with the structure that was
delivered, if any. -/
structure Delivery (w : World) (ev : RowsLogEvent2) (map : TableMapLogEvent)
    (delivered : Option ReplLogXRows) (w' : World) : Prop where
  obj : w'.obj = { w.obj with inTransaction := w.obj.started, tables := w'.obj.tables }
  pairs : w'.obj.pairs = w.obj.pairs
  calls : w'.calls = w.calls ++ w.obj.starts ev.when ++ w.obj.rowCalls delivered
  of : ∀ x ∈ delivered, x.Of ev map

theorem startTransaction_run (when : Nat) : (direct.startTransaction when).run w =
    .ok () ((w.say (w.obj.starts when)).put { w.obj with inTransaction := w.obj.started }) := by
  unfold Access.startTransaction
  rw [direct_look_bind]
  dsimp only
  by_cases h : w.obj.inTransaction = 1
  · rw [if_pos h]
    have hflag : w.obj.started = 2 := if_pos h
    by_cases hb : w.obj.onTransaction = true
    · have hcalls : w.obj.starts when = [.onTransaction when .start] := if_pos ⟨h, hb⟩
      rw [if_pos hb, hcalls, hflag]
      exact call_run hb _
    · have hcalls : w.obj.starts when = [] := if_neg fun hc => hb hc.2
      rw [if_neg hb, hcalls, hflag, World.say_nil]
      rfl
  · have hflag : w.obj.started = w.obj.inTransaction := if_neg h
    have hcalls : w.obj.starts when = [] := if_neg fun hc => h hc.1
    rw [if_neg h, hcalls, hflag, World.say_nil]
    rfl

theorem pairs_set {ts : List ListeningTable} {q : Nat} {t : ListeningTable} (h : ts[q]? = some t)
    (info : TblInfo) :
    (ts.set q { t with info }).map ListeningTable.pair = ts.map ListeningTable.pair := by
  refine List.ext_getElem? fun i => ?_
  simp only [List.getElem?_map, List.getElem?_set]
  split
  case isTrue hq =>
    subst hq
    obtain ⟨hlt, rfl⟩ := List.getElem?_eq_some_iff.mp h
    simp [hlt]
    rfl
  case isFalse => rfl

theorem fillTable_run {q : Nat} (hq : q < w.obj.tables.length) :
    ∃ result heap tables, (fillTable lib os ev map q).run w =
        .ok result { w with heap, obj := { w.obj with tables } } ∧
      tables.map ListeningTable.pair = w.obj.pairs ∧ ∀ x, result = .ok x → x.Of ev map := by
  obtain ⟨t, ht⟩ : ∃ t, w.obj.tables[q]? = some t := ⟨_, List.getElem?_eq_getElem hq⟩
  simp only [fillTable, EStateM.run, ht]
  cases hrun : fillRows lib os ev map w.obj.disp ⟨w.heap, t.info⟩ with
  | ok x s =>
    refine ⟨.ok x, s.heap, _, rfl, pairs_set ht s.info, ?_⟩
    rintro _ ⟨⟩
    exact fillRows_of hrun
  | error e s => exact ⟨.error e, s.heap, _, rfl, pairs_set ht s.info, by simp⟩

def World.shown (w : World) : Listener × Option ReplLogXError × List Call :=
  (w.obj, w.error, w.calls)

theorem keeps_clearRows (x : ReplLogXRows) : Keeps World.shown (clearRows x) :=
  Keeps.zoom fun _ _ => rfl

theorem free_halts {ε α : Type} {P : ε → Prop} (p : Ptr α) : OnlyHalts P (Heap.free p) :=
  OnlyHalts.modify _

theorem forM_free_halts {ε : Type} {P : ε → Prop} (cells : List ReplLogXValue) :
    OnlyHalts P (cells.forM fun c => Heap.free c.val) := by
  induction cells with
  | nil => exact OnlyHalts.pure ()
  | cons c cells ih => exact OnlyHalts.bind (free_halts _) fun _ => ih

theorem freeCells_halts (block : Ptr (List ReplLogXValue)) (count : Nat) :
    OnlyHalts (· = .memory) (freeCells block count) := by
  unfold freeCells
  split
  · exact OnlyHalts.pure ()
  · exact OnlyHalts.throw rfl
  · split
    · exact OnlyHalts.bind (forM_free_halts _) fun _ => free_halts _
    · exact OnlyHalts.throw rfl

theorem clearRows_halts (x : ReplLogXRows) : OnlyHalts (· = .memory) (clearRows x) := by
  refine OnlyHalts.zoom (OnlyHalts.bind (free_halts _) fun _ => ?_)
  refine OnlyHalts.bind (free_halts _) fun _ => OnlyHalts.bind (free_halts _) fun _ => ?_
  refine OnlyHalts.bind (free_halts _) fun _ => ?_
  exact OnlyHalts.bind (freeCells_halts _ _) fun _ => freeCells_halts _ _

theorem clearRows_triple (x : ReplLogXRows) : Triple (clearRows x) w
    (fun _ w' => w'.shown = w.shown) fun c w' => w'.shown = w.shown ∧ c = .memory :=
  ((keeps_clearRows x w).and (clearRows_halts x w)).mono (fun _ _ h => h.1) fun _ _ h => h

theorem clearRows_setError_triple (x : ReplLogXRows) (desc : String) :
    Triple (clearRows x >>= fun _ => setError desc) w
      (fun _ w' => w'.obj = w.obj ∧ w'.calls = w.calls ∧ w'.error ≠ none)
      (fun c w' => w'.obj = w.obj ∧ w'.calls = w.calls ∧ c = .memory) := by
  refine Triple.bind ((clearRows_triple x).mono (fun _ _ h => h) ?_) ?_
  · rintro c w' ⟨hs, hc⟩
    obtain ⟨ho, -, hcalls⟩ : _ ∧ _ ∧ _ := by simpa [World.shown] using hs
    exact ⟨ho, hcalls, hc⟩
  · intro _ w' hs
    obtain ⟨ho, -, hcalls⟩ : _ ∧ _ ∧ _ := by simpa [World.shown] using hs
    exact Triple.of_run (a := ()) rfl ⟨ho, hcalls, by simp⟩

/-- The structure that `result` holds is what the callback sees, and it sees one
exactly when there is no error. -/
theorem finishRows_triple (he : w.error = none) (result : Except FillStop ReplLogXRows) :
    Triple (finishRows result) w
      (fun _ w' => ∃ d, w'.obj = w.obj ∧ w'.calls = w.calls ++ w.obj.rowCalls d ∧
        (∀ x ∈ d, result = .ok x) ∧ (w'.error = none ↔ d.isSome))
      (fun c w' => c = .memory ∧ ∃ d, w'.obj = w.obj ∧ w'.calls = w.calls ++ w.obj.rowCalls d ∧
        ∀ x ∈ d, result = .ok x) := by
  have failed {y : ListenM Unit} (hy : Triple y w
      (fun _ w' => w'.obj = w.obj ∧ w'.calls = w.calls ∧ w'.error ≠ none)
      (fun c w' => w'.obj = w.obj ∧ w'.calls = w.calls ∧ c = .memory)) :
      Triple y w
        (fun _ w' => ∃ d, w'.obj = w.obj ∧ w'.calls = w.calls ++ w.obj.rowCalls d ∧
          (∀ x ∈ d, result = .ok x) ∧ (w'.error = none ↔ d.isSome))
        (fun c w' => c = .memory ∧ ∃ d, w'.obj = w.obj ∧ w'.calls = w.calls ++ w.obj.rowCalls d ∧
          ∀ x ∈ d, result = .ok x) :=
    hy.mono
      (fun _ w' ⟨ho, hc, hn⟩ => ⟨none, ho, by simpa [Listener.rowCalls] using hc, by simp,
        by simpa using hn⟩)
      fun c w' ⟨ho, hc, hm⟩ => ⟨hm, none, ho, by simpa [Listener.rowCalls] using hc, by simp⟩
  cases result with
  | ok x =>
    have hclear {w₁ : World} (h : w₁ = w.say (w.obj.rowCalls (some x))) :
        Triple (clearRows x) w₁
          (fun _ w' => ∃ d, w'.obj = w.obj ∧ w'.calls = w.calls ++ w.obj.rowCalls d ∧
            (∀ y ∈ d, Except.ok (ε := FillStop) x = .ok y) ∧ (w'.error = none ↔ d.isSome))
          (fun c w' => c = .memory ∧ ∃ d, w'.obj = w.obj ∧
            w'.calls = w.calls ++ w.obj.rowCalls d ∧ ∀ y ∈ d, Except.ok (ε := FillStop) x = .ok y) := by
      subst h
      refine (clearRows_triple x).mono ?_ ?_
      · intro _ w' hs
        obtain ⟨ho, herr, hcalls⟩ : _ ∧ _ ∧ _ := by simpa [World.shown] using hs
        exact ⟨some x, ho, hcalls, by simp, by simp [herr, he]⟩
      · rintro c w' ⟨hs, hc⟩
        obtain ⟨ho, -, hcalls⟩ : _ ∧ _ ∧ _ := by simpa [World.shown] using hs
        exact ⟨hc, some x, ho, hcalls, by simp⟩
    unfold finishRows Access.finishRows
    refine triple_look_bind ?_
    dsimp only
    split
    case isTrue h =>
      exact Triple.bind_run (call_run h _) (hclear (congrArg w.say (if_pos h).symm))
    case isFalse h =>
      exact hclear (w.say_nil.symm.trans (congrArg w.say (if_neg h).symm))
  | error e =>
    cases e with
    | failed desc => exact failed (Triple.of_run (a := ()) rfl ⟨rfl, rfl, by simp⟩)
    | thrown what x => exact failed (clearRows_setError_triple x what)
    | stopped desc x => exact failed (clearRows_setError_triple x desc)
    | memory => exact failed (Triple.throw ⟨rfl, rfl, rfl⟩)

theorem deliverRows_triple {q : Nat} (he : w.error = none) (hq : q < w.obj.tables.length) :
    Triple (direct.deliverRows lib os ev map q) w
      (fun _ w' => ∃ d, Delivery w ev map d w' ∧ (w'.error = none ↔ d.isSome))
      (fun c w' => c = .memory ∧ ∃ d, Delivery w ev map d w') := by
  refine Triple.bind_run (startTransaction_run _) ?_
  obtain ⟨result, heap, tables, hrun, hpairs, hof⟩ := @fillTable_run lib os
    ((w.say (w.obj.starts ev.when)).put { w.obj with inTransaction := w.obj.started }) ev map q hq
  refine Triple.bind_run hrun ((finishRows_triple (by exact he) result).mono ?_ ?_)
  · rintro _ w' ⟨d, ho, hcalls, hd, herr⟩
    exact ⟨d, ⟨by rw [ho]; rfl, by rw [ho]; exact hpairs, hcalls, fun x hx => hof x (hd x hx)⟩, herr⟩
  · rintro c w' ⟨hc, d, ho, hcalls, hd⟩
    exact ⟨hc, d, by rw [ho]; rfl, by rw [ho]; exact hpairs, hcalls, fun x hx => hof x (hd x hx)⟩

-- ---------------------------------------------------------------------------
-- A rows event
-- ---------------------------------------------------------------------------

def rowsEventError : ReplLogXError := ⟨false, clip 1024 noTableMap⟩

inductive RowsStep (w : World) (ev : RowsLogEvent2) : World → Prop
  | early (h : w.obj.state ≠ .inprocess) : RowsStep w ev w
  | noMap (h : w.obj.state = .inprocess) (hm : w.obj.mapOf ev = none) :
    RowsStep w ev (w.fail rowsEventError)
  | unwatched {map : TableMapLogEvent} (h : w.obj.state = .inprocess) (hm : w.obj.mapOf ev = some map)
    (hw : w.obj.watches map = false) : RowsStep w ev w
  | delivery {map : TableMapLogEvent} {d : Option ReplLogXRows} {w' : World}
    (h : w.obj.state = .inprocess) (hm : w.obj.mapOf ev = some map)
    (hw : w.obj.watches map = true) (hd : Delivery w ev map d w')
    (herr : w'.error = none ↔ d.isSome) : RowsStep w ev w'

theorem handle_rows (he : w.error = none) (isRows : ev.typeCode.firstImage.isSome) :
    Triple (handleLeaf lib os (.rows ev isRows)) w (fun _ w' => RowsStep w ev w')
      (fun c w' => c = .memory ∧ ∃ map d, w.obj.state = .inprocess ∧ Delivery w ev map d w') := by
  have hlisted : (LeafEvent.rows ev isRows).type.listed = true := by
    change ev.typeCode.listed = true
    revert isRows
    cases ev.typeCode <;> simp [LogEventType.firstImage, LogEventType.general, LogEventType.listed]
  rw [Triple.congr (handleLeaf_listed he hlisted)]
  refine triple_look_bind ?_
  dsimp only
  split
  case isFalse h => exact Triple.pure (.early h)
  case isTrue h =>
    cases hm : w.obj.mapOf ev with
    | none => exact Triple.of_run (a := ()) rfl (.noMap h hm)
    | some map =>
      have hsome := @watchedTable_isSome map w.obj.tables 0 none
      dsimp only
      cases hq : watchedTable map w.obj.tables 0 none with
      | none =>
        rw [hq] at hsome
        exact Triple.pure (.unwatched h hm hsome.symm)
      | some q =>
        rw [hq] at hsome
        have hlt := watchedTable_lt hq (by simp)
        rw [Nat.zero_add] at hlt
        refine (deliverRows_triple he hlt).mono ?_ ?_
        · rintro _ w' ⟨d, hd, herr⟩
          exact .delivery h hm hsome.symm hd herr
        · rintro c w' ⟨hc, d, hd⟩
          exact ⟨hc, map, d, h, hd⟩

-- ---------------------------------------------------------------------------
-- One step
-- ---------------------------------------------------------------------------

inductive Handled where
  | event (ev : LeafEvent)
  | heartbeat (when : Nat)

def handle (lib : Library) (os : Allocator) : Handled → ListenM Unit
  | .event ev => handleLeaf lib os ev
  | .heartbeat when => processHeartbeat when

/-- What a step leaves that does not crash. -/
inductive Step (os : Allocator) (w : World) : Handled → World → Prop
  | noMem {when query} (hg : os.grant w.heap.asked = false) :
    Step os w (.event (.query when query)) (w.ask.fail ⟨false, clip 1024 "out of mem!!!"⟩)
  | opens {when query} (hg : os.grant w.heap.asked = true) (ho : opensTransaction query) :
    Step os w (.event (.query when query)) (w.ask.put w.obj.opened)
  | commits {when query} (hg : os.grant w.heap.asked = true) (hc : closesTransaction query)
    (hclose : w.obj.closing = true) (hb : w.obj.onHeartbeat = true) :
    Step os w (.event (.query when query))
      ((w.ask.say [.onTransaction when .commit, .onHeartbeat when]).put w.obj.ended)
  | closes {when query} (hg : os.grant w.heap.asked = true) (hc : closesTransaction query)
    (hclose : w.obj.closing = false) :
    Step os w (.event (.query when query)) (w.ask.put w.obj.ended)
  | query {when query} (hg : os.grant w.heap.asked = true) (ho : ¬ opensTransaction query)
    (hc : ¬ closesTransaction query) : Step os w (.event (.query when query)) w.ask
  | formatDescription {when event} (rpl : MysqlRpl) :
    Step os w (.event (.formatDescription when event))
      (w.put { w.obj with globDescriptionEvent := some event, rpl })
  | tableMap {when event} : Step os w (.event (.tableMap when event))
      (w.put { w.obj with globTableMapEvents := w.obj.globTableMapEvents.store event })
  | rotate {when newLogIdent} (mLogNm : List UInt8) (rpl : MysqlRpl) :
    Step os w (.event (.rotate when newLogIdent)) (w.put { w.obj with mLogNm, rpl })
  | rows {ev isRows w'} (h : RowsStep w ev w') : Step os w (.event (.rows ev isRows)) w'
  | xid {when} :
    Step os w (.event (.xid when)) ((w.say (w.obj.commits when)).put w.obj.ended)
  | xaPrepareLog {when} :
    Step os w (.event (.xaPrepareLog when)) ((w.say (w.obj.commits when)).put w.obj.ended)
  | other {type when} (unlisted : LogEventType.listed type = false) :
    Step os w (.event (.other type when unlisted))
      ((w.say (w.obj.heartbeats when)).put (if type.isGtid then w.obj.settle else w.obj))
  | noDescription {when} (h : w.obj.globDescriptionEvent = none) : Step os w (.heartbeat when)
      (w.fail ⟨false, clip 1024 "HEARTBEAT_LOG_EVENT without FORMAT_DESCRIPTION_EVENT!!!"⟩)
  | heartbeat {when} (h : w.obj.globDescriptionEvent.isSome) : Step os w (.heartbeat when)
      ((w.say (if w.obj.onHeartbeat then [.onHeartbeat when] else [])).put w.obj.settle)

inductive Broken (os : Allocator) (w : World) : Handled → Crash → World → Prop
  | nullHeartbeat {when query} (hg : os.grant w.heap.asked = true) (hc : closesTransaction query)
    (hclose : w.obj.closing = true) (hb : w.obj.onHeartbeat = false) :
    Broken os w (.event (.query when query)) .nullCall
      ((w.ask.say [.onTransaction when .commit]).put w.obj.ended)
  | rows {ev isRows map d w'} (h : w.obj.state = .inprocess) (hd : Delivery w ev map d w') :
    Broken os w (.event (.rows ev isRows)) .memory w'

structure Kept (w w' : World) : Prop where
  onRow : w'.obj.onRow = w.obj.onRow
  onHeartbeat : w'.obj.onHeartbeat = w.obj.onHeartbeat
  onTransaction : w'.obj.onTransaction = w.obj.onTransaction
  pairs : w'.obj.pairs = w.obj.pairs
  state : w.obj.state = .inprocess → w'.obj.state = .inprocess

theorem Kept.refl (w : World) : Kept w w := ⟨rfl, rfl, rfl, rfl, id⟩

theorem Kept.trans {w'' : World} (h : Kept w w') (h' : Kept w' w'') : Kept w w'' where
  onRow := h'.onRow.trans h.onRow
  onHeartbeat := h'.onHeartbeat.trans h.onHeartbeat
  onTransaction := h'.onTransaction.trans h.onTransaction
  pairs := h'.pairs.trans h.pairs
  state hs := h'.state (h.state hs)

theorem Kept.settle {o : Listener} (h : Kept w (w.put o)) : Kept w (w.put o.settle) where
  onRow := h.onRow
  onHeartbeat := h.onHeartbeat
  onTransaction := h.onTransaction
  pairs := h.pairs
  state hs := by simp [Listener.settle, show o.state = .inprocess from h.state hs]

theorem Delivery.kept {d : Option ReplLogXRows} (h : Delivery w ev map d w') : Kept w w' where
  onRow := by rw [h.obj]
  onHeartbeat := by rw [h.obj]
  onTransaction := by rw [h.obj]
  pairs := h.pairs
  state hs := by rw [h.obj]; exact hs

theorem RowsStep.kept (h : RowsStep w ev w') : Kept w w' := by
  cases h with
  | early | unwatched => exact Kept.refl w
  | noMap => exact ⟨rfl, rfl, rfl, rfl, id⟩
  | delivery _ _ _ hd => exact hd.kept

theorem Step.kept {x : Handled} (h : Step os w x w') : Kept w w' := by
  have hsettle : Kept w (w.put w.obj.settle) := Kept.settle (Kept.refl w)
  have hended : Kept w (w.put w.obj.ended) :=
    Kept.settle (o := { w.obj with inTransaction := 0 }) ⟨rfl, rfl, rfl, rfl, id⟩
  cases h with
  | opens | heartbeat => exact ⟨rfl, rfl, rfl, rfl, hsettle.state⟩
  | commits | closes | xid | xaPrepareLog => exact ⟨rfl, rfl, rfl, rfl, hended.state⟩
  | rows h => exact h.kept
  | @other type when unlisted =>
    cases type.isGtid
    · exact ⟨rfl, rfl, rfl, rfl, id⟩
    · exact ⟨rfl, rfl, rfl, rfl, hsettle.state⟩
  | noMem | query | formatDescription | tableMap | rotate | noDescription =>
    exact ⟨rfl, rfl, rfl, rfl, id⟩

theorem handle_query_step (he : w.error = none) (when : Nat) (query : List UInt8) :
    Triple (handleLeaf lib os (.query when query)) w
      (fun _ w' => Step os w (.event (.query when query)) w')
      fun c w' => Broken os w (.event (.query when query)) c w' := by
  cases hg : os.grant w.heap.asked with
  | false => exact Triple.of_run (handle_query_noMem he hg when query) (.noMem hg)
  | true =>
    have hrun := @handle_query lib os w he hg when query
    by_cases ho : opensTransaction query
    · exact Triple.of_run (hrun.trans (if_pos ho)) (.opens hg ho)
    · rw [if_neg ho] at hrun
      by_cases hc : closesTransaction query
      · rw [if_pos hc] at hrun
        cases hclose : w.obj.closing with
        | false =>
          refine Triple.of_run (hrun.trans (if_neg (by simp [hclose]))) ?_
          rw [hclose, if_neg Bool.false_ne_true, World.say_nil]
          exact .closes hg hc hclose
        | true =>
          cases hb : w.obj.onHeartbeat with
          | false =>
            exact Triple.of_run_error (hrun.trans (if_pos ⟨hclose, hb⟩))
              (.nullHeartbeat hg hc hclose hb)
          | true =>
            refine Triple.of_run (hrun.trans (if_neg (by simp [hb]))) ?_
            rw [hclose, if_pos rfl]
            exact .commits hg hc hclose hb
      · exact Triple.of_run (hrun.trans (if_neg hc)) (.query hg ho hc)

theorem handle_step (he : w.error = none) (x : Handled) :
    Triple (handle lib os x) w (fun _ w' => Step os w x w') fun c w' => Broken os w x c w' := by
  cases x with
  | heartbeat when =>
    cases h : w.obj.globDescriptionEvent with
    | none => exact Triple.of_run (handle_heartbeat when) (by rw [h]; exact .noDescription h)
    | some event =>
      exact Triple.of_run (handle_heartbeat when) (by rw [h]; exact .heartbeat (by rw [h]; rfl))
  | event ev =>
    cases ev with
    | query when query => exact handle_query_step he when query
    | formatDescription when event =>
      exact Triple.of_run (handle_formatDescription he when event) (.formatDescription _)
    | tableMap when event => exact Triple.of_run (handle_tableMap he when event) .tableMap
    | rotate when newLogIdent =>
      obtain ⟨mLogNm, rpl, hrun⟩ := @handle_rotate lib os w he when newLogIdent
      exact Triple.of_run hrun (.rotate mLogNm rpl)
    | rows ev isRows =>
      refine (handle_rows he isRows).mono (fun _ w' h => .rows h) ?_
      rintro c w' ⟨rfl, map, d, h, hd⟩
      exact .rows h hd
    | xid when => exact Triple.of_run (handle_xid he when) .xid
    | xaPrepareLog when => exact Triple.of_run (handle_xaPrepareLog he when) .xaPrepareLog
    | other type when unlisted => exact Triple.of_run (handle_other he when unlisted) (.other unlisted)

end RplListener
