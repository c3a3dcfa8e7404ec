import RplListener.Rows.Requests
import RplListener.Rows.Spans
import RplListener.Listener.History

/-!
# Failures and their reports

What makes the handling of an event fail, as it is found in the event and in the
state before it. All of these end in an error report but one: a constructor that
throws before the rows structure is set up has the handler clear what is in it.
-/

namespace RplListener

open Bytes Refine

variable {lib : Library} {os : Allocator} {w : World} {s : FillState}
variable {ev : RowsLogEvent2} {map : TableMapLogEvent} {disp : DisplayBlobs}

-- ---------------------------------------------------------------------------
-- Clearing
-- ---------------------------------------------------------------------------

def ReplLogXRows.Whole (x : ReplLogXRows) : Prop :=
  ∀ after, Covers (x.set.rowsCount * x.colCount) (x.set.block after)

theorem ReplLogXRows.whole_of_empty {x : ReplLogXRows} (h : x.set = {}) : x.Whole := by
  intro after
  rw [h]
  cases after <;> trivial

theorem free_ends {α : Type} (p : Ptr α) :
    OnlyHalts (fun _ => False) (Heap.free p : EStateM Crash Heap Unit) := .modify _

theorem freeCells_ends {p : Ptr (List ReplLogXValue)} {n : Nat} (h : Covers n p) :
    OnlyHalts (fun _ => False) (freeCells p n) := by
  have hvals (cells : List ReplLogXValue) :
      OnlyHalts (fun _ => False) (cells.forM fun c => Heap.free c.val : EStateM Crash Heap PUnit) := by
    induction cells with
    | nil => exact .pure _
    | cons c cells ih => exact (free_ends _).bind fun _ => ih
  unfold freeCells
  cases p with
  | null => exact .pure _
  | wild => exact h.elim
  | block id cells =>
    dsimp only
    rw [if_pos (show n ≤ cells.length from h)]
    exact (hvals _).bind fun _ => free_ends _

theorem replLogXRowsClear_ends {x : ReplLogXRows} (h : x.Whole) :
    OnlyHalts (fun _ => False) (replLogXRowsClear x) := by
  have hcells (after : Bool) : OnlyHalts (fun _ => False)
      (freeCells (x.set.block after) (uint32 (x.set.rowsCount * x.colCount))) :=
    freeCells_ends ((h after).mono (Nat.mod_le _ _))
  exact (free_ends _).bind fun _ => (free_ends _).bind fun _ => (free_ends _).bind fun _ =>
    (free_ends _).bind fun _ => (hcells false).bind fun _ => hcells true

-- ---------------------------------------------------------------------------
-- The try block
-- ---------------------------------------------------------------------------

/-- The handler of this way out can clear the structure. -/
def FillStop.Clearable : FillStop → Prop
  | .failed _ => True
  | .thrown _ x | .stopped _ x => x.Whole
  | .memory => False

theorem updateInfo_refused (hroom : s.info.Roomy) (h : s.served os map.mColcnt = false) :
    ∃ s', (updateInfo lib os map).run s = .error noColumnsMem s' := by
  obtain ⟨hserved, -⟩ | ⟨-, s', hrun⟩ := @reserveColumns_run os s map.mColcnt hroom
  · rw [h] at hserved
    cases hserved
  · exact ⟨s', run_bind_error hrun _⟩

/-- Where the constructor throws, the structure is still what the stack held. -/
theorem fillRows_unset (hroom : s.info.Roomy) (h : s.Unset lib os map) :
    ∃ what s', (fillRows lib os ev map disp).run s = .error (.thrown what .junk) s' := by
  obtain ⟨hserved, what, hmeta⟩ := h
  have hd : map.described lib = .error (.thrown what .junk) := bind_eq_error.mpr (.inl hmeta)
  obtain ⟨-, s₁, hreserve, hfits⟩ | ⟨hnot, -⟩ := @reserveColumns_run os s map.mColcnt hroom
  · have hrecord := @recordColumns_follows lib s₁ map (fun _ => False) hfits
    rw [hd] at hrecord
    obtain ⟨e, s', hrun, rfl⟩ := hrecord.fails fun _ _ _ hf => hf
    exact ⟨what, s', run_bind_error ((run_bind_ok hreserve _).trans hrun) _⟩
  · rw [hserved] at hnot
    cases hnot

theorem replLogXRowsInit_empty :
    Triple (replLogXRowsInit os ev map disp) s (fun x _ => x.set = {})
      fun e _ => e ≠ .memory → e.Clearable := by
  have hcols : Triple (infoColumns map.mColcnt) s (fun _ _ => True) fun e _ => e = .memory := by
    refine Triple.get_bind ?_
    split
    · split
      · exact Triple.pure trivial
      · exact Triple.throw rfl
    · exact Triple.throw rfl
  refine Triple.bind (hcols.mono (fun _ _ h => h) fun _ _ he hne => absurd he hne) fun cols s₁ _ => ?_
  refine Triple.bind ((requestPtr_triple _).mono (fun _ _ h => h) fun _ _ h => h.elim) fun names s₂ _ => ?_
  refine Triple.bind ((requestPtr_triple _).mono (fun _ _ h => h) fun _ _ h => h.elim) fun types s₃ _ => ?_
  dsimp only
  split
  case isTrue => exact Triple.of_run_error rfl fun _ => ReplLogXRows.whole_of_empty rfl
  case isFalse => exact Triple.pure rfl

theorem fillRows_clearable (hroom : s.info.Roomy) (hunset : ¬ s.Unset lib os map) :
    Triple (fillRows lib os ev map disp) s (fun _ _ => True) fun e _ => e ≠ .memory → e.Clearable := by
  unfold fillRows
  refine Triple.bind (Q := fun _ s' => ∃ cols, cols.length = map.mColcnt ∧
    s'.info.colCount = map.mColcnt ∧ s'.info.Begins cols) ?_ ?_
  · cases hrun : (updateInfo lib os map).run s with
    | ok _ s' =>
      obtain ⟨cols, -, htypes, hcount, hbegins⟩ := updateInfo_follows.ok hrun
      refine Triple.of_run hrun ⟨cols, ?_, hcount, hbegins⟩
      rw [TableMapLogEvent.mColcnt, ← htypes, List.length_map]
    | error e s' =>
      refine Triple.of_run_error hrun fun hne => ?_
      obtain (⟨⟨desc, rfl⟩, -⟩ | ⟨rfl, -⟩) | ⟨_, hd, rfl⟩ := updateInfo_follows.error hrun
      · trivial
      · exact absurd rfl hne
      · obtain ⟨desc, rfl⟩ | ⟨what, rfl, hmeta⟩ := map.described_error hd
        · trivial
        · cases hserved : s.served os map.mColcnt with
          | true => exact absurd ⟨hserved, what, hmeta⟩ hunset
          | false =>
            obtain ⟨s'', hrefused⟩ := @updateInfo_refused lib os s map hroom hserved
            rw [hrun] at hrefused
            cases hrefused
  rintro _ s₁ ⟨cols, hlen, hcount, hbegins⟩
  have hinit := (@replLogXRowsInit_empty os s₁ ev map disp).and (replLogXRowsInit_triple hbegins hlen)
  refine Triple.bind (hinit.mono (fun _ _ h => h) fun _ _ h => h.1) ?_
  rintro x s₂ ⟨hempty, hinfo, -, hx⟩
  have hcall := @callGetRows_run lib os ev map disp s₂ cols x hlen (by rw [hinfo, hcount])
    (hinfo ▸ hbegins) hx
  have hcols : x.colCount = map.mColcnt := by rw [hx]; rfl
  have hspans := @getRows_spans lib os ⟨s₂.heap, x.set⟩ map.mColcnt ev map (map.mColcnt, cols) disp hempty
  cases hr : (getRows lib os ev map map.mColcnt (map.mColcnt, cols) disp).run ⟨s₂.heap, x.set⟩ with
  | ok value t =>
    rw [hr] at hcall
    exact Triple.of_run hcall trivial
  | error e t =>
    rw [hr] at hcall
    cases e with
    | error desc =>
      refine Triple.of_run_error hcall fun _ after => ?_
      have ht := hspans.error hr after
      rwa [← hcols] at ht
    | overread | outOfBlock => exact Triple.of_run_error hcall fun hne => absurd rfl hne

-- ---------------------------------------------------------------------------
-- Requests
-- ---------------------------------------------------------------------------

def FillMinds (os : Allocator) {α : Type} (x : FillM α) : Prop :=
  Minds os FillState.heap (fun e => e = .memory) x

theorem writeColumns_minds (write : List ColInfo → Option (List ColInfo)) :
    FillMinds os (writeColumns write) := by
  refine Minds.get.bind fun s => ?_
  split
  · split
    · exact Minds.modify fun _ => rfl
    · exact Minds.throw _
  · exact Minds.throw _

theorem reserveColumns_minds (count : Nat) : FillMinds os (reserveColumns os count) := by
  have halloc : FillMinds os (allocColumns os count) := by
    refine Minds.bind_checked (Q := fun r : Option Nat => r.isSome = true)
      (fun s => Triple.zoom_granted (g := id) (fun _ _ => rfl) rfl Heap.request_granted) ?_ ?_
    · intro r hr
      obtain ⟨id, rfl⟩ := Option.isSome_iff_exists.mp hr
      exact Minds.modify fun _ => rfl
    · intro r s hr
      obtain rfl := Option.not_isSome_iff_eq_none.mp hr
      exact Triple.of_run_error rfl (by simp)
  refine Minds.get.bind fun s => ?_
  dsimp only
  split
  · exact halloc
  split
  · exact Minds.pure _
  · exact Minds.bind (Minds.zoom (g := id) (fun _ _ => rfl) (fun _ => rfl) (Minds.free _)) fun _ => halloc

theorem storeNames_minds (types : List UInt8) (i : Nat) (names : List (List UInt8))
    (signedness : List Bool) : FillMinds os (storeNames types i names signedness) := by
  induction types generalizing i names signedness with
  | nil => exact Minds.pure _
  | cons type types ih =>
    cases names with
    | nil => exact Minds.pure _
    | cons name names =>
      unfold storeNames
      refine Minds.bind ?_ fun rest => Minds.bind (writeColumns_minds _) fun _ => ih _ _ _
      split
      · split
        · exact Minds.throw _
        · exact Minds.bind (writeColumns_minds _) fun _ => Minds.pure _
      · exact Minds.bind (writeColumns_minds _) fun _ => Minds.pure _

theorem storeTypes_minds (types : List UInt8) (i : Nat) : FillMinds os (storeTypes types i) := by
  induction types generalizing i with
  | nil => exact Minds.pure _
  | cons type types ih => exact Minds.bind (writeColumns_minds _) fun _ => ih _

theorem updateInfo_minds : FillMinds os (updateInfo lib os map) := by
  have hread : FillMinds os (readMetadata lib map) := by
    unfold readMetadata
    split
    · exact Minds.throw _
    · split
      · exact Minds.throw _
      · exact Minds.throw _
      · split
        · exact Minds.throw _
        · exact Minds.pure _
  refine Minds.bind (reserveColumns_minds _) fun _ => Minds.bind ?_ fun _ => ?_
  · exact Minds.bind (Minds.modify fun _ => rfl) fun _ => writeColumns_minds _
  · refine Minds.bind hread fun r => ?_
    exact Minds.bind (storeNames_minds _ _ _ _) fun _ => storeTypes_minds _ _

theorem replLogXRowsInit_minds : FillMinds os (replLogXRowsInit os ev map disp) := by
  have hcols : FillMinds os (infoColumns map.mColcnt) := by
    refine Minds.get.bind fun s => ?_
    split
    · split
      · exact Minds.pure _
      · exact Minds.throw _
    · exact Minds.throw _
  have hrequest {α : Type} (contents : α) (s : FillState) : Triple (requestPtr os contents) s
      (fun p s' => p.isNull = false → s.heap.Granted os s'.heap) fun _ _ => False := by
    refine Triple.bind (Triple.zoom_granted (g := id) (f := FillState.heap) (fun _ _ => rfl) rfl
      Heap.request_granted) fun r s' hr => ?_
    cases r with
    | none => exact Triple.pure fun hnull => by cases hnull
    | some id => exact Triple.pure fun _ => hr rfl
  refine Minds.bind hcols fun cols s => ?_
  refine Triple.bind ((hrequest _ s).mono (fun _ _ h => h) fun _ _ h => h.elim) fun names s₁ hnames => ?_
  refine Triple.bind ((hrequest _ s₁).mono (fun _ _ h => h) fun _ _ h => h.elim) fun types s₂ htypes => ?_
  dsimp only
  split
  case isTrue => exact Triple.of_run_error rfl (by simp)
  case isFalse hnull =>
    obtain ⟨hn, ht⟩ : names.isNull = false ∧ types.isNull = false := by simpa using hnull
    exact Triple.pure ((hnames hn).trans (htypes ht))

theorem callGetRows_minds (x : ReplLogXRows) : FillMinds os (callGetRows lib os ev map x) := by
  intro s
  obtain ⟨cols, hcall⟩ : ∃ cols, (callGetRows lib os ev map x).run s = callResult x s
      ((getRows lib os ev map x.colCount (s.info.colCount, cols) x.displayBlobs).run
        ⟨s.heap, x.set⟩) := by
    simp only [callGetRows, EStateM.run]
    exact ⟨_, rfl⟩
  have hrows := @getRows_minds lib os ev map x.colCount (s.info.colCount, cols) x.displayBlobs
    ⟨s.heap, x.set⟩
  cases hr : (getRows lib os ev map x.colCount (s.info.colCount, cols) x.displayBlobs).run
      ⟨s.heap, x.set⟩ with
  | ok value t =>
    rw [hr] at hcall
    exact Triple.of_run hcall (hrows.ok hr)
  | error e t =>
    rw [hr] at hcall
    cases e with
    | error desc => exact Triple.of_run_error hcall (by simp)
    | overread | outOfBlock => exact Triple.of_run_error hcall fun _ => hrows.error hr trivial

/-- A request that is refused in the `try` block does not go unnoticed. -/
theorem fillRows_minds : FillMinds os (fillRows lib os ev map disp) :=
  Minds.bind updateInfo_minds fun _ => Minds.bind replLogXRowsInit_minds fun _ => callGetRows_minds _

/-- What makes the `try` block fail: the metadata, a row that cannot be decoded, or a
request that is refused. -/
inductive FillState.Fails (lib : Library) (os : Allocator) (ev : RowsLogEvent2) (map : TableMapLogEvent)
    (disp : DisplayBlobs) (s : FillState) : Prop
  | metadata {e} (h : map.described lib = .error e)
  | undecodable (h : fillOutcome lib ev map disp = .error (.rows .rejected))
  | refused {k} (hfrom : s.heap.asked ≤ k)
    (hto : k < (leftBy ((fillRows lib os ev map disp).run s)).heap.asked) (h : os.grant k = false)

theorem fillRows_fails {n : FillEnd} (hroom : s.info.Roomy) (ho : fillOutcome lib ev map disp = .error n)
    (hn : ∀ e, (fillEnds os s.info).agree e n → e ≠ .memory) :
    ∃ e s', (fillRows lib os ev map disp).run s = .error e s' ∧ e ≠ .memory := by
  have hfollows := @fillRows_follows lib os ev map disp s
  rw [ho] at hfollows
  cases hrun : (fillRows lib os ev map disp).run s with
  | ok x s' =>
    obtain ⟨_, hx, -⟩ := hfollows.ok hrun
    cases hx
  | error e s' =>
    refine ⟨e, s', rfl, ?_⟩
    obtain (⟨hne, -⟩ | ⟨-, hroomy⟩) | ⟨_, he, hagree⟩ := hfollows.error hrun
    · exact hne
    · exact absurd hroom hroomy
    · cases he
      exact hn e hagree

theorem FillState.Fails.ends (hroom : s.info.Roomy) (h : s.Fails lib os ev map disp) :
    ∃ e s', (fillRows lib os ev map disp).run s = .error e s' ∧ e ≠ .memory := by
  cases h with
  | @metadata e hd =>
    refine fillRows_fails hroom (n := .info e) ?_ ?_
    · unfold fillOutcome
      rw [hd]
      rfl
    · rintro _ rfl
      obtain ⟨desc, rfl⟩ | ⟨what, rfl, -⟩ := map.described_error hd
      · simp
      · simp
  | undecodable ho =>
    refine fillRows_fails hroom ho ?_
    rintro _ ⟨desc, x, rfl⟩
    simp
  | @refused k hfrom hto hg =>
    have hminds := @fillRows_minds lib os ev map disp s
    have hnot {h' : Heap} (hgranted : s.heap.Granted os h') (hlt : k < h'.asked) : False := by
      rw [hgranted.2 k hfrom hlt] at hg
      cases hg
    cases hrun : (fillRows lib os ev map disp).run s with
    | ok x s' =>
      rw [hrun] at hto
      exact (hnot (hminds.ok hrun) hto).elim
    | error e s' =>
      rw [hrun] at hto
      exact ⟨e, s', rfl, fun he => hnot (hminds.error hrun he) hto⟩

-- ---------------------------------------------------------------------------
-- Handlers
-- ---------------------------------------------------------------------------

theorem clearRows_run {x : ReplLogXRows} (h : x.Whole) :
    ∃ heap, (clearRows x).run w = .ok () { w with heap } := by
  cases hrun : (replLogXRowsClear x).run w.heap with
  | ok _ heap => exact ⟨heap, run_zoom_ok (p := World.heapPart) hrun⟩
  | error c heap => exact ((replLogXRowsClear_ends h w.heap).error hrun).elim

theorem finishRows_reports {e : FillStop} (he : e.Clearable) :
    ∃ s, (finishRows (.error e)).run w = .ok () s ∧ s.error.isSome := by
  cases e with
  | failed desc => exact ⟨_, rfl, rfl⟩
  | thrown desc x | stopped desc x =>
    obtain ⟨heap, hclear⟩ := clearRows_run (w := w) (x := x) he
    exact ⟨_, (run_bind_ok hclear _).trans rfl, rfl⟩
  | memory => exact he.elim

theorem finishRows_unset (what : String) :
    ∃ s, (finishRows (.error (.thrown what .junk))).run w = .error .memory s := ⟨_, rfl⟩

/-- What makes the handling of an event or a heartbeat fail. -/
inductive Handled.Failing (lib : Library) (os : Allocator) (w : World) : Handled → Prop
  | noDescription {when} (h : w.obj.globDescriptionEvent.isNone) : Failing lib os w (.heartbeat when)
  | noMem {when query} (h : os.grant w.heap.asked = false) : Failing lib os w (.event (.query when query))
  | noTableMap {ev isRows} (hstate : w.obj.state = .inprocess) (h : w.obj.mapOf ev = none) :
    Failing lib os w (.event (.rows ev isRows))
  | fill {ev isRows map t} (hd : w.Decodes ev map t)
    (h : FillState.Fails lib os ev map w.obj.disp ⟨w.heap, t.info⟩) : Failing lib os w (.event (.rows ev isRows))

theorem handleRows_noTableMap (isRows : ev.typeCode.firstImage.isSome) (hstate : w.obj.state = .inprocess)
    (h : w.obj.mapOf ev = none) :
    (handleLeaf lib os (.rows ev isRows)).run w = .ok () (w.fail ⟨false, clip 1024 noTableMap⟩) := by
  have hconvert := @convertToHeartbeat_listed { w with error := none } ev.typeCode
    (isRows_listed isRows).1 ev.when
  refine (run_bind_ok (x := clearError) rfl _).trans ((run_bind_ok hconvert _).trans ?_)
  change (processRows lib os ev).run { w with error := none } = _
  unfold processRows Access.processRows
  rw [direct_look_bind]
  simp only [hstate, h, if_true]
  rfl

theorem handleRows_reports {isRows : ev.typeCode.firstImage.isSome} {t : ListeningTable}
    (hroom : t.info.Roomy) (hd : w.Decodes ev map t)
    (h : FillState.Fails lib os ev map w.obj.disp ⟨w.heap, t.info⟩)
    (hunset : ¬ FillState.Unset lib os map ⟨w.heap, t.info⟩) :
    ∃ s, (handleLeaf lib os (.rows ev isRows)).run w = .ok () s ∧ s.error.isSome := by
  obtain ⟨map', t', q, hd', ht, hrun⟩ | ⟨hnot, -⟩ := @handleRows_cases lib os w ev isRows
  · obtain ⟨rfl, rfl⟩ := hd.unique hd'
    obtain ⟨e, s', hfill, hne⟩ := h.ends hroom
    have he := (fillRows_clearable hroom hunset).error hfill hne
    have hresult := @fillTable_result lib os (w.opening ev) ev map' q t' ht
    rw [show (fillRows lib os ev map' (w.opening ev).obj.disp).run ⟨(w.opening ev).heap, t'.info⟩ =
      .error e s' from hfill] at hresult
    obtain ⟨s, hfinish, herr⟩ := finishRows_reports (w := (w.opening ev).refill q t' s') he
    exact ⟨s, hrun.trans ((run_bind_ok hresult _).trans hfinish), herr⟩
  · exact absurd hd (hnot _ _)

theorem handleRows_unset (isRows : ev.typeCode.firstImage.isSome)
    (hroom : ∀ t ∈ w.obj.tables, t.info.Roomy) (h : w.Unset lib os ev) :
    ∃ s, (handleLeaf lib os (.rows ev isRows)).run w = .error .memory s := by
  obtain ⟨map, t, hd, hunset⟩ := h
  obtain ⟨map', t', q, hd', ht, hrun⟩ | ⟨hnot, -⟩ := @handleRows_cases lib os w ev isRows
  · obtain ⟨rfl, rfl⟩ := hd.unique hd'
    obtain ⟨what, s', hfill⟩ := @fillRows_unset lib os _ ev map' w.obj.disp
      (hroom t' (List.mem_of_getElem? ht)) hunset
    have hresult := @fillTable_result lib os (w.opening ev) ev map' q t' ht
    rw [show (fillRows lib os ev map' (w.opening ev).obj.disp).run ⟨(w.opening ev).heap, t'.info⟩ =
      .error _ s' from hfill] at hresult
    obtain ⟨s, hfinish⟩ := finishRows_unset (w := (w.opening ev).refill q t' s') what
    exact ⟨s, hrun.trans ((run_bind_ok hresult _).trans hfinish)⟩
  · exact absurd hd (hnot _ _)

def Handled.Unset (lib : Library) (os : Allocator) (w : World) : Handled → Prop
  | .event (.rows ev _) => w.Unset lib os ev
  | _ => False

/-- A failure is reported when it is found, unless the constructor throws. -/
theorem Handled.Failing.reports {x : Handled} (he : w.error = none)
    (hroom : ∀ t ∈ w.obj.tables, t.info.Roomy) (h : x.Failing lib os w) (hunset : ¬ x.Unset lib os w) :
    ∃ s, (handle lib os x).run w = .ok () s ∧ s.error.isSome := by
  cases h with
  | noDescription h =>
    refine ⟨_, handle_heartbeat _, ?_⟩
    rw [if_pos h]
    rfl
  | noMem h => exact ⟨_, handle_query_noMem he h _ _, rfl⟩
  | noTableMap hstate h => exact ⟨_, handleRows_noTableMap _ hstate h, rfl⟩
  | fill hd h =>
    obtain ⟨q, -, ht⟩ := hd.table
    exact handleRows_reports (hroom _ (List.mem_of_getElem? ht)) hd h fun hu => hunset ⟨_, _, hd, hu⟩

theorem Handled.Unset.crashes {x : Handled} (hroom : ∀ t ∈ w.obj.tables, t.info.Roomy)
    (h : x.Unset lib os w) : ∃ s, (handle lib os x).run w = .error .memory s := by
  cases x with
  | heartbeat when => exact h.elim
  | event ev =>
    cases ev with
    | rows ev isRows => exact handleRows_unset isRows hroom h
    | query | formatDescription | tableMap | rotate | xid | xaPrepareLog | other => exact h.elim

end RplListener
