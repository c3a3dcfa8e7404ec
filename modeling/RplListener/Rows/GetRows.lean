import RplListener.Rows.RowsFollows

/-!
# A whole event

`getRows` follows `scanEvent`: the checks before the first image, then the walk
over the images. A success has filled the row set with the rows of the walk.
-/

namespace RplListener

open Bytes Refine

variable {lib : Library} {os : Allocator} {s : RowsState}

structure RowsCall where
  ev : RowsLogEvent2
  map : TableMapLogEvent
  /-- The cached information of the columns, and their count. -/
  info : Nat × List ColInfo
  disp : DisplayBlobs

namespace RowsCall

variable (c : RowsCall)

def args : RowsArgs :=
  { td := c.map.tableDef, typeCode := c.ev.typeCode, colCount := c.map.mColcnt
    colInfo := c.info.2, disp := c.disp }

def update : Bool := c.ev.typeCode.firstImage == some .updateBI

def accepted : Bool :=
  c.ev.typeCode.firstImage.isSome && !ndbInfoShort c.ev && c.info.1 == c.map.mColcnt

/-- What the caller promises: the cache has an entry for each of its columns. -/
def Cached : Prop := c.info.1 ≤ c.info.2.length

end RowsCall

/-- The rows of the event, and where the walk over them stops. -/
def scanEvent (lib : Library) (c : RowsCall) : Scan (List Row × Nat) :=
  if c.accepted then
    scanRows lib c.ev.mRowsBuf c.args c.update c.ev.mCols c.ev.mColsAi c.ev.mRowsBuf.length 0
  else .error .rejected

theorem setTypeCode_run {t : LogEventType} {first : RowImageType} (h : t.firstImage = some first) :
    (setTypeCode t).run s = .ok first { s with set := { s.set with typeCode := first.typeCode } } ∧
      first ≠ .updateAI := by
  unfold LogEventType.firstImage at h
  unfold setTypeCode
  split at h <;> cases h <;> simp only [*] <;> exact ⟨rfl, by decide⟩

theorem setTypeCode_run_error {t : LogEventType} (h : t.firstImage = none) :
    (setTypeCode t).run s = .error (.error "unknown general_type_code") s := by
  unfold LogEventType.firstImage at h
  unfold setTypeCode
  cases hg : t.general <;> rw [hg] at h <;> first | rfl | cases h

theorem failIf_false (e : Halt) : (failIf false e).run s = .ok () s := rfl

theorem failIf_true (e : Halt) : (failIf true e).run s = .error e s := rfl

theorem attempt_zoom_triple :
    Triple (zoom RowsState.heapPart (Heap.attempt os) : RowsM Bool) s
      (fun r s' => s'.set = s.set ∧ (r = false → ¬ os.Succeeds)) fun _ _ => False := by
  refine (Triple.zoom (Heap.attempt_triple (E := fun _ _ => False))).mono ?_ ?_
  · rintro r s' ⟨h', hr, rfl⟩
    exact ⟨rfl, hr⟩
  · rintro e s' ⟨h', he, -⟩
    exact he

theorem RowsCall.Cached.args {c : RowsCall} (h : c.Cached) (hcount : c.info.1 = c.map.mColcnt) :
    c.args.Sound where
  colCount := c.map.columns_length.symm
  colInfo := by
    have hinfo : c.info.1 ≤ c.info.2.length := h
    rw [hcount] at hinfo
    exact c.map.columns_length.le.trans hinfo

theorem images_follows {c : RowsCall} {first : RowImageType} (hc : c.Cached)
    (hcount : c.info.1 = c.map.mColcnt) (hfirst : c.ev.typeCode.firstImage = some first)
    (htype : s.set.typeCode = first.typeCode)
    (hset : RowSetOf c.map.mColcnt (first == .updateBI) [] s.set) :
    Follows (rowsHalts os)
      (do
        let value ← (if first = .writeAI ∧ c.ev.mRowsBuf = [] then pure 0
          else imageLoop lib os c.ev.mRowsBuf c.args first c.ev.mCols c.ev.mColsAi
            c.ev.mRowsBuf.length 0)
        replLogXRowsFinish os c.map.mColcnt
        pure value) s
      (scanRows lib c.ev.mRowsBuf c.args c.update c.ev.mCols c.ev.mColsAi c.ev.mRowsBuf.length 0)
      fun v s' r => v = r.2 ∧ (∃ f, some first = some f ∧ s'.set.typeCode = f.typeCode) ∧
        Delivered c.map.mColcnt c.update r.1 s'.set := by
  have hup : c.update = (first == .updateBI) := by rw [RowsCall.update, hfirst]; rfl
  have hloop : Follows (rowsHalts os) (imageLoop lib os c.ev.mRowsBuf c.args first c.ev.mCols
      c.ev.mColsAi c.ev.mRowsBuf.length 0) s _ _ := imageLoop_follows
    (hc.args hcount) c.ev.size_lt (setTypeCode_run (s := s) hfirst).2 hset (Nat.le_refl 0)
  rw [← hup] at hloop
  refine Follows.then_silent (Q := fun v s' r => v = r.2 ∧ s'.set.typeCode = s.set.typeCode ∧
    RowSetOf c.map.mColcnt c.update r.1 s'.set) ?_ ?_
  · split
    case isTrue hempty =>
      -- The loop would not make a turn either.
      have hscan : scanRows lib c.ev.mRowsBuf c.args c.update c.ev.mCols c.ev.mColsAi
          c.ev.mRowsBuf.length 0 = .ok ([], 0) := by rw [hempty.2]; rfl
      rw [hscan]
      exact Follows.pure ⟨rfl, rfl, hup ▸ hset⟩
    case isFalse =>
      refine hloop.mono ?_
      rintro v s' ⟨rows, stop⟩ ⟨rfl, htype', h'⟩
      rw [List.nil_append] at h'
      exact ⟨rfl, htype', h'⟩
  · rintro v s' ⟨rows, stop⟩ ⟨rfl, htype', h'⟩
    refine Triple.bind (finish_triple h' fun hbi => ?_) ?_
    · rw [hup] at hbi
      rw [htype', htype, show first = .updateBI by simpa using hbi]
      rfl
    · rintro _ s'' ⟨hd, ht⟩
      exact Triple.pure ⟨rfl, ⟨first, rfl, by rw [ht, htype', htype]⟩, hd⟩

theorem scanEvent_of_not {c : RowsCall} (h : c.accepted = false) :
    scanEvent lib c = .error .rejected := by
  rw [scanEvent, h]
  rfl

theorem scanEvent_rows {c : RowsCall} {x : List Row × Nat} (h : scanEvent lib c = .ok x) :
    scanRows lib c.ev.mRowsBuf c.args c.update c.ev.mCols c.ev.mColsAi c.ev.mRowsBuf.length 0 =
      .ok x := by
  unfold scanEvent at h
  split at h
  · exact h
  · cases h

variable (lib os) in
/-- A call on a fresh row set ends as the walk over the event does. -/
theorem getRows_follows {c : RowsCall} (hc : c.Cached) (hs : s.set.rowsCount = 0) :
    Follows (rowsHalts os) (getRows lib os c.ev c.map c.map.mColcnt c.info c.disp) s (scanEvent lib c)
      fun v s' r => v = r.2 ∧ (∃ first, c.ev.typeCode.firstImage = some first ∧
        s'.set.typeCode = first.typeCode) ∧ Delivered c.map.mColcnt c.update r.1 s'.set := by
  have hacc : c.accepted = (c.ev.typeCode.firstImage.isSome && !ndbInfoShort c.ev &&
    c.info.1 == c.map.mColcnt) := rfl
  unfold getRows
  cases hfirst : c.ev.typeCode.firstImage with
  | none =>
    rw [scanEvent_of_not (by rw [hacc, hfirst]; rfl)]
    exact Follows.bind_error (setTypeCode_run_error hfirst) rfl
  | some first =>
    rw [hfirst] at hacc
    refine Follows.bind_run (setTypeCode_run hfirst).1 ?_
    generalize hs₁ : ({ s with set := { s.set with typeCode := first.typeCode } } : RowsState) = s₁
    cases hndb : ndbInfoShort c.ev with
    | true =>
      rw [scanEvent_of_not (by rw [hacc, hndb]; rfl)]
      exact Follows.bind_error (failIf_true _) rfl
    | false =>
      rw [hndb] at hacc
      refine Follows.bind_run (failIf_false _) ?_
      refine Follows.bind_silent (attempt_zoom_triple.mono (fun _ _ h => h) fun _ _ h => h.elim) ?_
      rintro created s₂ ⟨hs₂, hcreated⟩
      cases created with
      | false => exact Follows.of_run_spare (run_bind_error (failIf_true _) _) ⟨rfl, hcreated rfl⟩
      | true =>
        refine Follows.bind_run (failIf_false _) ?_
        by_cases hcount : c.info.1 = c.map.mColcnt
        case neg =>
          rw [scanEvent_of_not (by rw [hacc]; simpa using hcount), decide_eq_true hcount]
          exact Follows.bind_error (failIf_true _) rfl
        have hscan : scanEvent lib c = scanRows lib c.ev.mRowsBuf c.args c.update c.ev.mCols
            c.ev.mColsAi c.ev.mRowsBuf.length 0 := if_pos (by rw [hacc]; simpa using hcount)
        rw [decide_eq_false (not_not_intro hcount), hscan]
        refine Follows.bind_run (failIf_false _) ?_
        have htype : s₂.set.typeCode = first.typeCode := by rw [hs₂, ← hs₁]
        have hset : RowSetOf c.map.mColcnt (first == .updateBI) [] s₂.set :=
          ⟨by rw [hs₂, ← hs₁]; exact hs, .inl rfl, fun _ => .inl rfl⟩
        exact images_follows hc hcount hfirst htype hset

end RplListener
