import RplListener.Listener.Capacity
import RplListener.Listener.Leaks

/-!
# The cache over a history

However the definitions of the watched tables change, the block of a cache has
room for the columns it records, and what comes of a rows event is told by the
event, its table map and the display settings. What the cache held is not.
-/

namespace RplListener

open Bytes Refine

variable {lib : Library} {os : Allocator} {needStop : Nat → Bool} {w w' : World} {s : FillState}
variable {ev : RowsLogEvent2} {map : TableMapLogEvent} {disp : DisplayBlobs}

-- ---------------------------------------------------------------------------
-- Room
-- ---------------------------------------------------------------------------

theorem updateInfo_roomy (h : s.info.Roomy) :
    Triple (updateInfo lib os map) s (fun _ s' => s'.info.Roomy) fun _ s' => s'.info.Roomy := by
  unfold updateInfo
  refine Triple.bind ((reserveColumns_triple map.mColcnt).mono (fun _ _ h => h) fun _ _ h => h.2) ?_
  rintro _ s₁ hroom
  obtain ⟨id, cols, hc, hle⟩ := hroom h
  have hroomy {s' : FillState} (hf : s'.frame = (s₁.heap, map.mColcnt, .block id cols.length)) :
      s'.info.Roomy := by
    simp only [FillState.frame, Prod.mk.injEq] at hf
    rw [TblInfo.roomy_iff, hf.2.2, hf.2.1]
    exact hle
  exact (recordColumns_frame hc hle).mono (fun _ _ => hroomy) fun _ _ => hroomy

theorem replLogXRowsInit_info : Keeps FillState.info (replLogXRowsInit os ev map disp) := by
  have hrequest {α : Type} (contents : α) : Keeps FillState.info (requestPtr os contents) := by
    refine Keeps.bind (Keeps.zoom fun _ _ => rfl) fun r => ?_
    cases r with
    | none => exact .pure _
    | some id => exact .pure _
  have hcols : Keeps FillState.info (infoColumns map.mColcnt) := by
    refine Keeps.get.bind fun s => ?_
    split
    · split
      · exact .pure _
      · exact .throw _
    · exact .throw _
  refine hcols.bind fun cols => (hrequest _).bind fun names => (hrequest _).bind fun types => ?_
  dsimp only
  split
  · refine Keeps.bind (Keeps.zoom fun _ _ => rfl) fun _ => ?_
    exact Keeps.bind (Keeps.zoom fun _ _ => rfl) fun _ => .throw _
  · exact .pure _

theorem callGetRows_info (x : ReplLogXRows) : Keeps FillState.info (callGetRows lib os ev map x) := by
  intro s
  cases hrun : (callGetRows lib os ev map x).run s with
  | ok y s' =>
    refine Triple.of_run hrun ?_
    simp only [callGetRows, EStateM.run] at hrun
    split at hrun <;> cases hrun
    rfl
  | error e s' =>
    refine Triple.of_run_error hrun ?_
    simp only [callGetRows, EStateM.run] at hrun
    split at hrun <;> cases hrun
    · rfl
    · rfl

theorem fillRows_roomy (h : s.info.Roomy) :
    Triple (fillRows lib os ev map disp) s (fun _ s' => s'.info.Roomy) fun _ s' => s'.info.Roomy := by
  refine Triple.bind (updateInfo_roomy h) fun _ s₁ h₁ => ?_
  have hkeeps : Keeps FillState.info (replLogXRowsInit os ev map disp >>= callGetRows lib os ev map) :=
    replLogXRowsInit_info.bind callGetRows_info
  refine (hkeeps s₁).mono ?_ ?_
  · intro _ s' hs
    rw [hs]
    exact h₁
  · intro _ s' hs
    rw [hs]
    exact h₁

-- ---------------------------------------------------------------------------
-- Inside the block
-- ---------------------------------------------------------------------------

/-- Every record that is written or read lies in the block. A write behind it, and a
read of the names, would end as `.memory`; `get_rows` is given the block, and what
follows the columns that are counted makes no difference to it. -/
structure FillState.Inside (lib : Library) (ev : RowsLogEvent2) (map : TableMapLogEvent)
    (disp : DisplayBlobs) (s : FillState) : Prop where
  update : ∀ os s', (updateInfo lib os map).run s ≠ .error .memory s'
  init : ∀ os s₁ s', (updateInfo lib os map).run s = .ok () s₁ →
    (replLogXRowsInit os ev map disp).run s₁ ≠ .error .memory s'
  rows : ∀ os s₁, (updateInfo lib os map).run s = .ok () s₁ →
    ∃ id cols rest, s₁.info.columns = .block id (cols ++ rest) ∧ cols.length = map.mColcnt ∧
      s₁.info.colCount = map.mColcnt ∧ ∀ os rest',
        getRows lib os ev map map.mColcnt (map.mColcnt, cols ++ rest') disp =
          getRows lib os ev map map.mColcnt (map.mColcnt, cols ++ rest) disp

theorem FillState.inside (h : s.info.Roomy) : s.Inside lib ev map disp where
  update os s' hrun := by
    obtain ⟨⟨⟨desc, hfailed⟩, -⟩ | ⟨-, hn⟩⟩ | ⟨_, hd, rfl⟩ := updateInfo_follows.error hrun
    · cases hfailed
    · exact hn h
    · obtain ⟨desc, hfailed⟩ | ⟨what, hthrown, -⟩ := map.described_error hd
      · cases hfailed
      · cases hthrown
  init os s₁ s' hupdate hrun := by
    obtain ⟨cols, -, htypes, -, hbegins⟩ := updateInfo_follows.ok hupdate
    have hlen : cols.length = map.mColcnt := by
      rw [TableMapLogEvent.mColcnt, ← htypes, List.length_map]
    obtain ⟨-, -, x, hx⟩ := (replLogXRowsInit_triple hbegins hlen).error hrun
    cases hx
  rows os s₁ hupdate := by
    obtain ⟨cols, -, htypes, hcount, id, rest, hcols⟩ := updateInfo_follows.ok hupdate
    have hlen : cols.length = map.mColcnt := by
      rw [TableMapLogEvent.mColcnt, ← htypes, List.length_map]
    refine ⟨id, cols, rest, hcols, hlen, hcount, fun os' rest' => ?_⟩
    rw [getRows_append hlen, getRows_append hlen]

-- ---------------------------------------------------------------------------
-- The outcome
-- ---------------------------------------------------------------------------

/-- The result is the one that the event, its table map and the display settings tell:
the structure with these columns and rows, or a failure of this kind. -/
def Answers (lib : Library) (ev : RowsLogEvent2) (map : TableMapLogEvent) (disp : DisplayBlobs)
    (result : Except FillStop ReplLogXRows) : Prop :=
  match fillOutcome lib ev map disp, result with
  | .ok (cols, rows, _), .ok x => x.Holds ev map disp cols rows
  | .error (.info e), .error e' => e' = e
  | .error (.rows .rejected), .error e' => ∃ desc x, e' = .stopped desc x
  | .error (.rows _), .error e' => e' = .memory
  | _, _ => False

/-- With every allocation granted, the cache does not matter. -/
theorem fillRows_answers (hos : os.Succeeds) (hroom : s.info.Roomy) :
    Answers lib ev map disp (resultOf ((fillRows lib os ev map disp).run s)) := by
  have hf := @fillRows_follows lib os ev map disp s
  have hspare (e : FillStop) : ¬ (fillEnds os s.info).spare e := by
    rintro (⟨-, hn⟩ | ⟨-, hn⟩)
    · exact hn hos
    · exact hn hroom
  unfold Answers
  cases ho : fillOutcome lib ev map disp with
  | ok r =>
    obtain ⟨x, s', hrun, hx⟩ := (ho ▸ hf).reaches fun e _ _ => hspare e
    rw [hrun]
    exact hx
  | error e =>
    obtain ⟨e', s', hrun, hagree⟩ := (ho ▸ hf).fails fun e _ _ => hspare e
    rw [hrun]
    cases e with
    | info e => exact hagree
    | rows v =>
      cases v with
      | rejected => exact hagree
      | overread | outOfBlock => exact hagree

-- ---------------------------------------------------------------------------
-- Histories
-- ---------------------------------------------------------------------------

structure World.Cached (disp : DisplayBlobs) (w : World) : Prop where
  roomy : ∀ t ∈ w.obj.tables, t.info.Roomy
  disp : w.obj.disp = disp

theorem World.Cached.refill {q : Nat} {t : ListeningTable} (h : w.Cached disp)
    (hr : s.info.Roomy) : (w.refill q t s).Cached disp := by
  refine ⟨fun t' ht' => ?_, h.disp⟩
  obtain ht' | rfl := List.mem_or_eq_of_mem_set ht'
  · exact h.roomy t' ht'
  · exact hr

theorem finishRows_obj (result : Except FillStop ReplLogXRows) :
    Keeps World.obj (finishRows result) := by
  have hclear (x : ReplLogXRows) : Keeps World.obj (clearRows x) := Keeps.zoom fun _ _ => rfl
  have hset (desc : String) : Keeps World.obj (setError desc) := Keeps.modify fun _ => rfl
  have hcall (registered : Bool) (c : Call) : Keeps World.obj (call registered c) := by
    unfold call
    split
    · exact Keeps.modify fun _ => rfl
    · exact .throw _
  have hlook : Keeps World.obj direct.look := fun w => Triple.of_run (a := w.obj) rfl rfl
  cases result with
  | ok x =>
    refine hlook.bind fun o => ?_
    dsimp only
    split
    · exact (hcall _ _).bind fun _ => hclear x
    · exact hclear x
  | error e =>
    cases e with
    | failed desc => exact hset desc
    | thrown what x => exact (hclear x).bind fun _ => hset what
    | stopped desc x => exact (hclear x).bind fun _ => hset desc
    | memory => exact .throw _

theorem fillTable_cached {q : Nat} {t : ListeningTable} (ht : w.obj.tables[q]? = some t)
    (h : w.Cached disp) :
    Triple (do let result ← fillTable lib os ev map q; finishRows result) w
      (fun _ w' => w'.Cached disp) fun _ w' => w'.Cached disp := by
  have hfill := @fillRows_roomy lib os ⟨w.heap, t.info⟩ ev map w.obj.disp
    (h.roomy t (List.mem_of_getElem? ht))
  have hend {result : Except FillStop ReplLogXRows} {w₁ : World} (h₁ : w₁.Cached disp) :
      Triple (finishRows result) w₁ (fun _ w' => w'.Cached disp) fun _ w' => w'.Cached disp := by
    have hobj {w' : World} (ho : w'.obj = w₁.obj) : w'.Cached disp :=
      ⟨ho ▸ h₁.roomy, by rw [ho, h₁.disp]⟩
    exact (finishRows_obj result w₁).mono (fun _ _ => hobj) fun _ _ => hobj
  refine Triple.bind_run (fillTable_result ht) (hend (h.refill ?_))
  cases hrun : (fillRows lib os ev map w.obj.disp).run ⟨w.heap, t.info⟩ with
  | ok x s' => exact hfill.ok hrun
  | error e s' => exact hfill.error hrun

theorem Step.cached {x : Handled} (h : Step os w x w') (hx : ∀ ev isRows, x ≠ .event (.rows ev isRows))
    (hw : w.Cached disp) : w'.Cached disp := by
  cases h with
  | rows => exact absurd rfl (hx _ _)
  | @other type =>
    cases type.isGtid
    · exact ⟨hw.roomy, hw.disp⟩
    · exact ⟨hw.roomy, hw.disp⟩
  | noMem | opens | commits | closes | query | formatDescription | tableMap | rotate | xid
    | xaPrepareLog | noDescription | heartbeat => exact ⟨hw.roomy, hw.disp⟩

/-- What is found in a history: whatever was handled before, the caches have room. -/
theorem cached_invariant : Invariant lib os
    (fun w vs => w.Cached disp ∧ ∀ v ∈ vs, v.2.Cached disp) (fun _ => True)
    fun _ _ vs => ∀ v ∈ vs, v.2.Cached disp where
  rpl _ h := ⟨⟨h.1.roomy, h.1.disp⟩, h.2⟩
  fail _ h := ⟨⟨h.1.roomy, h.1.disp⟩, h.2⟩
  memory h := h.2
  step {w vs} x he h _ := by
    have hvisited : ∀ v ∈ vs ++ [(x, w)], v.2.Cached disp := by
      intro v hv
      obtain hv | hv := List.mem_append.mp hv
      · exact h.2 v hv
      · rw [List.mem_singleton.mp hv]
        exact h.1
    have hother (hx : ∀ ev isRows, x ≠ .event (.rows ev isRows)) : Triple (handle lib os x) w
        (fun _ w' => w'.Cached disp ∧ ∀ v ∈ vs ++ [(x, w)], v.2.Cached disp)
        fun _ _ => ∀ v ∈ vs ++ [(x, w)], v.2.Cached disp :=
      (handle_step he x).mono (fun _ _ hs => ⟨hs.cached hx h.1, hvisited⟩) fun _ _ _ => hvisited
    cases x with
    | heartbeat when => exact hother (by simp)
    | event ev =>
      cases ev with
      | rows ev isRows =>
        obtain ⟨map, t, q, hd, ht, hrun⟩ | ⟨-, error, hrun⟩ := @handleRows_cases lib os w ev isRows
        · have hw : (w.opening ev).Cached disp := ⟨h.1.roomy, h.1.disp⟩
          have hrows := @fillTable_cached lib os (w.opening ev) ev map disp q t ht hw
          refine (Triple.congr hrun).mpr (hrows.mono ?_ ?_)
          · exact fun _ _ hw' => ⟨hw', hvisited⟩
          · exact fun _ _ _ => hvisited
        · exact Triple.of_run hrun ⟨⟨h.1.roomy, h.1.disp⟩, hvisited⟩
      | query | formatDescription | tableMap | rotate | xid | xaPrepareLog | other =>
        exact hother (by simp)

theorem loopVisits_cached {packets : List Packet} {k : Nat} {v : Visit} (he : w.error = none)
    (hw : w.Cached disp) (hv : v ∈ loopVisits lib os needStop k packets w) : v.2.Cached disp := by
  have hrun : Triple (replicationLoop lib os needStop k packets) w _ _ :=
    (@cached_invariant lib os disp).replicationLoop (h := []) packets k he ⟨hw, by simp⟩
      fun _ _ => trivial
  rw [List.nil_append] at hrun
  unfold Triple at hrun
  split at hrun
  · exact hrun.2 v hv
  · exact hrun v hv

/-- In every history, with every growth and shrinking of the tables: the records of the
cache are accessed inside of its block, and the result of a rows event whose allocations
succeed is told by the event, its table map and the display settings. -/
theorem cache_never_stale {packets : List Packet} {k : Nat} {v : Visit}
    {isRows : ev.typeCode.firstImage.isSome} {t : ListeningTable} (he : w.error = none)
    (hroom : ∀ t ∈ w.obj.tables, t.info.Roomy) (hv : v ∈ loopVisits lib os needStop k packets w)
    (hev : v.1 = .event (.rows ev isRows)) (hd : v.2.Decodes ev map t) :
    FillState.Inside lib ev map w.obj.disp ⟨v.2.heap, t.info⟩ ∧
      ∀ os' : Allocator, os'.Succeeds → ∃ q s' result, Answers lib ev map w.obj.disp result ∧
        (handle lib os' v.1).run v.2 = (finishRows result).run ((v.2.opening ev).refill q t s') := by
  obtain ⟨hroomy, hdisp⟩ := @loopVisits_cached lib os needStop w w.obj.disp packets k v he ⟨hroom, rfl⟩ hv
  obtain ⟨q₀, hq₀, ht₀⟩ := hd.table
  have hinfo : t.info.Roomy := hroomy t (List.mem_of_getElem? ht₀)
  refine ⟨FillState.inside hinfo, fun os' hos => ?_⟩
  obtain ⟨map', t', q, hd', ht, hrun⟩ | ⟨hnot, -⟩ := @handleRows_cases lib os' v.2 ev isRows
  · obtain ⟨rfl, rfl⟩ := hd.unique hd'
    have hanswers := @fillRows_answers lib os' ⟨v.2.heap, t'.info⟩ ev map' v.2.obj.disp hos hinfo
    have hfill := @fillTable_result lib os' (v.2.opening ev) ev map' q t' ht
    rw [hev, ← hdisp]
    exact ⟨q, _, _, hanswers, hrun.trans (run_bind_ok hfill _)⟩
  · exact absurd hd (hnot map t)

theorem cache_never_stale_sample : ∃ q s' result,
    Answers sampleLibrary sampleInsert sampleTable ⟨true, false, false⟩ result ∧
    (handle sampleLibrary sampleAllocator (.event sampleRows)).run ((mappedWorld sampleTable).withSize 32) =
      (finishRows result).run ((((mappedWorld sampleTable).withSize 32).opening sampleInsert).refill q
        sampleListening s') := by
  have hd : ((mappedWorld sampleTable).withSize 32).Decodes sampleInsert sampleTable sampleListening :=
    ⟨rfl, rfl, 0, by decide +kernel, rfl⟩
  exact (@cache_never_stale sampleLibrary sampleAllocator (fun _ => false) (mappedWorld sampleTable)
    sampleInsert sampleTable [samplePacket sampleRows] 0
    (.event sampleRows, (mappedWorld sampleTable).withSize 32) rfl sampleListening rfl
    mappedWorld_sound.roomy List.mem_cons_self rfl hd).2 sampleAllocator fun _ => rfl

end RplListener
