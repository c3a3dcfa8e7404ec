import RplListener.Lib.Owned
import RplListener.Listener.FillFollows

/-!
# The block of the column cache

The cache holds one block, and its recorded count never exceeds the room in it,
whichever way an update ends. What an update does is told by three things: a
block that is large enough or can be had, what the table map describes, and the
requests that were made.
-/

namespace RplListener

open Bytes Refine

variable {lib : Library} {os : Allocator} {s : FillState} {base : List Nat}
variable {map : TableMapLogEvent} {count : Nat}

-- ---------------------------------------------------------------------------
-- The block stays
-- ---------------------------------------------------------------------------

def columnsShape : Ptr (List ColInfo) → Ptr Nat
  | .null => .null
  | .wild => .wild
  | .block id cols => .block id cols.length

/-- What the writes into the records leave alone. -/
def FillState.frame (s : FillState) : Heap × Nat × Ptr Nat :=
  (s.heap, s.info.colCount, columnsShape s.info.columns)

theorem columnsShape_ids (p : Ptr (List ColInfo)) : (columnsShape p).ids = p.ids := by cases p <;> rfl

theorem TblInfo.roomy_iff {info : TblInfo} :
    info.Roomy ↔ match columnsShape info.columns with
      | .null => True
      | .wild => False
      | .block _ l => info.colCount ≤ l := by
  unfold TblInfo.Roomy
  cases info.columns <;> rfl

theorem TblInfo.Roomy.tame {info : TblInfo} (h : info.Roomy) : info.columns.Tame := by
  intro hw
  unfold TblInfo.Roomy at h
  rw [hw] at h
  exact h

structure FillState.Sound (base : List Nat) (s : FillState) : Prop where
  roomy : s.info.Roomy
  owned : s.heap.Owned (s.info.columns.ids ++ base)

theorem FillState.Sound.of_frame {s' : FillState} (h : s.Sound base) (hf : s'.frame = s.frame) :
    s'.Sound base := by
  simp only [FillState.frame, Prod.mk.injEq] at hf
  obtain ⟨hheap, hcount, hshape⟩ := hf
  refine ⟨?_, ?_⟩
  · have hr := h.roomy
    rw [TblInfo.roomy_iff] at hr ⊢
    rwa [hcount, hshape]
  · rw [hheap, ← columnsShape_ids, hshape, columnsShape_ids]
    exact h.owned

theorem writeColumns_keeps {write : List ColInfo → Option (List ColInfo)}
    (hw : ∀ cols cols', write cols = some cols' → cols'.length = cols.length) :
    Keeps FillState.frame (writeColumns write) := by
  intro s
  refine Triple.get_bind ?_
  split
  case h_1 id cols hc =>
    split
    case h_1 cols' hcols =>
      refine Triple.of_run (a := ()) rfl ?_
      simp [FillState.frame, columnsShape, hc, hw cols cols' hcols]
    case h_2 => exact Triple.throw rfl
  case h_2 => exact Triple.throw rfl

theorem modifyColumn_keeps (i : Nat) (f : ColInfo → ColInfo) :
    Keeps FillState.frame (modifyColumn i f) := by
  refine writeColumns_keeps fun cols cols' h => ?_
  split at h
  · cases h
    exact List.length_modify ..
  · cases h

theorem storeNames_keeps (types : List UInt8) (i : Nat) (names : List (List UInt8))
    (signedness : List Bool) : Keeps FillState.frame (storeNames types i names signedness) := by
  induction types generalizing i names signedness with
  | nil => exact .pure _
  | cons type types ih =>
    cases names with
    | nil => exact .pure _
    | cons name names =>
      unfold storeNames
      refine Keeps.bind ?_ fun rest => Keeps.bind (modifyColumn_keeps _ _) fun _ => ih _ _ _
      split
      · split
        · exact .throw _
        · exact (modifyColumn_keeps _ _).bind fun _ => .pure _
      · exact (modifyColumn_keeps _ _).bind fun _ => .pure _

theorem storeTypes_keeps (types : List UInt8) (i : Nat) :
    Keeps FillState.frame (storeTypes types i) := by
  induction types generalizing i with
  | nil => exact .pure _
  | cons type types ih => exact (modifyColumn_keeps _ _).bind fun _ => ih _

theorem readMetadata_keeps : Keeps FillState.frame (readMetadata lib map) := by
  intro s
  have hrun := @readMetadata_run lib s map
  cases hm : map.metadata lib with
  | ok r =>
    rw [hm] at hrun
    exact Triple.of_run hrun rfl
  | error e =>
    rw [hm] at hrun
    exact Triple.of_run_error hrun rfl

-- ---------------------------------------------------------------------------
-- Room for the columns
-- ---------------------------------------------------------------------------

def TblInfo.keeps (info : TblInfo) (count : Nat) : Bool :=
  !info.columns.isNull && decide (count ≤ info.colCount)

def TblInfo.asks (info : TblInfo) (count : Nat) : Nat := if info.keeps count then 0 else 1

def FillState.served (os : Allocator) (s : FillState) (count : Nat) : Bool :=
  s.info.keeps count || os.grant s.heap.asked

def TblInfo.Fits (info : TblInfo) (count : Nat) : Prop :=
  ∃ id cols, info.columns = .block id cols ∧ count ≤ cols.length

def noColumnsMem : FillStop := .failed "mem allocation error when store columns info!!!"

theorem request_fill_granted (hg : os.grant s.heap.asked = true) :
    (zoom FillState.heapPart (Heap.request os) : FillM (Option Nat)).run s =
      .ok (some s.heap.asked) { s with heap := s.heap.granted } :=
  run_zoom_ok (Heap.request_run_granted hg)

theorem request_fill_refused (hg : os.grant s.heap.asked = false) :
    (zoom FillState.heapPart (Heap.request os) : FillM (Option Nat)).run s =
      .ok none { s with heap := s.heap.refused } := run_zoom_ok (Heap.request_run_refused hg)

theorem allocColumns_cases (ho : s.heap.Owned base) :
    (os.grant s.heap.asked = true ∧ ∃ s', (allocColumns os count).run s = .ok () s' ∧
        s'.info.Fits count ∧ s'.heap.Owned (s'.info.columns.ids ++ base) ∧
        s'.heap.asked = s.heap.asked + 1) ∨
      os.grant s.heap.asked = false ∧ ∃ s', (allocColumns os count).run s = .error noColumnsMem s' ∧
        s'.info.columns = .null ∧ s'.heap.Owned base ∧ s'.heap.asked = s.heap.asked + 1 := by
  unfold allocColumns
  cases hg : os.grant s.heap.asked with
  | true =>
    refine .inl ⟨rfl, ?_⟩
    rw [run_bind_ok (request_fill_granted hg)]
    exact ⟨_, rfl, ⟨_, _, rfl, by simp⟩, ho.granted, rfl⟩
  | false =>
    refine .inr ⟨rfl, ?_⟩
    rw [run_bind_ok (request_fill_refused hg)]
    exact ⟨_, rfl, rfl, ho.refused, rfl⟩

theorem Heap.free_asked {α : Type} (p : Ptr α) (h : Heap) :
    ∃ h', (Heap.free p : EStateM FillStop Heap Unit).run h = .ok () h' ∧ h'.asked = h.asked := by
  refine ⟨_, rfl, ?_⟩
  cases p with
  | null | wild => rfl
  | block id c => dsimp only; split <;> rfl

/-- The block is kept, or a new one is asked for when the old one is gone. -/
theorem reserveColumns_eq (hr : s.info.Roomy) :
    (s.info.keeps count = true ∧ s.info.Fits count ∧ (reserveColumns os count).run s = .ok () s) ∨
      s.info.keeps count = false ∧ ∃ h', (Heap.free s.info.columns : EStateM FillStop Heap Unit).run
          s.heap = .ok () h' ∧ h'.asked = s.heap.asked ∧
        (reserveColumns os count).run s = (allocColumns os count).run { s with heap := h' } := by
  unfold TblInfo.Roomy at hr
  cases hc : s.info.columns with
  | wild =>
    rw [hc] at hr
    exact hr.elim
  | null =>
    refine .inr ⟨by simp [TblInfo.keeps, hc], s.heap, rfl, rfl, ?_⟩
    unfold reserveColumns
    rw [run_get_bind]
    simp only [hc, Ptr.isNull_null, if_true]
  | block id cols =>
    rw [hc] at hr
    have hnull : s.info.columns.isNull = false := by rw [hc]; rfl
    by_cases hle : count ≤ s.info.colCount
    · refine .inl ⟨by simp [TblInfo.keeps, hnull, hle], ⟨id, cols, hc, hle.trans hr⟩, ?_⟩
      unfold reserveColumns
      rw [run_get_bind]
      simp only [hnull, Bool.false_eq_true, if_false]
      rw [if_pos hle]
      rfl
    · obtain ⟨h', hfree, hasked⟩ := Heap.free_asked s.info.columns s.heap
      refine .inr ⟨by simp [TblInfo.keeps, hle], h', hc ▸ hfree, hasked, ?_⟩
      have hzoom : (zoom FillState.heapPart (Heap.free s.info.columns) : FillM Unit).run s =
          .ok () { s with heap := h' } := run_zoom_ok hfree
      unfold reserveColumns
      rw [run_get_bind]
      simp only [hnull, Bool.false_eq_true, if_false]
      rw [if_neg hle, run_bind_ok hzoom]

theorem reserveColumns_run (hr : s.info.Roomy) :
    (s.served os count = true ∧ ∃ s', (reserveColumns os count).run s = .ok () s' ∧ s'.info.Fits count) ∨
      s.served os count = false ∧ ∃ s', (reserveColumns os count).run s = .error noColumnsMem s' := by
  obtain ⟨hk, hfits, hrun⟩ | ⟨hk, h', -, hasked, hrun⟩ := @reserveColumns_eq os s count hr
  · exact .inl ⟨by simp [FillState.served, hk], s, hrun, hfits⟩
  · rw [hrun, FillState.served, hk, Bool.false_or, ← hasked]
    unfold allocColumns
    cases hg : os.grant h'.asked with
    | true =>
      rw [run_bind_ok (request_fill_granted (s := { s with heap := h' }) hg)]
      exact .inl ⟨rfl, _, rfl, _, _, rfl, by simp⟩
    | false =>
      rw [run_bind_ok (request_fill_refused (s := { s with heap := h' }) hg)]
      exact .inr ⟨rfl, _, rfl⟩

theorem reserveColumns_cases (h : s.Sound base) :
    (s.served os count = true ∧ ∃ s', (reserveColumns os count).run s = .ok () s' ∧
        s'.info.Fits count ∧ s'.heap.Owned (s'.info.columns.ids ++ base) ∧
        s'.heap.asked = s.heap.asked + s.info.asks count) ∨
      s.served os count = false ∧ ∃ s', (reserveColumns os count).run s = .error noColumnsMem s' ∧
        s'.Sound base := by
  obtain ⟨hk, hfits, hrun⟩ | ⟨hk, h', hfree, hasked, hrun⟩ := @reserveColumns_eq os s count h.roomy
  · refine .inl ⟨by simp [FillState.served, hk], s, hrun, hfits, h.owned, ?_⟩
    simp [TblInfo.asks, hk]
  · obtain ⟨h'', hfree', ho, -⟩ := Heap.free_run (ε := FillStop) h.roomy.tame h.owned
    obtain rfl : h' = h'' := by
      rw [hfree] at hfree'
      cases hfree'
      rfl
    have hasks : s.info.asks count = 1 := by simp [TblInfo.asks, hk]
    rw [hrun, FillState.served, hk, Bool.false_or, hasks, ← hasked]
    obtain h | ⟨hg, s', herror, hnull, ho', -⟩ :=
      @allocColumns_cases os { s with heap := h' } base count ho
    · exact .inl h
    · refine .inr ⟨hg, s', herror, ?_, ?_⟩
      · rw [TblInfo.roomy_iff, hnull]
        trivial
      · rw [hnull]
        exact ho'

theorem recordColumns_frame {id : Nat} {cols : List ColInfo} (hc : s.info.columns = .block id cols)
    (hle : map.mColcnt ≤ cols.length) :
    Triple (do
        clearColumns map.mColcnt
        let (names, signedness) ← readMetadata lib map
        storeNames map.mColtype 0 names signedness
        storeTypes map.mColtype 0) s
      (fun _ s' => s'.frame = (s.heap, map.mColcnt, .block id cols.length))
      fun _ s' => s'.frame = (s.heap, map.mColcnt, .block id cols.length) := by
  have hlen : (List.replicate map.mColcnt ColInfo.zero ++ cols.drop map.mColcnt).length =
      cols.length := by
    rw [List.length_append, List.length_replicate, List.length_drop]
    omega
  have hkeeps : Keeps FillState.frame (do
      let (names, signedness) ← readMetadata lib map
      storeNames map.mColtype 0 names signedness
      storeTypes map.mColtype 0) :=
    readMetadata_keeps.bind fun r => (storeNames_keeps _ _ _ _).bind fun _ => storeTypes_keeps _ _
  rw [← hlen]
  exact Triple.bind_run (clearColumns_run hc hle) (hkeeps _)

theorem recordColumns_sound (hfits : s.info.Fits map.mColcnt)
    (ho : s.heap.Owned (s.info.columns.ids ++ base)) :
    Triple (do
        clearColumns map.mColcnt
        let (names, signedness) ← readMetadata lib map
        storeNames map.mColtype 0 names signedness
        storeTypes map.mColtype 0) s
      (fun _ s' => s'.Sound base ∧ s'.heap.asked = s.heap.asked)
      fun _ s' => s'.Sound base ∧ s'.heap.asked = s.heap.asked := by
  obtain ⟨id, cols, hc, hle⟩ := hfits
  rw [hc] at ho
  have hsound : FillState.Sound base
      { s with info := { colCount := map.mColcnt, columns := .block id cols } } := ⟨hle, ho⟩
  have hframe {s' : FillState} (h : s'.frame = (s.heap, map.mColcnt, .block id cols.length)) :
      s'.Sound base ∧ s'.heap.asked = s.heap.asked :=
    ⟨hsound.of_frame h, congrArg (fun f => f.1.asked) h⟩
  exact (recordColumns_frame hc hle).mono (fun _ _ => hframe) fun _ _ => hframe

theorem updateInfo_cases (h : s.Sound base) :
    (s.served os map.mColcnt = false ∧ ∃ s', (updateInfo lib os map).run s = .error noColumnsMem s' ∧
        s'.Sound base) ∨
      s.served os map.mColcnt = true ∧
        ((∃ e s', map.described lib = .error e ∧ (updateInfo lib os map).run s = .error e s' ∧
            s'.Sound base) ∨
          ∃ cols s', map.described lib = .ok cols ∧ (updateInfo lib os map).run s = .ok () s' ∧
            s'.Sound base ∧ s'.heap.asked = s.heap.asked + s.info.asks map.mColcnt ∧
            cols.map ColInfo.type = map.mColtype ∧ s'.info.colCount = map.mColcnt ∧
            s'.info.Begins cols) := by
  unfold updateInfo
  obtain ⟨hs, s₁, hrun, hfits, ho, hasked⟩ | ⟨hs, s', hrun, h'⟩ :=
    @reserveColumns_cases os s base map.mColcnt h
  · refine .inr ⟨hs, ?_⟩
    rw [run_bind_ok hrun]
    have hsound := @recordColumns_sound lib s₁ base map hfits ho
    have hfollows := @recordColumns_follows lib s₁ map (fun _ => False) hfits
    cases hr : EStateM.run (do
        clearColumns map.mColcnt
        let (names, signedness) ← readMetadata lib map
        storeNames map.mColtype 0 names signedness
        storeTypes map.mColtype 0) s₁ with
    | ok _ s' =>
      obtain ⟨cols, hd, htypes, hcount, hbegins⟩ := hfollows.ok hr
      obtain ⟨hs', hasked'⟩ := hsound.ok hr
      exact .inr ⟨cols, s', hd, rfl, hs', hasked'.trans hasked, htypes, hcount, hbegins⟩
    | error e s' =>
      obtain hf | ⟨_, hd, rfl⟩ := hfollows.error hr
      · exact hf.elim
      · exact .inl ⟨e, s', hd, rfl, (hsound.error hr).1⟩
  · exact .inl ⟨hs, s', run_bind_error hrun _, h'⟩

end RplListener
