import RplListener.Listener.Capacity
import RplListener.Rows.Ownership

/-!
# What is allocated for a row set is released

Four ways out of the `try` block end in `repl_log_x_rows_clear`. It releases what
the structure holds; a structure that was never set up, or that was set up in
part and cleaned up there, it cannot tell from one that holds something.
-/

namespace RplListener

open Bytes Refine

variable {lib : Library} {os : Allocator} {base : List Nat}
variable {ev : RowsLogEvent2} {map : TableMapLogEvent} {disp : DisplayBlobs}

-- ---------------------------------------------------------------------------
-- Clearing
-- ---------------------------------------------------------------------------

/-- The structure and the heap when it is cleared. -/
structure ReplLogXRows.Settled (base : List Nat) (x : ReplLogXRows) (h : Heap) : Prop where
  names : x.colNames.Tame
  types : x.colTypes.Tame
  set : (⟨h, x.set⟩ : RowsState).Settled (x.colNames.ids ++ (x.colTypes.ids ++ base)) x.colCount

variable {E : Crash → Heap → Prop} {h : Heap}

theorem freeVals_owned {cells : List ReplLogXValue} {ids : List Nat} (ht : ∀ c ∈ cells, c.val.Tame)
    (ho : h.Owned (cellIds cells ++ ids)) :
    Triple (cells.forM fun c => Heap.free c.val) h (fun _ h' => h'.Owned ids) E := by
  induction cells generalizing h with
  | nil => exact Triple.pure ho
  | cons c cells ih =>
    obtain ⟨hc, ht⟩ := List.forall_mem_cons.mp ht
    have ho' : h.Owned (c.val.ids ++ (cellIds cells ++ ids)) := by
      rw [← List.append_assoc]
      exact ho
    exact Triple.bind (Heap.free_owned hc ho') fun _ h' h'o => ih ht h'o

theorem freeCells_owned {p : Ptr (List ReplLogXValue)} {n : Nat} {ids : List Nat} (hp : Clears n p)
    (ho : h.Owned (blockIds p ++ ids)) :
    Triple (freeCells p n) h (fun _ h' => h'.Owned ids) E := by
  unfold freeCells
  cases p with
  | wild => exact hp.elim
  | null => exact Triple.pure ho
  | block id cells =>
    obtain ⟨hle, htame, hnull⟩ := hp
    have hids : cellIds cells = cellIds (cells.take n) := by
      rw [← List.take_append_drop n cells, cellIds_append, cellIds_of_null hnull, List.append_nil,
        List.take_append_drop]
    have ho' : h.Owned (cellIds (cells.take n) ++ (id :: ids)) := by
      rw [← hids]
      exact ho.perm List.perm_middle.symm
    dsimp only
    rw [if_pos hle]
    refine Triple.bind (freeVals_owned (fun c hc => htame c (List.mem_of_mem_take hc)) ho')
      fun _ h' h'o => ?_
    exact Heap.free_owned (Ptr.tame_block id cells) h'o

theorem replLogXRowsClear_owned {x : ReplLogXRows} (hx : x.Settled base h) :
    Triple (replLogXRowsClear x) h (fun _ h' => h'.Owned base) E := by
  obtain ⟨hnames, htypes, hs⟩ := hx
  have ho : h.Owned (x.colNames.ids ++ (x.colTypes.ids ++ (x.set.rows.ids ++ (x.set.rowsAfter.ids ++
      (blockIds x.set.rowsL2 ++ (blockIds x.set.rowsAfterL2 ++ base)))))) := by
    refine hs.owned.perm ?_
    have hset : x.set.ids ++ base = x.set.rows.ids ++ (x.set.rowsAfter.ids ++
        (blockIds x.set.rowsL2 ++ (blockIds x.set.rowsAfterL2 ++ base))) := by
      simp only [RowSet.ids, List.append_assoc]
    rw [← hset]
    refine List.perm_append_comm_assoc .. |>.trans (List.Perm.append_left _ ?_)
    exact List.perm_append_comm_assoc ..
  unfold replLogXRowsClear
  refine Triple.bind (Heap.free_owned hnames ho) fun _ h₁ ho => ?_
  refine Triple.bind (Heap.free_owned htypes ho) fun _ h₂ ho => ?_
  refine Triple.bind (Heap.free_owned hs.rows ho) fun _ h₃ ho => ?_
  refine Triple.bind (Heap.free_owned hs.rowsAfter ho) fun _ h₄ ho => ?_
  rw [uint32_of_lt hs.small]
  refine Triple.bind (freeCells_owned (hs.clears false) ho) fun _ h₅ ho => ?_
  exact freeCells_owned (hs.clears true) ho

-- ---------------------------------------------------------------------------
-- A structure that is not one
-- ---------------------------------------------------------------------------

structure ReplLogXRows.Opened (ids : List Nat) (x : ReplLogXRows) (h : Heap) : Prop where
  names : x.colNames.Tame
  types : x.colTypes.Tame
  owned : h.Owned (x.colNames.ids ++ (x.colTypes.ids ++ ids))
  set : x.set = {}

variable {s : FillState} {ids : List Nat} {cols : List ColInfo}

theorem ReplLogXRows.Opened.blank {x : ReplLogXRows} (hx : x.Opened ids h) :
    (⟨h, x.set⟩ : RowsState).Blank (x.colNames.ids ++ (x.colTypes.ids ++ ids)) := by
  refine ⟨hx.owned, ?_, ?_, ?_, fun after => ?_⟩
  all_goals rw [show (⟨h, x.set⟩ : RowsState).set = {} from hx.set]
  cases after <;> rfl

theorem ReplLogXRows.Opened.settled {x : ReplLogXRows} (hx : x.Opened ids h) : x.Settled ids h :=
  ⟨hx.names, hx.types, (hx.blank.done x.colCount false).settled⟩

theorem requestPtr_granted {α : Type} (hg : os.grant s.heap.asked = true) (contents : α) :
    (requestPtr os contents).run s =
      .ok (.block s.heap.asked contents) { s with heap := s.heap.granted } :=
  run_bind_ok (request_fill_granted hg) _

theorem requestPtr_refused {α : Type} (hg : os.grant s.heap.asked = false) (contents : α) :
    (requestPtr os contents).run s = .ok .null { s with heap := s.heap.refused } :=
  run_bind_ok (request_fill_refused hg) _

section

variable (hb : s.info.Begins cols) (hlen : cols.length = map.mColcnt) (ho : s.heap.Owned ids)

include hb hlen ho

/-- Both arrays, or none of the two. -/
theorem replLogXRowsInit_opened (hpair : os.grant s.heap.asked = os.grant (s.heap.asked + 1)) :
    Triple (replLogXRowsInit os ev map disp) s (fun x s' => x.Opened ids s'.heap)
      fun e s' => ∃ what x, e = .thrown what x ∧ x.Opened ids s'.heap := by
  unfold replLogXRowsInit
  refine Triple.bind_run (hlen ▸ infoColumns_run hb) ?_
  cases hg : os.grant s.heap.asked with
  | true =>
    have hg' : os.grant s.heap.granted.asked = true := hpair.symm.trans hg
    refine Triple.bind_run (requestPtr_granted hg _) ?_
    refine Triple.bind_run (requestPtr_granted hg' _) (Triple.pure ?_)
    exact ⟨Ptr.tame_block _ _, Ptr.tame_block _ _, ho.granted.granted.perm (List.Perm.swap ..), rfl⟩
  | false =>
    have hg' : os.grant s.heap.refused.asked = false := hpair.symm.trans hg
    refine Triple.bind_run (requestPtr_refused hg _) ?_
    refine Triple.bind_run (requestPtr_refused hg' _) ?_
    exact Triple.of_run_error rfl ⟨_, _, rfl, Ptr.tame_null, Ptr.tame_null, ho.refused.refused, rfl⟩

end

-- ---------------------------------------------------------------------------
-- The try block
-- ---------------------------------------------------------------------------

/-- What is left by a way out of the `try` block; an early return has no structure. -/
def FillStop.Settled (ids : List Nat) (e : FillStop) (h : Heap) : Prop :=
  match e with
  | .failed _ => h.Owned ids
  | .thrown _ x | .stopped _ x => x.Settled ids h
  | .memory => h.badFree = false

theorem callGetRows_settled {x : ReplLogXRows}
    (hlen : cols.length = map.mColcnt) (hcount : s.info.colCount = map.mColcnt)
    (hb : s.info.Begins cols)
    (hx : x = { ReplLogXRows.init ev map disp with colNames := x.colNames, colTypes := x.colTypes })
    (ho : x.Opened ids s.heap)
    (hcells : (rowsCallOf ev map cols disp).rowsVisited lib * map.mColcnt < 2 ^ 32) :
    Triple (callGetRows lib os ev map x) s
      (fun y s' => s'.info = s.info ∧ y.Settled ids s'.heap)
      fun e s' => s'.info = s.info ∧ e.Settled ids s'.heap := by
  have hcols : x.colCount = map.mColcnt := by rw [hx]; rfl
  have hcall := @callGetRows_run lib os ev map disp s cols x hlen hcount hb hx
  have hrows := @getRows_settled lib os _ ⟨s.heap, x.set⟩ (rowsCallOf ev map cols disp)
    (rowsCallOf_cached hlen) ho.blank hcells
  have hset {t : RowsState} (h : t.Settled (x.colNames.ids ++ (x.colTypes.ids ++ ids)) map.mColcnt) :
      ReplLogXRows.Settled ids { x with set := t.set } t.heap := ⟨ho.names, ho.types, hcols ▸ h⟩
  cases hr : (getRows lib os ev map map.mColcnt (map.mColcnt, cols) disp).run ⟨s.heap, x.set⟩ with
  | ok value t =>
    rw [hr] at hcall
    exact Triple.of_run hcall ⟨rfl, hset (hrows.ok hr)⟩
  | error e t =>
    rw [hr] at hcall
    have ht := hrows.error hr
    cases e with
    | error desc => exact Triple.of_run_error hcall ⟨rfl, hset ht⟩
    | overread | outOfBlock => exact Triple.of_run_error hcall ⟨rfl, ht.owned.sound⟩

/-- The constructor of the metadata throws, before the structure is set up. -/
def FillState.Unset (lib : Library) (os : Allocator) (map : TableMapLogEvent) (s : FillState) : Prop :=
  s.served os map.mColcnt = true ∧ ∃ what, map.metadata lib = .error (.thrown what .junk)

/-- Of the two arrays of the columns just one can be had. -/
def FillState.OneArray (lib : Library) (os : Allocator) (map : TableMapLogEvent) (s : FillState) :
    Prop :=
  s.served os map.mColcnt = true ∧ (∃ cols, map.described lib = .ok cols) ∧
    os.grant (s.heap.asked + s.info.asks map.mColcnt) ≠
      os.grant (s.heap.asked + s.info.asks map.mColcnt + 1)

/-- The cells that are decoded are more than the product of two 32-bit counts can tell. -/
def ManyCells (lib : Library) (ev : RowsLogEvent2) (map : TableMapLogEvent) (disp : DisplayBlobs) :
    Prop :=
  ∃ cols, map.described lib = .ok cols ∧
    2 ^ 32 ≤ (rowsCallOf ev map cols disp).rowsVisited lib * map.mColcnt

theorem fillRows_settled (hs : s.Sound base)
    (hunset : ¬ s.Unset lib os map) (hone : ¬ s.OneArray lib os map)
    (hcells : ¬ ManyCells lib ev map disp) :
    Triple (fillRows lib os ev map disp) s
      (fun x s' => s'.info.Roomy ∧ x.Settled (s'.info.columns.ids ++ base) s'.heap)
      fun e s' => s'.info.Roomy ∧ e.Settled (s'.info.columns.ids ++ base) s'.heap := by
  unfold fillRows
  obtain ⟨-, s', hrun, h'⟩ | ⟨hserved, ⟨e, s', hd, hrun, h'⟩ |
      ⟨cols, s₁, hd, hrun, h₁, hasked, htypes, hcount, hbegins⟩⟩ :=
    @updateInfo_cases lib os s base map hs
  · exact Triple.of_run_error (run_bind_error hrun _) ⟨h'.roomy, h'.owned⟩
  · refine Triple.of_run_error (run_bind_error hrun _) ⟨h'.roomy, ?_⟩
    obtain ⟨desc, rfl⟩ | ⟨what, rfl, hmeta⟩ := map.described_error hd
    · exact h'.owned
    · exact absurd ⟨hserved, what, hmeta⟩ hunset
  refine Triple.bind_run hrun ?_
  have hlen : cols.length = map.mColcnt := by
    rw [TableMapLogEvent.mColcnt, ← htypes, List.length_map]
  have hpair : os.grant s₁.heap.asked = os.grant (s₁.heap.asked + 1) := by
    rw [hasked]
    exact not_not.mp fun hne => hone ⟨hserved, ⟨cols, hd⟩, hne⟩
  have hopened := (@replLogXRowsInit_opened os ev map disp s₁ _ cols hbegins hlen h₁.owned hpair).and
    (replLogXRowsInit_triple hbegins hlen)
  refine Triple.bind (hopened.mono (fun _ _ h => h) ?_) ?_
  · rintro e s₂ ⟨⟨what, x, rfl, hx⟩, hinfo, -⟩
    rw [hinfo]
    exact ⟨h₁.roomy, hx.settled⟩
  rintro x s₂ ⟨hx, hinfo, -, hheader⟩
  have hfew : (rowsCallOf ev map cols disp).rowsVisited lib * map.mColcnt < 2 ^ 32 :=
    not_le.mp fun hle => hcells ⟨cols, hd, hle⟩
  refine (callGetRows_settled hlen (by rw [hinfo, hcount]) (hinfo ▸ hbegins) hheader hx hfew).mono
    ?_ ?_
  · rintro y s₃ ⟨hinfo₃, hy⟩
    rw [hinfo₃, hinfo]
    exact ⟨h₁.roomy, hy⟩
  · rintro e s₃ ⟨hinfo₃, he⟩
    rw [hinfo₃, hinfo]
    exact ⟨h₁.roomy, he⟩

end RplListener
