import RplListener.Rows.GetRows

/-!
# How far the blocks of a row set reach

`repl_log_x_rows_clear` looks at `rows_count * col_count` cells of each flat
block. However the decoder ends, the block has them: it grows before the count
does, and nothing but its growth changes its length.
-/

namespace RplListener

open Bytes Refine

variable {lib : Library} {os : Allocator} {buf : List UInt8} {s : RowsState} {m : Nat}

-- ---------------------------------------------------------------------------
-- Lengths
-- ---------------------------------------------------------------------------

def Covers (n : Nat) : Ptr (List ReplLogXValue) → Prop
  | .null => True
  | .wild => False
  | .block _ cells => n ≤ cells.length

theorem Covers.mono {n n' : Nat} {p : Ptr (List ReplLogXValue)} (h : Covers n p) (hle : n' ≤ n) :
    Covers n' p := by
  cases p with
  | null => trivial
  | wild => exact h
  | block id cells => exact hle.trans h

/-- The blocks reach as far as the rows that were counted; a second one is there for
updates only. -/
structure RowSet.Reaches (m : Nat) (update : Bool) (set : RowSet) : Prop where
  spans : ∀ after, Covers (set.rowsCount * m) (set.block after)
  single : update = false → set.block true = .null

def Grows (m : Nat) (update : Bool) {α : Type} (x : RowsM α) : Prop :=
  Stable (fun s : RowsState => s.set.Reaches m update) x

variable {update : Bool} {α : Type}

theorem Grows.of_keeps {x : RowsM α} (h : Keeps RowsState.set x) : Grows m update x :=
  Stable.of_keeps h

theorem RowSet.Reaches.setBlock {set : RowSet} {after : Bool} {p : Ptr (List ReplLogXValue)}
    (h : set.Reaches m update) (hp : Covers (set.rowsCount * m) p)
    (hsingle : update = false → after = false) : (set.setBlock after p).Reaches m update where
  spans b := by
    rw [RowSet.setBlock_rowsCount]
    cases after with
    | false =>
      cases b with
      | false => exact hp
      | true => exact h.spans true
    | true =>
      cases b with
      | false => exact h.spans false
      | true => exact hp
  single hu := by
    rw [hsingle hu]
    exact h.single hu

theorem RowSet.Reaches.setCell {set : RowSet} (h : set.Reaches m update) (r : CellRef)
    (c : ReplLogXValue) : (set.setCell r c).Reaches m update := by
  have hspans := h.spans r.after
  unfold RowSet.setCell
  cases hb : set.block r.after with
  | null | wild => exact h
  | block id cells =>
    rw [hb] at hspans
    refine h.setBlock ?_ fun hu => ?_
    · change set.rowsCount * m ≤ (cells.set r.index c).length
      rw [List.length_set]
      exact hspans
    · refine Bool.eq_false_iff.mpr fun hafter => ?_
      rw [hafter, h.single hu] at hb
      cases hb

-- ---------------------------------------------------------------------------
-- One image
-- ---------------------------------------------------------------------------

theorem atCell_grows (r : CellRef) (x : CellM α) : Grows m update (atCell r x) := by
  intro s hs
  cases hb : s.set.block r.after with
  | null => exact Triple.of_run_error (e := .outOfBlock) (by simp [EStateM.run, atCell, hb]) hs
  | wild => exact Triple.of_run_error (e := .outOfBlock) (by simp [EStateM.run, atCell, hb]) hs
  | block id cells =>
    cases hc : cells[r.index]? with
    | none => exact Triple.of_run_error (e := .outOfBlock) (by simp [EStateM.run, atCell, hb, hc]) hs
    | some cell =>
      cases hx : x.run ⟨s.heap, cell⟩ with
      | ok a t =>
        refine Triple.of_run (atCell_run hb hc hx) ?_
        rw [← RowSet.setCell_eq hb]
        exact hs.setCell r t.cell
      | error e t =>
        refine Triple.of_run_error (atCell_run_error hb hc hx) ?_
        rw [← RowSet.setCell_eq hb]
        exact hs.setCell r t.cell

theorem decodeColumn_grows (a : ImageArgs) (xRow : CellRef) (col : Column) (i nullBit value : Nat)
    (isPartial : Bool) :
    Grows m update (decodeColumn lib os buf a xRow col i nullBit value isPartial) := by
  unfold decodeColumn
  refine Stable.bind (atCell_grows _ _) fun _ => ?_
  refine Stable.bind (Grows.of_keeps (bitReaderGet_keeps _ _)) fun isNull => ?_
  refine Stable.bind (Grows.of_keeps (checkFieldSize_keeps _ _ _)) fun _ => ?_
  split
  · exact .throw _
  · exact Stable.bind (atCell_grows _ _) fun _ => .pure _

theorem columnLoop_grows (a : ImageArgs) (xRow : CellRef) (cols : List Column)
    (i nullBit partialBit value : Nat) :
    Grows m update (columnLoop lib os buf a xRow cols i nullBit partialBit value) := by
  induction cols generalizing i nullBit partialBit value with
  | nil => exact .pure _
  | cons col cols ih =>
    unfold columnLoop
    refine Stable.bind (Grows.of_keeps (readPartialBit_keeps _ _ _)) fun isPartial => ?_
    dsimp only
    split
    · exact ih _ _ _ _
    · exact Stable.bind (decodeColumn_grows _ _ _ _ _ _ _) fun _ => ih _ _ _ _

-- ---------------------------------------------------------------------------
-- One more row
-- ---------------------------------------------------------------------------

theorem growCells_length {cells cells' : List ReplLogXValue} {n : Nat}
    (h : growCells cells n m = some cells') : (n + 1) * m ≤ cells'.length := by
  obtain ⟨zeroed, hz, h⟩ := Option.bind_eq_some_iff.mp h
  cases h
  rw [absentCells_length]
  unfold zeroCells at hz
  split at hz
  case isTrue hle =>
    cases hz
    simp only [List.length_append, List.length_take, List.length_replicate, List.length_drop] at hle ⊢
    omega
  case isFalse => cases hz

theorem growBlock_spans (p : Ptr (List ReplLogXValue)) (n : Nat) :
    Triple (growBlock os p n m) s (fun p' s' => s'.set = s.set ∧ Covers ((n + 1) * m) p')
      fun _ s' => s'.set = s.set := by
  unfold growBlock
  refine Triple.bind (Q := fun _ s' => s'.set = s.set) (Keeps.zoom (fun _ _ => rfl) s) ?_
  intro id s' hs
  cases id with
  | none => exact Triple.throw hs
  | some id =>
    dsimp only
    cases hgrow : growCells (keptCells p n) n m with
    | none => exact Triple.throw hs
    | some cells => exact Triple.pure ⟨hs, growCells_length hgrow⟩

theorem growOne_spans {after : Bool} (h : s.set.Reaches m update)
    (hsingle : update = false → after = false) :
    Triple (do
        let p ← growBlock os (s.set.block after) s.set.rowsCount m
        modifySet fun set => set.setBlock after p) s
      (fun _ s' => s'.set.Reaches m update ∧ ∃ p, s'.set = s.set.setBlock after p ∧
        Covers ((s.set.rowsCount + 1) * m) p)
      fun _ s' => s'.set.Reaches m update := by
  refine Triple.bind ((growBlock_spans _ _).mono (fun _ _ h => h) ?_) ?_
  · rintro _ ⟨heap, set⟩ rfl
    exact h
  · rintro p ⟨heap, set⟩ ⟨rfl, hp⟩
    refine Triple.of_run (modifySet_run _) ⟨h.setBlock (hp.mono ?_) hsingle, p, rfl, hp⟩
    exact Nat.mul_le_mul_right m (Nat.le_succ _)

theorem countRow_spans (hsingle : update = false → s.set.block true = .null)
    (hspans : ∀ after, Covers ((s.set.rowsCount + 1) * m) (s.set.block after)) :
    Triple (modifySet fun set => { set with rowsCount := uint32 (set.rowsCount + 1) }) s
      (fun _ s' => s'.set.Reaches m update) fun _ s' => s'.set.Reaches m update := by
  refine Triple.of_run (modifySet_run _) ⟨fun after => ?_, hsingle⟩
  exact (hspans after).mono (Nat.mul_le_mul_right m (Nat.mod_le _ _))

theorem addRowMem_grows {t : RowImageType} (hu : t ≠ .updateAI → update = (t == .updateBI)) :
    Grows m update (replLogXRowsAddRowMem os m t) := by
  intro s h
  unfold replLogXRowsAddRowMem
  split
  case isFalse => exact Triple.pure h
  case isTrue ht =>
    have hbefore : Triple (addBeforeMem os m) s
        (fun _ s' => s'.set.Reaches m update ∧ ∃ p, s'.set = s.set.setBlock false p ∧
          Covers ((s.set.rowsCount + 1) * m) p)
        fun _ s' => s'.set.Reaches m update := by
      unfold addBeforeMem
      refine Triple.get_bind ?_
      exact @growOne_spans _ _ _ _ false h fun _ => rfl
    refine Triple.bind hbefore ?_
    rintro _ s₁ ⟨h₁, p, hs₁, hp⟩
    cases hup : update with
    | false =>
      have hafter : addAfterMem os m t = pure () := by
        unfold addAfterMem
        rw [if_neg]
        rintro rfl
        rw [hu ht] at hup
        cases hup
      rw [hafter, ← hup]
      refine Triple.bind_run rfl (countRow_spans h₁.single fun after => ?_)
      rw [hs₁, RowSet.setBlock_rowsCount]
      cases after with
      | false => exact hp
      | true =>
        have hnull : (s.set.setBlock false p).block true = .null := h.single hup
        rw [hnull]
        trivial
    | true =>
      obtain rfl : t = .updateBI := beq_iff_eq.mp ((hu ht).symm.trans hup)
      have hafter : Triple (addAfterMem os m .updateBI) s₁
          (fun _ s' => s'.set.Reaches m update ∧ ∃ p, s'.set = s₁.set.setBlock true p ∧
            Covers ((s₁.set.rowsCount + 1) * m) p)
          fun _ s' => s'.set.Reaches m update := by
        unfold addAfterMem
        rw [if_pos rfl]
        refine Triple.get_bind ?_
        exact @growOne_spans _ _ _ _ true h₁ fun hf => absurd (hf.symm.trans hup) Bool.false_ne_true
      rw [← hup]
      refine Triple.bind hafter ?_
      rintro _ s₂ ⟨h₂, p', hs₂, hp'⟩
      refine countRow_spans h₂.single fun after => ?_
      rw [hs₂, RowSet.setBlock_rowsCount]
      cases after with
      | false =>
        rw [hs₁, RowSet.setBlock_rowsCount]
        exact hp
      | true => exact hp'

-- ---------------------------------------------------------------------------
-- All images
-- ---------------------------------------------------------------------------

theorem getOneRowValues_grows (r : RowsArgs) (bitmap : List Bool) (value : Nat) {t : RowImageType}
    (hu : t ≠ .updateAI → update = (t == .updateBI)) :
    Grows r.colCount update (getOneRowValues lib os buf r bitmap value t) := by
  unfold getOneRowValues
  refine Stable.bind (Grows.of_keeps (readValueOptions_keeps _ _ _)) fun x => ?_
  refine Stable.bind (addRowMem_grows hu) fun _ => ?_
  refine Stable.bind (Grows.of_keeps .get) fun _ => ?_
  exact Stable.bind (columnLoop_grows _ _ _ _ _ _ _) fun _ => .pure _

theorem imageLoop_grows (r : RowsArgs) (first : RowImageType) (cols colsAi : List Bool)
    (fuel value : Nat) :
    Grows r.colCount (first == .updateBI)
      (imageLoop lib os buf r first cols colsAi fuel value) := by
  induction fuel generalizing value with
  | zero => exact .pure _
  | succ fuel ih =>
    unfold imageLoop
    split
    case isFalse => exact .pure _
    case isTrue =>
      refine Stable.bind (getOneRowValues_grows r _ _ fun _ => rfl) fun length => ?_
      split
      case isFalse => exact .pure _
      case isTrue =>
        dsimp only
        split
        case isFalse => exact ih _
        case isTrue =>
          refine Stable.bind (getOneRowValues_grows r _ _ fun h => absurd rfl h) fun length => ?_
          split
          · exact ih _
          · exact .pure _

theorem finish_grows : Grows m update (replLogXRowsFinish os m) := by
  have hset {f : RowSet → RowSet} (hf : ∀ set : RowSet, set.Reaches m update → (f set).Reaches m update) :
      Grows m update (modifySet f) := fun s h => Triple.of_run (modifySet_run f) (hf s.set h)
  have hptr : Grows m update (allocPointers os) := by
    refine Grows.of_keeps (Keeps.bind (Keeps.zoom fun _ _ => rfl) fun id => ?_)
    cases id with
    | none => exact .throw _
    | some id => exact .pure _
  unfold replLogXRowsFinish
  refine Stable.bind hptr fun id => ?_
  refine Stable.bind (hset fun set h => ⟨h.spans, h.single⟩) fun _ => ?_
  refine Stable.bind (Grows.of_keeps .get) fun _ => ?_
  split
  · exact Stable.bind hptr fun id => hset fun set h => ⟨h.spans, h.single⟩
  · exact .pure _

/-- However `get_rows` ends, `repl_log_x_rows_clear` finds the cells it looks at. -/
theorem getRows_spans {ev : RowsLogEvent2} {map : TableMapLogEvent} {info : Nat × List ColInfo}
    {disp : DisplayBlobs} (hs : s.set = {}) :
    Triple (getRows lib os ev map m info disp) s
      (fun _ s' => ∀ after, Covers (s'.set.rowsCount * m) (s'.set.block after))
      fun _ s' => ∀ after, Covers (s'.set.rowsCount * m) (s'.set.block after) := by
  have hempty {s' : RowsState} {update : Bool} (h : ∀ after, s'.set.block after = .null) :
      s'.set.Reaches m update := by
    refine ⟨fun after => ?_, fun _ => h true⟩
    rw [h after]
    trivial
  have hnull (after : Bool) : s.set.block after = .null := by
    rw [hs]
    cases after <;> rfl
  unfold getRows
  cases hfirst : ev.typeCode.firstImage with
  | none =>
    refine Triple.of_run_error (run_bind_error (setTypeCode_run_error hfirst) _) ?_
    exact (@hempty _ true hnull).spans
  | some first =>
    refine Triple.bind_run (setTypeCode_run hfirst).1 ?_
    have hfail (b : Bool) (e : Halt) : Grows m (first == .updateBI) (failIf b e) := by
      cases b with
      | true => exact .throw _
      | false => exact .pure _
    refine Triple.mono (Q := fun _ s' => s'.set.Reaches m (first == .updateBI))
      (E := fun _ s' => s'.set.Reaches m (first == .updateBI)) ?_ (fun _ _ h => h.spans)
      fun _ _ h => h.spans
    refine Stable.bind (hfail _ _) (fun _ => ?_) _ (hempty hnull)
    refine Stable.bind (Grows.of_keeps (Keeps.zoom fun _ _ => rfl)) fun created => ?_
    refine Stable.bind (hfail _ _) fun _ => Stable.bind (hfail _ _) fun _ => ?_
    refine Stable.bind ?_ fun value => Stable.bind finish_grows fun _ => .pure _
    split
    · exact .pure _
    · exact imageLoop_grows
        { td := map.tableDef, typeCode := ev.typeCode, colCount := m, colInfo := info.2, disp }
        first _ _ _ _

end RplListener
