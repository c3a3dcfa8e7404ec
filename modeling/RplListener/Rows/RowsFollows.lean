import RplListener.Rows.ValueFollows
import RplListener.Rows.FlatCells

/-!
# The row decoder follows the walk

`columnLoop`, `getOneRowValues`, `imageLoop` and `getRows` end as `scanColumns`,
`scanImage` and `scanRows` say. The cells of a row are painted over what its
block held before, and a row that was just added is all absent cells as long as
the flat index does not wrap.
-/

namespace RplListener

open Bytes Refine

variable {lib : Library} {os : Allocator} {buf : List UInt8} {s : RowsState}

-- ---------------------------------------------------------------------------
-- Running in the event and in a cell
-- ---------------------------------------------------------------------------

theorem atEvent_run {α : Type} {x : CellM α} {a : α} {t : CellState}
    (h : x.run ⟨s.heap, .zero⟩ = .ok a t) : (atEvent x).run s = .ok a { s with heap := t.heap } := by
  simp only [EStateM.run, atEvent] at h ⊢
  rw [h]

theorem atEvent_run_error {α : Type} {x : CellM α} {e : Halt} {t : CellState}
    (h : x.run ⟨s.heap, .zero⟩ = .error e t) :
    (atEvent x).run s = .error e { s with heap := t.heap } := by
  simp only [EStateM.run, atEvent] at h ⊢
  rw [h]

theorem atEvent_keeps {α : Type} (x : CellM α) : Keeps RowsState.set (atEvent x) := by
  intro s
  cases h : x.run ⟨s.heap, .zero⟩ with
  | ok a t => exact Triple.of_run (atEvent_run h) rfl
  | error e t => exact Triple.of_run_error (atEvent_run_error h) rfl

theorem bitReaderGet_keeps (ptr k : Nat) : Keeps RowsState.set (bitReaderGet buf ptr k) :=
  (atEvent_keeps _).bind fun _ => .pure _

theorem readPartialBit_keeps (a : ImageArgs) (col : Column) (partialBit : Nat) :
    Keeps RowsState.set (readPartialBit buf a col partialBit) := by
  unfold readPartialBit
  split
  · exact bitReaderGet_keeps _ _
  · exact .pure _

theorem checkFieldSize_keeps (isNull : Bool) (col : Column) (value : Nat) :
    Keeps RowsState.set (checkFieldSize lib buf isNull col value) := by
  unfold checkFieldSize
  split
  · exact .pure _
  · refine (atEvent_keeps _).bind fun _ => ?_
    dsimp only
    split
    · exact .throw _
    · exact .pure _

theorem readValueOptions_keeps (r : RowsArgs) (t : RowImageType) (value : Nat) :
    Keeps RowsState.set (readValueOptions lib buf r t value) := by
  unfold readValueOptions
  split
  · refine (atEvent_keeps _).bind fun x => ?_
    obtain ⟨valueOptions, taken⟩ := x
    dsimp only
    split <;> exact .pure _
  · exact .pure _

theorem Follows.atEvent {α γ : Type} {H : Halts Halt Verdict} {x : CellM α} {v : Scan γ}
    {Q : α → CellState → γ → Prop} (h : Follows H x ⟨s.heap, .zero⟩ v Q) :
    Follows H (atEvent x) s v fun a s' c => ∃ t, Q a t c ∧ s' = { s with heap := t.heap } := by
  cases hx : x.run ⟨s.heap, .zero⟩ with
  | ok a t =>
    obtain ⟨c, rfl, hq⟩ := h.ok hx
    exact Follows.of_run (atEvent_run hx) ⟨t, hq, rfl⟩
  | error e t =>
    have hrun := atEvent_run_error hx
    rcases h.error hx with hsp | ⟨n, rfl, he⟩
    · exact Follows.of_run_spare hrun hsp
    · exact Follows.of_run_error hrun he

theorem atEvent_readBytes_follows (p n : Nat) :
    Follows (rowsHalts os) (atEvent (readBytes buf p n)) s (takeAt buf p n)
      fun bs s' c => bs = c ∧ s = s' ∧ slice? buf p n = some bs := by
  refine (Follows.atEvent (readBytes_follows p n)).mono ?_
  rintro bs s' c ⟨t, ⟨rfl, rfl, h⟩, rfl⟩
  exact ⟨rfl, rfl, h⟩

theorem atEvent_netFieldLengthChecked_follows (p maxLength : Nat) (desc : String) :
    Follows (rowsHalts os) (atEvent (netFieldLengthChecked lib buf p maxLength desc)) s
      (scanInt lib buf p maxLength) fun r s' c => r = c ∧ s = s' := by
  refine (Follows.atEvent (netFieldLengthChecked_follows p maxLength desc)).mono ?_
  rintro r s' c ⟨t, ⟨rfl, rfl⟩, rfl⟩
  exact ⟨rfl, rfl⟩

theorem bitReaderGet_follows (ptr k : Nat) :
    Follows (rowsHalts os) (bitReaderGet buf ptr k) s (scanBit buf ptr k)
      fun b s' c => b = c ∧ s = s' := by
  refine Follows.bind (atEvent_readBytes_follows _ 1) ?_
  rintro byte _ _ ⟨rfl, rfl, -⟩
  exact Follows.pure ⟨rfl, rfl⟩

@[simp] theorem RowSet.block_setBlock (set : RowSet) (after : Bool) (b : Ptr (List ReplLogXValue)) :
    (set.setBlock after b).block after = b := by cases after <;> rfl

@[simp] theorem RowSet.setBlock_setBlock (set : RowSet) (after : Bool)
    (b b' : Ptr (List ReplLogXValue)) :
    (set.setBlock after b).setBlock after b' = set.setBlock after b' := by cases after <;> rfl

@[simp] theorem RowSet.setBlock_rowsCount (set : RowSet) (after : Bool)
    (b : Ptr (List ReplLogXValue)) : (set.setBlock after b).rowsCount = set.rowsCount := by
  cases after <;> rfl

@[simp] theorem RowSet.setBlock_typeCode (set : RowSet) (after : Bool)
    (b : Ptr (List ReplLogXValue)) : (set.setBlock after b).typeCode = set.typeCode := by
  cases after <;> rfl

theorem RowSet.setBlock_self {set : RowSet} {after : Bool} {b : Ptr (List ReplLogXValue)}
    (h : set.block after = b) : set.setBlock after b = set := by
  subst h
  cases after <;> rfl

theorem RowSet.setCell_eq {set : RowSet} {r : CellRef} {id : Nat} {cells : List ReplLogXValue}
    (hb : set.block r.after = .block id cells) (c : ReplLogXValue) :
    set.setCell r c = set.setBlock r.after (.block id (cells.set r.index c)) := by
  rw [RowSet.setCell, hb]

section

variable {α : Type} {x : CellM α} {r : CellRef} {id : Nat} {cells : List ReplLogXValue}
  {cell : ReplLogXValue} {t : CellState}

theorem atCell_run {a : α} (hb : s.set.block r.after = .block id cells)
    (hc : cells[r.index]? = some cell) (h : x.run ⟨s.heap, cell⟩ = .ok a t) :
    (atCell r x).run s =
      .ok a ⟨t.heap, s.set.setBlock r.after (.block id (cells.set r.index t.cell))⟩ := by
  rw [← RowSet.setCell_eq hb]
  simp only [EStateM.run, atCell, hb, hc] at h ⊢
  rw [h]

theorem atCell_run_error {e : Halt} (hb : s.set.block r.after = .block id cells)
    (hc : cells[r.index]? = some cell) (h : x.run ⟨s.heap, cell⟩ = .error e t) :
    (atCell r x).run s =
      .error e ⟨t.heap, s.set.setBlock r.after (.block id (cells.set r.index t.cell))⟩ := by
  rw [← RowSet.setCell_eq hb]
  simp only [EStateM.run, atCell, hb, hc] at h ⊢
  rw [h]

end

theorem Follows.atCell {α γ : Type} {H : Halts Halt Verdict} {x : CellM α} {v : Scan γ}
    {Q : α → CellState → γ → Prop} {r : CellRef} {id : Nat} {cells : List ReplLogXValue}
    {cell : ReplLogXValue} (hb : s.set.block r.after = .block id cells)
    (hc : cells[r.index]? = some cell) (h : Follows H x ⟨s.heap, cell⟩ v Q) :
    Follows H (atCell r x) s v fun a s' c => ∃ t, Q a t c ∧
      s'.set = s.set.setBlock r.after (.block id (cells.set r.index t.cell)) := by
  cases hx : x.run ⟨s.heap, cell⟩ with
  | ok a t =>
    obtain ⟨c, rfl, hq⟩ := h.ok hx
    exact Follows.of_run (atCell_run hb hc hx) ⟨t, hq, rfl⟩
  | error e t =>
    have hrun := atCell_run_error hb hc hx
    rcases h.error hx with hsp | ⟨n, rfl, he⟩
    · exact Follows.of_run_spare hrun hsp
    · exact Follows.of_run_error hrun he

-- ---------------------------------------------------------------------------
-- Columns
-- ---------------------------------------------------------------------------

/-- The cells from `k` on are those of the images' columns, over `cells`. -/
def Painted : Nat → List (Option Rendered) → (cells cells' : List ReplLogXValue) → Prop
  | _, [], cells, cells' => cells' = cells
  | k, none :: rs, cells, cells' => Painted (k + 1) rs cells cells'
  | k, some r :: rs, cells, cells' => ∃ old new, cells[k]? = some old ∧
      r.Applied { old with len := 0 } new ∧ Painted (k + 1) rs (cells.set k new) cells'

theorem Painted.length {k : Nat} {rs : List (Option Rendered)} {cells cells' : List ReplLogXValue}
    (h : Painted k rs cells cells') : cells'.length = cells.length := by
  induction rs generalizing k cells with
  | nil => exact congrArg List.length h
  | cons r rs ih =>
    cases r with
    | none => exact ih h
    | some r =>
      obtain ⟨old, new, -, -, h⟩ := h
      rw [ih h, List.length_set]

theorem Painted.copies {k : Nat} {rs : List (Option Rendered)} {vs cells cells' : List ReplLogXValue}
    (h : Painted k rs cells cells') (hc : CellsCopy vs cells) :
    CellsCopy (writeCells k rs vs) cells' := by
  induction rs generalizing k vs cells with
  | nil =>
    obtain rfl : cells' = cells := h
    exact hc
  | cons r rs ih =>
    cases r with
    | none => exact ih h hc
    | some r =>
      obtain ⟨old, new, hold, hnew, h⟩ := h
      refine ih h ?_
      rw [List.set_eq_modify]
      refine hc.modify fun v c _ hcell hvc => ?_
      obtain rfl : old = c := Option.some.inj (hold.symm.trans hcell)
      exact hnew.copies (hvc.setLen 0)

theorem logEventGetValue2_follows {c : CellState} {col : Column} {info : ColInfo} {value : Nat}
    {isPartial : Bool} {disp : DisplayBlobs} :
    Follows (rowsHalts os)
      (logEventGetValue2 lib os buf (some value) col.type.toNat col.metadata.toNat isPartial info
        disp) c
      (do
        let l ← reject (col.layout lib info.isUnsigned disp)
        scanField lib buf disp isPartial value l) (FieldDone c.cell) :=
  valueOfType_follows

theorem logEventGetValue2_null_follows {c : CellState} {col : Column} {info : ColInfo}
    {isPartial : Bool} {disp : DisplayBlobs} :
    Follows (rowsHalts os)
      (logEventGetValue2 lib os buf none col.type.toNat col.metadata.toNat isPartial info disp) c
      (do pure (← reject (col.nullRendered disp), 0)) (FieldDone c.cell) :=
  valueOfType_null_follows

theorem readPartialBit_follows (a : ImageArgs) (col : Column) (partialBit : Nat) :
    Follows (rowsHalts os) (readPartialBit buf a col partialBit) s
      (scanPartialBit buf a col partialBit) fun b s' c => b = c ∧ s = s' := by
  unfold readPartialBit scanPartialBit
  split
  · exact bitReaderGet_follows _ _
  · exact Follows.pure ⟨rfl, rfl⟩

theorem decodeColumn_follows {a : ImageArgs} {xRow : CellRef} {col : Column} {i nullBit value : Nat}
    {isPartial : Bool} {id : Nat} {cells : List ReplLogXValue} (hinfo : i < a.colInfo.length)
    (hb : s.set.block xRow.after = .block id cells) (hcells : xRow.index + i < cells.length) :
    Follows (rowsHalts os) (decodeColumn lib os buf a xRow col i nullBit value isPartial) s
      (scanColumn lib buf a col i nullBit value isPartial)
      fun size s' c => size = c.2 ∧ ∃ old new, cells[xRow.index + i]? = some old ∧
        c.1.Applied { old with len := 0 } new ∧
        s'.set = s.set.setBlock xRow.after (.block id (cells.set (xRow.index + i) new)) := by
  obtain ⟨old, hold⟩ : ∃ old, cells[xRow.index + i]? = some old := ⟨_, List.getElem?_eq_getElem hcells⟩
  obtain ⟨info, hinfo⟩ : ∃ info, a.colInfo[i]? = some info := ⟨_, List.getElem?_eq_getElem hinfo⟩
  have hsigned : unsignedAt a.colInfo i = info.isUnsigned := by rw [unsignedAt, hinfo]; rfl
  let cell : CellRef := ⟨xRow.after, xRow.index + i⟩
  let s₁ : RowsState := ⟨s.heap, s.set.setBlock xRow.after
    (.block id (cells.set (xRow.index + i) { old with len := 0 }))⟩
  have hlen : (setLen 0).run ⟨s.heap, old⟩ = .ok () ⟨s.heap, { old with len := 0 }⟩ := rfl
  have h₁ : (atCell cell (setLen 0)).run s = .ok () s₁ := atCell_run (r := cell) hb hold hlen
  have hb₁ : s₁.set.block xRow.after = .block id (cells.set (xRow.index + i) { old with len := 0 }) :=
    RowSet.block_setBlock _ _ _
  have hc₁ : (cells.set (xRow.index + i) { old with len := 0 })[xRow.index + i]? =
      some { old with len := 0 } := List.getElem?_set_self hcells
  unfold decodeColumn scanColumn
  simp only [hinfo]
  refine Follows.bind_run h₁ (Follows.bind (bitReaderGet_follows _ _) ?_)
  rintro isNull _ _ ⟨rfl, rfl⟩
  have hset : ∀ new, s₁.set.setBlock xRow.after (.block id
      ((cells.set (xRow.index + i) { old with len := 0 }).set (xRow.index + i) new)) =
      s.set.setBlock xRow.after (.block id (cells.set (xRow.index + i) new)) := fun new => by
    rw [List.set_set, RowSet.setBlock_setBlock]
  cases isNull with
  | true =>
    refine Follows.bind_run rfl ?_
    simp only [if_true]
    refine Follows.map (Follows.atCell hb₁ hc₁ logEventGetValue2_null_follows.remember) ?_
    rintro size s' c ⟨t, ⟨⟨-, hnew⟩, hv⟩, hs'⟩
    have hc : c.2 = 0 := by
      cases hr : col.nullRendered a.disp with
      | none => rw [hr] at hv; cases hv
      | some r => rw [hr] at hv; cases hv; rfl
    exact ⟨hc.symm, old, t.cell, hold, hnew, by rw [hs', hset]⟩
  | false =>
    unfold checkFieldSize scanValue
    simp only [Bool.false_eq_true, if_false, bind_assoc, hsigned]
    refine Follows.bind (atEvent_readBytes_follows _ _) ?_
    rintro pre _ _ ⟨rfl, rfl, -⟩
    split
    case isTrue => exact Follows.bind_error (run_throw' _ _) rfl
    case isFalse =>
      refine Follows.bind_run rfl ?_
      refine Follows.map (Follows.atCell hb₁ hc₁ logEventGetValue2_follows) ?_
      rintro size s' c ⟨t, ⟨hsize, hnew⟩, hs'⟩
      exact ⟨hsize, old, t.cell, hold, hnew, by rw [hs', hset]⟩

theorem columnLoop_follows {a : ImageArgs} {xRow : CellRef} {cols : List Column}
    {i nullBit partialBit value : Nat}
    {id : Nat} {cells : List ReplLogXValue} (hinfo : i + cols.length ≤ a.colInfo.length)
    (hb : s.set.block xRow.after = .block id cells) (hcells : xRow.index + i + cols.length ≤ cells.length) :
    Follows (rowsHalts os) (columnLoop lib os buf a xRow cols i nullBit partialBit value) s
      (scanColumns lib buf a cols i nullBit partialBit value)
      fun v s' c => v = c.2 ∧ ∃ cells', Painted (xRow.index + i) c.1 cells cells' ∧
        s'.set = s.set.setBlock xRow.after (.block id cells') := by
  induction cols generalizing i nullBit partialBit value s cells with
  | nil => exact Follows.pure ⟨rfl, cells, rfl, (RowSet.setBlock_self hb).symm⟩
  | cons col cols ih =>
    rw [List.length_cons] at hinfo hcells
    unfold columnLoop scanColumns
    refine Follows.bind (readPartialBit_follows a col partialBit) ?_
    rintro isPartial _ _ ⟨rfl, rfl⟩
    split
    · -- The column is not in the image: its cell stays as it is.
      refine Follows.map_right (ih (by omega) hb (by omega)) ?_
      rintro v s' c ⟨rfl, cells', hp, hs⟩
      exact ⟨rfl, cells', hp, hs⟩
    · refine Follows.bind (decodeColumn_follows (by omega) hb (by omega)) ?_
      rintro size s₁ c ⟨rfl, old, new, hold, hnew, hs₁⟩
      refine Follows.map_right (ih (by omega)
        (by rw [hs₁, RowSet.block_setBlock]) (by rw [List.length_set]; omega)) ?_
      rintro v s' c' ⟨rfl, cells', hp, hs⟩
      refine ⟨rfl, cells', ⟨old, new, hold, hnew, hp⟩, ?_⟩
      rw [hs, hs₁, RowSet.setBlock_setBlock]

-- ---------------------------------------------------------------------------
-- One more row
-- ---------------------------------------------------------------------------

def ReplLogXValue.absent : ReplLogXValue := { ReplLogXValue.zero with len := -1 }

/-- The flat block of these rows. Its cells show one row after the other only while
the 32-bit index does not wrap. -/
def BlockOf (m : Nat) (rows : List (List (Option Rendered))) (p : Ptr (List ReplLogXValue)) : Prop :=
  rows = [] ∨ ∃ id cells, p = .block id cells ∧ cells.length = rows.length * m ∧
    (rows.length * m < 2 ^ 32 → List.Forall₂ ReplLogXValue.Shows cells rows.flatten) ∧
    CellsCopy (flatCells m rows) cells

theorem absentCells_length (k i count : Nat) (cells : List ReplLogXValue) :
    (absentCells k i count cells).length = cells.length := by
  induction count generalizing i cells with
  | zero => rfl
  | succ count ih => rw [absentCells, ih, List.length_modify]

theorem absentCells_append {k i count : Nat} {cells : List ReplLogXValue}
    (hk : cells.length = k + i) (hlt : k + i + count < 2 ^ 32) :
    absentCells k i count (cells ++ List.replicate count .zero) =
      cells ++ List.replicate count .absent := by
  induction count generalizing i cells with
  | zero => rfl
  | succ count ih =>
    have hmod : (cells ++ List.replicate (count + 1) ReplLogXValue.zero).modify (uint32 (k + i))
        (fun c => { c with len := -1 }) = (cells ++ [.absent]) ++ List.replicate count .zero := by
      rw [uint32_of_lt (by omega), ← hk, List.modify_eq_take_cons_drop (by simp)]
      simp [List.replicate_succ, ReplLogXValue.absent]
    rw [absentCells, hmod, ih (by simp [hk]; omega) (by omega), List.replicate_succ,
      List.append_assoc, List.singleton_append]

theorem absent_shows_iff {m : Nat} {cells : List ReplLogXValue} :
    List.Forall₂ ReplLogXValue.Shows cells (List.replicate m none) ↔
      cells = List.replicate m .absent := by
  induction m generalizing cells with
  | zero => simp
  | succ m ih =>
    rw [List.replicate_succ, List.forall₂_cons_right_iff, List.replicate_succ]
    constructor
    · rintro ⟨c, cs, hc, hcs, rfl⟩
      rw [ih.mp hcs]
      exact congrArg (· :: _) hc
    · rintro rfl
      exact ⟨_, _, rfl, ih.mpr rfl, rfl⟩

theorem growCells_eq {m : Nat} {rows : List (List (Option Rendered))} {cells : List ReplLogXValue}
    (hlen : cells.length = rows.length * m) :
    ∃ cells', growCells cells rows.length m = some cells' ∧
      cells'.length = (rows.length + 1) * m ∧
      ((rows.length + 1) * m < 2 ^ 32 → cells' = cells ++ List.replicate m .absent) := by
  have hsucc : (rows.length + 1) * m = cells.length + m := by rw [Nat.succ_mul, hlen]
  let grown := cells ++ List.replicate m ReplLogXValue.junk
  have hk : uint32 (rows.length * m) + m ≤ grown.length := by
    have := Nat.mod_le (rows.length * m) (2 ^ 32)
    simp only [grown, List.length_append, List.length_replicate, uint32]
    omega
  have hgrow : growCells cells rows.length m = some (absentCells (uint32 (rows.length * m)) 0 m
      (grown.take (uint32 (rows.length * m)) ++ List.replicate m .zero ++
        grown.drop (uint32 (rows.length * m) + m))) := by
    simp only [growCells, zeroCells, hsucc, Nat.add_sub_cancel_left]
    rw [if_pos hk]
    rfl
  refine ⟨_, hgrow, ?_, fun hlt => ?_⟩
  · rw [absentCells_length]
    simp only [List.length_append, List.length_take, List.length_replicate, List.length_drop]
    simp only [grown, List.length_append, List.length_replicate] at hk ⊢
    omega
  · rw [uint32_of_lt (by omega), ← hlen]
    have h1 : grown.take cells.length = cells := by simp [grown]
    have h2 : grown.drop (cells.length + m) = [] := by simp [grown]
    rw [h1, h2, List.append_nil, absentCells_append (by simp) (by omega)]

theorem request_zoom_triple :
    Triple (zoom RowsState.heapPart (Heap.request os) : RowsM (Option Nat)) s
      (fun r s' => s'.set = s.set ∧ (r = none → ¬ os.Succeeds)) fun _ _ => False := by
  refine (Triple.zoom (Heap.request_triple (E := fun _ _ => False))).mono ?_ ?_
  · rintro r s' ⟨h', hr, rfl⟩
    exact ⟨rfl, hr⟩
  · rintro e s' ⟨h', he, -⟩
    exact he

theorem realloc_zoom_triple (p : Ptr (List ReplLogXValue)) :
    Triple (zoom RowsState.heapPart (Heap.realloc os p) : RowsM (Option Nat)) s
      (fun r s' => s'.set = s.set ∧ (r = none → ¬ os.Succeeds)) fun _ _ => False := by
  refine (Triple.zoom (Heap.realloc_triple (E := fun _ _ => False) p)).mono ?_ ?_
  · rintro r s' ⟨h', hr, rfl⟩
    exact ⟨rfl, hr⟩
  · rintro e s' ⟨h', he, -⟩
    exact he

theorem BlockOf.keptCells {m : Nat} {rows : List (List (Option Rendered))}
    {p : Ptr (List ReplLogXValue)} (h : BlockOf m rows p) :
    (keptCells p rows.length).length = rows.length * m ∧ (rows.length * m < 2 ^ 32 →
      List.Forall₂ ReplLogXValue.Shows (RplListener.keptCells p rows.length) rows.flatten) ∧
      CellsCopy (flatCells m rows) (RplListener.keptCells p rows.length) := by
  rcases h with rfl | ⟨id, cells, rfl, hlen, hshow⟩
  · have hk : RplListener.keptCells p 0 = [] := by cases p <;> rfl
    simp [hk]
  · by_cases hr : rows.length = 0
    · obtain rfl := List.length_eq_zero_iff.mp hr
      simp [RplListener.keptCells]
    · rw [RplListener.keptCells, if_neg hr]
      exact ⟨hlen, hshow⟩

theorem growBlock_triple {m : Nat} {rows : List (List (Option Rendered))}
    {p : Ptr (List ReplLogXValue)} (h : BlockOf m rows p) :
    Triple (growBlock os p rows.length m) s
      (fun p' s' => s'.set = s.set ∧ BlockOf m (rows ++ [List.replicate m none]) p')
      fun e _ => (rowsHalts os).spare e := by
  obtain ⟨hlen, hshow, hcopy⟩ := h.keptCells
  obtain ⟨cells', hgrow, hlen', happ⟩ := growCells_eq hlen
  unfold growBlock
  refine Triple.bind (Q := fun r s' => s'.set = s.set ∧ (r = none → ¬ os.Succeeds)) ?_ ?_
  · split
    · exact request_zoom_triple.mono (fun _ _ h => h) fun _ _ h => h.elim
    · exact (realloc_zoom_triple p).mono (fun _ _ h => h) fun _ _ h => h.elim
  rintro id s' ⟨hs, hid⟩
  cases id with
  | none => exact Triple.throw ⟨rfl, hid rfl⟩
  | some id =>
    simp only [hgrow]
    refine Triple.pure ⟨hs, .inr ⟨id, cells', rfl, by simpa using hlen', fun hlt => ?_, ?_⟩⟩
    · rw [List.length_append, List.length_singleton] at hlt
      rw [happ hlt, List.flatten_append, List.flatten_singleton]
      exact List.rel_append (hshow (by rw [Nat.succ_mul] at hlt; omega)) (absent_shows_iff.mpr rfl)
    · rw [flatCells_concat, writeCells_absent]
      exact growCells_copy hcopy hgrow

structure RowSetOf (m : Nat) (update : Bool) (rows : List Row) (set : RowSet) : Prop where
  count : set.rowsCount = rows.length
  before : BlockOf m (rows.map Row.before) set.rowsL2
  after : update = true → BlockOf m (rows.map Row.after) set.rowsAfterL2

def absentRow (m : Nat) : Row := ⟨List.replicate m none, List.replicate m none⟩

theorem modifySet_run (f : RowSet → RowSet) :
    (modifySet f).run s = .ok () { s with set := f s.set } := rfl

theorem addBeforeMem_triple {m : Nat} {rows : List (List (Option Rendered))}
    (hcount : s.set.rowsCount = rows.length) (h : BlockOf m rows s.set.rowsL2) :
    Triple (addBeforeMem os m) s
      (fun _ s' => ∃ p, s'.set = { s.set with rowsL2 := p } ∧
        BlockOf m (rows ++ [List.replicate m none]) p)
      fun e _ => (rowsHalts os).spare e := by
  unfold addBeforeMem
  refine Triple.bind (Q := fun r s' => r = s ∧ s' = s) (Triple.of_run rfl ⟨rfl, rfl⟩) ?_
  rintro _ _ ⟨rfl, rfl⟩
  refine Triple.bind (hcount ▸ growBlock_triple h) fun p s' ⟨hs, hp⟩ => ?_
  exact Triple.of_run (modifySet_run _) ⟨p, by rw [hs], hp⟩

theorem addAfterMem_triple {m : Nat} (rows : List (List (Option Rendered))) {t : RowImageType}
    (hcount : s.set.rowsCount = rows.length) (h : t = .updateBI → BlockOf m rows s.set.rowsAfterL2) :
    Triple (addAfterMem os m t) s
      (fun _ s' => ∃ p, s'.set = { s.set with rowsAfterL2 := p } ∧
        (t = .updateBI → BlockOf m (rows ++ [List.replicate m none]) p))
      fun e _ => (rowsHalts os).spare e := by
  unfold addAfterMem
  split
  case isTrue ht =>
    refine Triple.bind (Q := fun r s' => r = s ∧ s' = s) (Triple.of_run rfl ⟨rfl, rfl⟩) ?_
    rintro _ _ ⟨rfl, rfl⟩
    refine Triple.bind (hcount ▸ growBlock_triple (h ht)) fun p s' ⟨hs, hp⟩ => ?_
    exact Triple.of_run (modifySet_run _) ⟨p, by rw [hs], fun _ => hp⟩
  case isFalse ht => exact Triple.pure ⟨_, rfl, fun h => absurd h ht⟩

theorem addRowMem_triple {m : Nat} {update : Bool} {rows : List Row} {t : RowImageType}
    (h : RowSetOf m update rows s.set) (ht : t ≠ .updateAI) (hu : update = (t == .updateBI))
    (hlt : rows.length + 1 < 2 ^ 32) :
    Triple (replLogXRowsAddRowMem os m t) s
      (fun _ s' => RowSetOf m update (rows ++ [absentRow m]) s'.set ∧
        s'.set.typeCode = s.set.typeCode)
      fun e _ => (rowsHalts os).spare e := by
  have hcount := h.count
  have hlen : ∀ f : Row → List (Option Rendered), (rows.map f).length = rows.length :=
    fun f => List.length_map f
  unfold replLogXRowsAddRowMem
  rw [if_pos ht]
  refine Triple.bind (addBeforeMem_triple (by rw [hcount, hlen]) h.before) ?_
  rintro _ s₁ ⟨p, hs₁, hp⟩
  refine Triple.bind (addAfterMem_triple (rows.map Row.after)
    (by rw [hs₁, hlen]; exact hcount) fun hbi => ?_) ?_
  · rw [hs₁]
    exact h.after (by rw [hu, hbi]; rfl)
  rintro _ s₂ ⟨q, hs₂, hq⟩
  refine Triple.of_run (modifySet_run _) ⟨⟨?_, ?_, ?_⟩, by rw [hs₂, hs₁]⟩
  · simp only [hs₂, hs₁, hcount, List.length_append, List.length_singleton]
    exact uint32_of_lt hlt
  · rw [List.map_append, hs₂, hs₁]
    exact hp
  · intro hup
    rw [List.map_append, hs₂]
    exact hq (by rw [hu] at hup; simpa using hup)

-- ---------------------------------------------------------------------------
-- One image
-- ---------------------------------------------------------------------------

theorem Painted.shows {rs : List (Option Rendered)} {pre cells' : List ReplLogXValue}
    (h : Painted pre.length rs (pre ++ List.replicate rs.length .absent) cells') :
    ∃ row, cells' = pre ++ row ∧ List.Forall₂ ReplLogXValue.Shows row rs := by
  induction rs generalizing pre with
  | nil => exact ⟨[], by simpa [Painted] using h, .nil⟩
  | cons r rs ih =>
    rw [List.length_cons, List.replicate_succ] at h
    cases r with
    | none =>
      obtain ⟨row, rfl, hrow⟩ := @ih (pre ++ [.absent]) (by simpa [Painted] using h)
      exact ⟨.absent :: row, by simp, .cons rfl hrow⟩
    | some r =>
      obtain ⟨old, new, hold, hnew, h⟩ := h
      obtain rfl : ReplLogXValue.absent = old := by simpa using hold
      obtain ⟨row, rfl, hrow⟩ := @ih (pre ++ [new]) (by simpa using h)
      exact ⟨new :: row, by simp, .cons hnew.shows hrow⟩

theorem BlockOf.paint {m id : Nat} {rows : List (List (Option Rendered))}
    {rs : List (Option Rendered)} {cells cells' : List ReplLogXValue} (hm : rs.length = m)
    (h : BlockOf m (rows ++ [List.replicate m none]) (.block id cells))
    (hp : Painted (uint32 (rows.length * m)) rs cells cells') :
    BlockOf m (rows ++ [rs]) (.block id cells') := by
  rcases h with h | ⟨_, _, hb, hlen, hshow, hcopy⟩
  · simp at h
  cases hb
  rw [flatCells_concat, writeCells_absent] at hcopy
  refine .inr ⟨id, cells', rfl, by rw [hp.length, hlen]; simp, fun hlt => ?_, ?_⟩
  case refine_2 =>
    rw [flatCells_concat]
    exact hp.copies hcopy
  rw [List.length_append, List.length_singleton] at hlt hshow hlen
  have hall := hshow hlt
  rw [List.flatten_append, List.flatten_singleton] at hall ⊢
  have hflat : rows.flatten.length = rows.length * m := by
    have := hall.length_eq
    rw [List.length_append, List.length_replicate, hlen, Nat.succ_mul] at this
    omega
  -- The block is the old rows and a row of absent cells.
  have htail := absent_shows_iff.mp (List.forall₂_drop_append _ _ _ hall)
  have hcells := (List.take_append_drop rows.flatten.length cells).symm
  have hold := List.forall₂_take_append _ _ _ hall
  have hpre : (cells.take rows.flatten.length).length = uint32 (rows.length * m) := by
    rw [List.length_take, hflat, hlen, uint32_of_lt (by rw [Nat.succ_mul] at hlt; omega),
      Nat.succ_mul]
    omega
  generalize cells.take rows.flatten.length = old at hcells hold hpre
  rw [htail, ← hm] at hcells
  rw [← hpre, hcells] at hp
  obtain ⟨row, rfl, hrow⟩ := hp.shows
  exact List.rel_append hold hrow

theorem scanColumns_length {a : ImageArgs} {cols : List Column} {i nullBit partialBit value : Nat}
    {c : List (Option Rendered) × Nat}
    (h : scanColumns lib buf a cols i nullBit partialBit value = .ok c) :
    c.1.length = cols.length := by
  induction cols generalizing i nullBit partialBit value c with
  | nil => cases h; rfl
  | cons col cols ih =>
    unfold scanColumns at h
    obtain ⟨isPartial, -, h⟩ := bind_eq_ok.mp h
    simp only at h
    split at h
    · obtain ⟨rest, hr, h⟩ := bind_eq_ok.mp h
      cases h
      exact congrArg (· + 1) (ih hr)
    · obtain ⟨cell, -, h⟩ := bind_eq_ok.mp h
      obtain ⟨rest, hr, h⟩ := bind_eq_ok.mp h
      cases h
      exact congrArg (· + 1) (ih hr)

theorem readValueOptions_follows {r : RowsArgs} {t : RowImageType} {value : Nat} :
    Follows (rowsHalts os) (readValueOptions lib buf r t value) s
      (scanOptions lib buf r (decide (t = .updateAI) && r.typeCode == .partialUpdateRows) value)
      fun x s' c => x = c ∧ s = s' := by
  unfold readValueOptions scanOptions
  by_cases h : r.typeCode = .partialUpdateRows ∧ t = .updateAI
  · rw [if_pos h, if_pos (by simp [h.1, h.2])]
    refine Follows.bind (atEvent_netFieldLengthChecked_follows _ _ _) ?_
    rintro ⟨valueOptions, taken⟩ _ _ ⟨rfl, rfl⟩
    simp only
    split
    · exact Follows.pure ⟨rfl, rfl⟩
    · exact Follows.pure ⟨rfl, rfl⟩
  · rw [if_neg h, if_neg (by simp only [Bool.and_eq_true, decide_eq_true_eq, beq_iff_eq]; tauto)]
    exact Follows.pure ⟨rfl, rfl⟩

/-- What the decoder is given fits the table. -/
structure RowsArgs.Sound (r : RowsArgs) : Prop where
  colCount : r.colCount = r.td.columns.length
  colInfo : r.td.columns.length ≤ r.colInfo.length

theorem lastRow_follows {r : RowsArgs} (hr : r.Sound)
    {after : Bool} {rows : List (List (Option Rendered))} {a : ImageArgs} {value : Nat}
    (hinfo : a.colInfo = r.colInfo)
    (hb : BlockOf r.colCount (rows ++ [List.replicate r.colCount none]) (s.set.block after)) :
    Follows (rowsHalts os)
      (columnLoop lib os buf a ⟨after, uint32 (rows.length * r.colCount)⟩ r.td.columns 0 0 0 value) s
      (scanColumns lib buf a r.td.columns 0 0 0 value)
      fun v s' c => v = c.2 ∧ ∃ p, s'.set = s.set.setBlock after p ∧
        BlockOf r.colCount (rows ++ [c.1]) p := by
  obtain ⟨id, cells, hcells, hlen⟩ : ∃ id cells, s.set.block after = .block id cells ∧
      cells.length = (rows.length + 1) * r.colCount := by
    rcases hb with hb | ⟨id, cells, hb, hlen, -⟩
    · simp at hb
    · exact ⟨id, cells, hb, by rw [hlen]; simp⟩
  have hbase : uint32 (rows.length * r.colCount) ≤ rows.length * r.colCount := Nat.mod_le _ _
  refine (columnLoop_follows
    (by rw [hinfo, Nat.zero_add]; exact hr.colInfo) hcells ?_).remember.mono ?_
  · rw [hlen, Nat.succ_mul, ← hr.colCount]
    exact Nat.add_le_add_right hbase _
  · rintro v s' c ⟨⟨rfl, cells', hp, hs⟩, hc⟩
    rw [hcells] at hb
    exact ⟨rfl, _, hs, hb.paint (by rw [scanColumns_length hc, hr.colCount]) hp⟩

theorem lastIndex_eq {n m : Nat} (hn : n + 1 < 2 ^ 32) :
    uint32 (uint32 (n + 1 + (2 ^ 32 - 1)) * m) = uint32 (n * m) := by
  have : uint32 (n + 1 + (2 ^ 32 - 1)) = n := by unfold uint32; omega
  rw [this]

theorem getOneRowValues_follows {r : RowsArgs} (hr : r.Sound)
    {update : Bool} {rows : List Row} {bitmap : List Bool} {t : RowImageType} {value : Nat}
    (h : RowSetOf r.colCount update rows s.set) (ht : t ≠ .updateAI)
    (hu : update = (t == .updateBI)) (hlt : rows.length + 1 < 2 ^ 32) :
    Follows (rowsHalts os) (getOneRowValues lib os buf r bitmap value t) s
      (scanImage lib buf r bitmap false value)
      fun length s' c => length = c.2 - value ∧ s'.set.typeCode = s.set.typeCode ∧
        RowSetOf r.colCount update (rows ++ [⟨c.1, List.replicate r.colCount none⟩]) s'.set := by
  unfold getOneRowValues scanImage
  have hopt := @readValueOptions_follows lib os buf s r t value
  rw [decide_eq_false ht] at hopt
  refine Follows.bind hopt ?_
  rintro ⟨valueOptions, partialPtr, value'⟩ _ _ ⟨rfl, rfl⟩
  refine Follows.bind_silent (addRowMem_triple h ht hu hlt) ?_
  rintro _ s₁ ⟨h₁, htype⟩
  refine Follows.bind_run (EStateM.run_get s₁) ?_
  simp only [h₁.count, List.length_append, List.length_singleton, lastIndex_eq hlt,
    decide_eq_false ht]
  have hb : BlockOf r.colCount (rows.map Row.before ++ [List.replicate r.colCount none])
      (s₁.set.block false) := by
    have := h₁.before
    rwa [List.map_append] at this
  have hcol := @lastRow_follows lib os buf s₁ r hr false _ {
    bitmap, valueOptions, partialPtr, nullPtr := value', colInfo := r.colInfo, disp := r.disp }
    (value' + (bitmapBitsSet bitmap + 7) / 8) rfl hb
  rw [List.length_map] at hcol
  refine Follows.map hcol ?_
  rintro v s' c ⟨rfl, p, hs', hp⟩
  refine ⟨rfl, by rw [hs', RowSet.setBlock_typeCode, htype], ⟨?_, ?_, fun hup => ?_⟩⟩
  · rw [hs', RowSet.setBlock_rowsCount]
    simpa using h₁.count
  · rw [hs', List.map_append]
    exact hp
  · have := h₁.after hup
    rw [hs', List.map_append]
    rwa [List.map_append] at this

theorem getOneRowValues_after_follows {r : RowsArgs} (hr : r.Sound)
    {rows : List Row} {before : List (Option Rendered)} {bitmap : List Bool} {value : Nat}
    (h : RowSetOf r.colCount true (rows ++ [⟨before, List.replicate r.colCount none⟩]) s.set)
    (hlt : rows.length + 1 < 2 ^ 32) :
    Follows (rowsHalts os) (getOneRowValues lib os buf r bitmap value .updateAI) s
      (scanImage lib buf r bitmap true value)
      fun length s' c => length = c.2 - value ∧ s'.set.typeCode = s.set.typeCode ∧
        RowSetOf r.colCount true (rows ++ [⟨before, c.1⟩]) s'.set := by
  unfold getOneRowValues scanImage
  refine Follows.bind readValueOptions_follows ?_
  rintro ⟨valueOptions, partialPtr, value'⟩ _ _ ⟨rfl, rfl⟩
  refine Follows.bind_run (a := ()) rfl (Follows.bind_run (EStateM.run_get s) ?_)
  simp only [h.count, List.length_append, List.length_singleton, lastIndex_eq hlt, decide_true]
  have hb : BlockOf r.colCount (rows.map Row.after ++ [List.replicate r.colCount none])
      (s.set.block true) := by
    have := h.after rfl
    rwa [List.map_append] at this
  have hcol := @lastRow_follows lib os buf s r hr true _ {
    bitmap, valueOptions, partialPtr, nullPtr := value', colInfo := r.colInfo, disp := r.disp }
    (value' + (bitmapBitsSet bitmap + 7) / 8) rfl hb
  rw [List.length_map] at hcol
  refine Follows.map hcol ?_
  rintro v s' c ⟨rfl, p, hs', hp⟩
  refine ⟨rfl, by rw [hs', RowSet.setBlock_typeCode], ⟨?_, ?_, fun _ => ?_⟩⟩
  · rw [hs', RowSet.setBlock_rowsCount]
    simpa using h.count
  · have := h.before
    rw [hs', List.map_append]
    rwa [List.map_append] at this
  · rw [hs', List.map_append]
    exact hp

-- ---------------------------------------------------------------------------
-- All images
-- ---------------------------------------------------------------------------

theorem scanOptions_le {r : RowsArgs} {partialAfter : Bool} {value : Nat} {c : Nat × Nat × Nat}
    (h : scanOptions lib buf r partialAfter value = .ok c) : value ≤ c.2.2 := by
  unfold scanOptions at h
  split at h
  · obtain ⟨⟨valueOptions, taken⟩, -, h⟩ := bind_eq_ok.mp h
    simp only at h
    split at h <;> cases h <;> simp only <;> omega
  · cases h
    exact le_rfl

theorem scanColumns_le {a : ImageArgs} {cols : List Column} {i nullBit partialBit value : Nat}
    {c : List (Option Rendered) × Nat}
    (h : scanColumns lib buf a cols i nullBit partialBit value = .ok c) : value ≤ c.2 := by
  induction cols generalizing i nullBit partialBit value c with
  | nil => cases h; exact le_rfl
  | cons col cols ih =>
    unfold scanColumns at h
    obtain ⟨isPartial, -, h⟩ := bind_eq_ok.mp h
    simp only at h
    split at h
    · obtain ⟨rest, hr, h⟩ := bind_eq_ok.mp h
      cases h
      exact Nat.le_trans (ih hr) le_rfl
    · obtain ⟨cell, -, h⟩ := bind_eq_ok.mp h
      obtain ⟨rest, hr, h⟩ := bind_eq_ok.mp h
      cases h
      have := ih hr
      simp only
      omega

theorem scanImage_le {r : RowsArgs} {bitmap : List Bool} {after : Bool} {value : Nat}
    {c : List (Option Rendered) × Nat} (h : scanImage lib buf r bitmap after value = .ok c) :
    value ≤ c.2 := by
  obtain ⟨⟨valueOptions, partialPtr, value'⟩, ho, h⟩ := bind_eq_ok.mp h
  have h1 := scanOptions_le ho
  have h2 := scanColumns_le h
  simp only at h1 h2
  omega

/-- The loop from `value` on, with the rows before it decoded. Every one of
them took a byte at least. -/
theorem imageLoop_follows {r : RowsArgs} (hr : r.Sound) (hbuf : buf.length < 2 ^ 32)
    {first : RowImageType} {cols colsAi : List Bool} {fuel value : Nat} {rows : List Row}
    (ht : first ≠ .updateAI) (h : RowSetOf r.colCount (first == .updateBI) rows s.set)
    (hlt : rows.length ≤ value) :
    Follows (rowsHalts os) (imageLoop lib os buf r first cols colsAi fuel value) s
      (scanRows lib buf r (first == .updateBI) cols colsAi fuel value)
      fun v s' c => v = c.2 ∧ s'.set.typeCode = s.set.typeCode ∧
        RowSetOf r.colCount (first == .updateBI) (rows ++ c.1) s'.set := by
  induction fuel generalizing value s rows with
  | zero => exact Follows.pure ⟨rfl, rfl, by simpa using h⟩
  | succ fuel ih =>
    unfold imageLoop scanRows
    split
    case isFalse => exact Follows.pure ⟨rfl, rfl, by simpa using h⟩
    case isTrue hv =>
      simp only [show r.td.size = r.colCount from hr.colCount.symm]
      refine Follows.bind (getOneRowValues_follows hr h ht rfl (by omega)).remember ?_
      rintro _ s₁ ⟨before, valueAfter⟩ ⟨⟨rfl, htype, h₁⟩, hscan⟩
      have hle := scanImage_le hscan
      simp only at hle h₁ ⊢
      by_cases heq : valueAfter = value
      · rw [if_neg (by omega), if_pos heq]
        exact Follows.of_run rfl ⟨rfl, htype, h₁⟩
      rw [if_pos (by omega), if_neg heq, Nat.add_sub_cancel' hle]
      by_cases hup : first = .updateBI
      · subst hup
        rw [if_pos rfl, if_pos (show (RowImageType.updateBI == .updateBI) = true from rfl)]
        refine Follows.bind (getOneRowValues_after_follows hr h₁ (by omega)).remember ?_
        rintro _ s₂ ⟨after, valueNext⟩ ⟨⟨rfl, htype₂, h₂⟩, hscan₂⟩
        have hle₂ := scanImage_le hscan₂
        simp only at hle₂ h₂ ⊢
        by_cases heq₂ : valueNext = valueAfter
        · rw [if_neg (by omega), if_pos heq₂]
          exact Follows.of_run rfl ⟨by omega, by rw [htype₂, htype], h₂⟩
        rw [if_pos (by omega), if_neg heq₂, Nat.add_sub_cancel' hle₂]
        refine Follows.map_right (ih h₂ (by simp; omega)) ?_
        rintro _ s₃ ⟨more, stop⟩ ⟨rfl, htype₃, h₃⟩
        exact ⟨rfl, by rw [htype₃, htype₂, htype], by simpa using h₃⟩
      · rw [if_neg hup, if_neg (by simpa using hup)]
        refine Follows.map_right (ih h₁ (by simp; omega)) ?_
        rintro _ s₃ ⟨more, stop⟩ ⟨rfl, htype₃, h₃⟩
        exact ⟨rfl, by rw [htype₃, htype], by simpa using h₃⟩

structure Delivered (m : Nat) (update : Bool) (rows : List Row) (set : RowSet) : Prop
    extends RowSetOf m update rows set where
  rowPtrs : ∃ id, set.rows = .block id (rowOffsets rows.length m)
  rowAfterPtrs : update = true → ∃ id, set.rowsAfter = .block id (rowOffsets rows.length m)

theorem allocPointers_triple :
    Triple (allocPointers os) s (fun _ s' => s'.set = s.set) fun e _ => (rowsHalts os).spare e := by
  unfold allocPointers
  refine Triple.bind (request_zoom_triple.mono (fun _ _ h => h) fun _ _ h => h.elim) ?_
  rintro r s' ⟨hs, hr⟩
  cases r with
  | none => exact Triple.throw ⟨rfl, hr rfl⟩
  | some id => exact Triple.pure hs

theorem finish_triple {m : Nat} {update : Bool} {rows : List Row}
    (h : RowSetOf m update rows s.set) (hu : update = true → s.set.typeCode = replLogXUpdate) :
    Triple (replLogXRowsFinish os m) s
      (fun _ s' => Delivered m update rows s'.set ∧ s'.set.typeCode = s.set.typeCode)
      fun e _ => (rowsHalts os).spare e := by
  unfold replLogXRowsFinish
  refine Triple.bind allocPointers_triple fun id s₁ hs₁ => ?_
  refine Triple.bind (Q := fun _ s' => s'.set =
    { s.set with rows := .block id (rowOffsets s.set.rowsCount m) })
    (Triple.of_run (modifySet_run _) (by rw [hs₁])) fun _ s₂ hs₂ => ?_
  refine Triple.bind (Q := fun r s' => r = s₂ ∧ s' = s₂) (Triple.of_run rfl ⟨rfl, rfl⟩) ?_
  rintro _ _ ⟨rfl, rfl⟩
  split
  case isTrue htype =>
    refine Triple.bind allocPointers_triple fun id' s₃ hs₃ => ?_
    refine Triple.of_run (modifySet_run _) ⟨⟨⟨?_, ?_, fun hup => ?_⟩, ⟨id, ?_⟩, fun _ => ⟨id', ?_⟩⟩, ?_⟩
    all_goals simp only [hs₃, hs₂]
    · exact h.count
    · exact h.before
    · exact h.after hup
    · rw [h.count]
    · rw [h.count]
  case isFalse htype =>
    rw [hs₂] at htype
    refine Triple.pure ⟨⟨⟨?_, ?_, fun hup => ?_⟩, ⟨id, ?_⟩, fun hup => absurd (hu hup) htype⟩, ?_⟩
    all_goals simp only [hs₂]
    · exact h.count
    · exact h.before
    · exact h.after hup
    · rw [h.count]

end RplListener
