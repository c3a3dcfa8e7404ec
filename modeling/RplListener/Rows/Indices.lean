import RplListener.Rows.RoundTrip

/-!
# Indices of cells

The cells of all rows lie in one flat block. Its size is computed in 64 bits and
the index of a row's first cell in 32 bits, so an event with `2 ^ 32` cells or
more has rows that share them.
-/

namespace RplListener

open Bytes Refine

variable {lib : Library} {os : Allocator} {s : RowsState}

theorem flat_injective {m r r' i i' : Nat} (hi : i < m) (hi' : i' < m)
    (h : r * m + i = r' * m + i') : r = r' ∧ i = i' := by
  have hpos : 0 < m := by omega
  have hdiv : ∀ r i, i < m → (r * m + i) / m = r := by
    intro r i hi
    rw [Nat.mul_comm, Nat.mul_add_div hpos, Nat.div_eq_of_lt hi, Nat.add_zero]
  have hr : r = r' := by rw [← hdiv r i hi, h, hdiv r' i' hi']
  subst hr
  exact ⟨rfl, by omega⟩

/-- The first cell of row `r`, as it is computed when the row pointers are set. -/
def rowIndex (m r : Nat) : Nat := uint32 (r * m)

/-- The products that address the cells of the row set are the exact ones. -/
structure RowSet.Flat (set : RowSet) (m : Nat) (update : Bool) : Prop where
  /-- A new row is initialised behind the rows before it. -/
  grows : ∀ r < set.rowsCount, ∀ cells : List ReplLogXValue, cells.length = r * m →
    growCells cells r m = some (cells ++ List.replicate m .absent)
  /-- With `r + 1` rows the images are decoded into row `r`. -/
  decodes : ∀ r < set.rowsCount, uint32 (uint32 (r + 1 + (2 ^ 32 - 1)) * m) = r * m
  /-- A row pointer is that of its own row. -/
  rows : ∃ id, set.rows = .block id ((List.range set.rowsCount).map fun r => r * m)
  rowsAfter : update = true →
    ∃ id, set.rowsAfter = .block id ((List.range set.rowsCount).map fun r => r * m)
  /-- No two columns share a cell. -/
  apart : ∀ r < set.rowsCount, ∀ r' < set.rowsCount, ∀ i < m, ∀ i' < m,
    rowIndex m r + i = rowIndex m r' + i' → r = r' ∧ i = i'
  /-- Every cell is inside its block, and is freed with it. -/
  inside : ∀ after, (after = true → update = true) → ∀ id cells,
    set.rowsCount ≠ 0 → set.block after = .block id cells →
    (∀ r < set.rowsCount, ∀ i < m, rowIndex m r + i < cells.length) ∧
      uint32 (set.rowsCount * m) = cells.length
  clears : uint32 (set.rowsCount * m) = set.rowsCount * m

theorem RowSet.Flat.cells_lt {set : RowSet} {m : Nat} {update : Bool} (h : set.Flat m update) :
    set.rowsCount * m < 2 ^ 32 := by
  rw [← h.clears]
  exact Nat.mod_lt _ (by decide)

theorem BlockOf.length {m id : Nat} {rows : List (List (Option Rendered))}
    {cells : List ReplLogXValue} (h : BlockOf m rows (.block id cells)) (hne : rows ≠ []) :
    cells.length = rows.length * m := by
  rcases h with rfl | ⟨id', cells', hp, hlen, -⟩
  · exact absurd rfl hne
  · cases hp
    exact hlen

theorem Delivered.flat {m : Nat} {update : Bool} {rows : List Row} {set : RowSet}
    (h : Delivered m update rows set) (hlt : rows.length * m < 2 ^ 32) : set.Flat m update := by
  have hcount := h.count
  have hle : ∀ r < rows.length, (r + 1) * m ≤ rows.length * m := fun r hr =>
    Nat.mul_le_mul_right m hr
  have hindex : ∀ r < rows.length, rowIndex m r = r * m := by
    intro r hr
    have := hle r hr
    rw [Nat.succ_mul] at this
    exact uint32_of_lt (by omega)
  have hoffsets : rowOffsets rows.length m = (List.range rows.length).map fun r => r * m := by
    refine List.map_congr_left fun r hr => ?_
    exact hindex r (List.mem_range.mp hr)
  constructor
  case grows =>
    intro r hr cells hlen
    rw [hcount] at hr
    have hrep : (List.replicate r ([] : List (Option Rendered))).length = r := List.length_replicate
    obtain ⟨cells', hgrow, -, happ⟩ := growCells_eq (hrep.symm ▸ hlen)
    rw [hrep] at hgrow happ
    rw [hgrow, happ (Nat.lt_of_le_of_lt (hle r hr) hlt)]
  case decodes =>
    intro r hr
    rw [hcount] at hr
    rcases Nat.eq_zero_or_pos m with rfl | hm
    · simp [uint32]
    · have hr32 : r < 2 ^ 32 := by
        have := Nat.le_mul_of_pos_right rows.length hm
        omega
      have hpred : uint32 (r + 1 + (2 ^ 32 - 1)) = r := by
        unfold uint32
        omega
      rw [hpred]
      exact hindex r hr
  case rows =>
    rw [hcount, ← hoffsets]
    exact h.rowPtrs
  case rowsAfter =>
    rw [hcount, ← hoffsets]
    exact h.rowAfterPtrs
  case apart =>
    intro r hr r' hr' i hi i' hi' heq
    rw [hcount] at hr hr'
    rw [hindex r hr, hindex r' hr'] at heq
    exact flat_injective hi hi' heq
  case inside =>
    intro after hafter id cells hne hb
    rw [hcount] at hne ⊢
    have hlen : cells.length = rows.length * m := by
      cases after with
      | false =>
        have := (show BlockOf m (rows.map Row.before) (.block id cells) from hb ▸ h.before).length
        simpa [← List.length_eq_zero_iff, hne] using this
      | true =>
        have := (show BlockOf m (rows.map Row.after) (.block id cells) from
          hb ▸ h.after (hafter rfl)).length
        simpa [← List.length_eq_zero_iff, hne] using this
    rw [hlen]
    refine ⟨fun r hr i hi => ?_, uint32_of_lt hlt⟩
    have := hle r hr
    rw [Nat.succ_mul] at this
    rw [hindex r hr]
    omega
  case clears =>
    rw [hcount]
    exact uint32_of_lt hlt

/-- Where the walk succeeds, `get_rows` does when every allocation is granted. -/
theorem delivers_of_scan {c : RowsCall} {rows : List Row} {stop : Nat} (hc : c.Cached)
    (hx : scanEvent lib c = .ok (rows, stop)) :
    ∃ s', (getRows lib sampleAllocator c.ev c.map c.map.mColcnt c.info c.disp).run ⟨{}, {}⟩ =
      .ok stop s' ∧ s'.set.rowsCount = rows.length := by
  have hf := getRows_follows lib sampleAllocator (s := ⟨{}, {}⟩) hc rfl
  rw [hx] at hf
  obtain ⟨_, s', hrun, rfl, -, hd⟩ := hf.reaches fun _ _ _ hspare => hspare.2 fun _ => rfl
  exact ⟨s', hrun, hd.count⟩

/-- However `get_rows` succeeds on the event, the products are exact. -/
def RowsCall.FlatIndices (lib : Library) (c : RowsCall) : Prop :=
  ∀ os s value s', s.set.rowsCount = 0 →
    (getRows lib os c.ev c.map c.map.mColcnt c.info c.disp).run s = .ok value s' →
    s'.set.Flat c.map.mColcnt c.update

/-- The products are exact for an event exactly when it has fewer than `2 ^ 32`
cells. -/
theorem flatIndices_iff {c : RowsCall} {rows : List Row} {stop : Nat} (hc : c.Cached)
    (hx : scanEvent lib c = .ok (rows, stop)) :
    c.FlatIndices lib ↔ rows.length * c.map.mColcnt < 2 ^ 32 := by
  constructor
  · intro h
    obtain ⟨s', hrun, hcount⟩ := delivers_of_scan hc hx
    have hlt := (h _ _ _ _ rfl hrun).cells_lt
    rwa [hcount] at hlt
  · intro hlt os s value s' hs hrun
    obtain ⟨x, hx', -, -, hd⟩ := (getRows_follows lib os hc hs).ok hrun
    obtain rfl : (rows, stop) = x := Except.ok.inj (hx.symm.trans hx')
    exact hd.flat hlt

-- ---------------------------------------------------------------------------
-- An event with too many cells
-- ---------------------------------------------------------------------------

/-- The number is not evaluated in unary. -/
@[irreducible] def nullsCount : Nat := 536870911

theorem nullsCount_eq : nullsCount = 536870911 := by
  unfold nullsCount
  rfl

def wideRow (first : Slot) (nullBits : UInt8) : EncodedRow where
  first :=
    { options := [], valueOptions := 0, partialBits := [], nullBits := [nullBits]
      slots := first :: List.replicate 7 .null }
  after := none

/-- A row with a value, a row without one for each further `2 ^ 29`, and a row
with another value. -/
def wideRows : List EncodedRow :=
  wideRow (.value [1] []) 254 ::
    (List.replicate nullsCount (wideRow .null 255) ++ [wideRow (.value [2] []) 254])

theorem wideRows_length : wideRows.length = 536870913 := by
  have hone (e : EncodedRow) : [e].length = 1 := rfl
  rw [wideRows, List.length_cons, List.length_append, List.length_replicate, hone, nullsCount_eq]

theorem wideRows_bytes_length : (wideRows.flatMap EncodedRow.bytes).length = 536870915 := by
  have hfirst : (wideRow (.value [1] []) 254).bytes = [254, 1] := rfl
  have hlast : (wideRow (.value [2] []) 254).bytes = [254, 2] := rfl
  have hnull : (wideRow .null 255).bytes = [255] := rfl
  have hnulls (n : Nat) : ((List.replicate n (wideRow .null 255)).flatMap EncodedRow.bytes).length = n := by
    simp [List.length_flatMap, hnull]
  simp only [wideRows, List.flatMap_cons, List.flatMap_append, List.flatMap_nil, List.append_nil,
    List.length_append, hnulls, hfirst, hlast, nullsCount_eq]
  rfl

theorem wideRows_length_lt : (wideRows.flatMap EncodedRow.bytes).length < 2 ^ 32 := by
  rw [wideRows_bytes_length]
  decide

def wideTypes : List UInt8 := List.replicate 8 1

theorem wideColumns_length : (List.replicate 8 (⟨1, 0⟩ : Column)).length = wideTypes.length := rfl

theorem wideTypes_lt : wideTypes.length < 2 ^ 32 := by decide

def wideMap : TableMapLogEvent where
  tempBuf := []
  tableId := 1
  dbName := ascii "d"
  tableName := ascii "t"
  mColtype := wideTypes
  mOptionalMetadata := [1, 1, 255, 4, 16] ++ (List.range 8).flatMap fun k => [1, UInt8.ofNat (97 + k)]
  columns := List.replicate 8 ⟨1, 0⟩
  columns_length := wideColumns_length
  colcnt_lt := wideTypes_lt

def wideInsert : RowsLogEvent2 where
  typeCode := .writeRows
  when := 7
  tableId := 1
  ndbLength := none
  mCols := List.replicate 8 true
  mColsAi := List.replicate 8 true
  mRowsBuf := wideRows.flatMap EncodedRow.bytes
  size_lt := wideRows_length_lt

def wideNames : List (List UInt8) := (List.range 8).map fun k => [UInt8.ofNat (97 + k)]

def wideLibrary : Library :=
  { sampleLibrary with
    optionalMetadata := fun bs =>
      if bs = wideMap.mOptionalMetadata then .fields wideNames (List.replicate 8 true) else .invalid }

def wideCall : RowsCall where
  ev := wideInsert
  map := wideMap
  info := (8, wideNames.map fun name => ⟨1, name, true⟩)
  disp := ⟨true, false, false⟩

theorem wideMap_sizes {col : Column} (h : col ∈ wideMap.columns) : wideLibrary.FieldSize col := by
  obtain rfl : col = ⟨1, 0⟩ := (List.mem_replicate.mp h).2
  rintro isUnsigned disp l hl
  cases hl
  exact ⟨rfl, fun pre hpre hlt => rfl⟩

theorem wideMap_supported {col : Column} (h : col ∈ wideMap.columns) : col.Supported := by
  intro lib isUnsigned disp
  obtain rfl : col = ⟨1, 0⟩ := (List.mem_replicate.mp h).2
  rfl

theorem wideCall_cached : wideCall.Cached := Nat.le_refl 8

theorem wideRows_complete {e : EncodedRow} (h : e ∈ wideRows) : e.Complete wideLibrary
    (JsonPayload wideLibrary) wideCall.args wideCall.update wideInsert.mCols wideInsert.mColsAi := by
  rw [wideRows, List.mem_cons, List.mem_append, List.mem_singleton] at h
  rcases h with rfl | h | rfl
  · exact ⟨⟨⟨rfl, rfl⟩, rfl, rfl, ⟨by decide, by decide, by decide⟩, rfl, rfl, rfl, rfl, rfl, rfl, rfl,
      rfl⟩, rfl, by simp [wideRow]⟩
  · obtain rfl := (List.mem_replicate.mp h).2
    exact ⟨⟨⟨rfl, rfl⟩, rfl, rfl, rfl, rfl, rfl, rfl, rfl, rfl, rfl, rfl, rfl⟩, rfl,
      by simp [wideRow]⟩
  · exact ⟨⟨⟨rfl, rfl⟩, rfl, rfl, ⟨by decide, by decide, by decide⟩, rfl, rfl, rfl, rfl, rfl, rfl, rfl,
      rfl⟩, rfl, by simp [wideRow]⟩

theorem wideCall_scan : ∃ rows stop, scanEvent wideLibrary wideCall = .ok (rows, stop) ∧
    rows.length = 536870913 := by
  refine ⟨_, _, scanEvent_of_complete ⟨fun _ => wideMap_sizes, fun _ => wideMap_supported⟩ rfl
    (by decide) (fun _ => by decide) rfl (fun _ => wideRows_complete) ?_, ?_⟩
  · change (wideRows.flatMap EncodedRow.bytes).length < 2 ^ 30
    rw [wideRows_bytes_length]
    decide
  · rw [List.length_map, wideRows_length]

/-- The event has `2 ^ 29 + 1` rows of eight columns. -/
theorem wideCall_wraps : wideInsert.mRowsBuf.length = 536870915 ∧
    ¬ wideCall.FlatIndices wideLibrary := by
  refine ⟨wideRows_bytes_length, fun h => ?_⟩
  obtain ⟨rows, stop, hscan, hlen⟩ := wideCall_scan
  obtain ⟨s', hrun, hcount⟩ := delivers_of_scan wideCall_cached hscan
  have hlt := (h _ _ _ _ rfl hrun).cells_lt
  have hcols : wideCall.map.mColcnt = 8 := rfl
  rw [hcount, hlen, hcols] at hlt
  omega

theorem flatIndices_iff_sample : sampleCall.FlatIndices sampleLibrary :=
  (flatIndices_iff sampleCall_cached (sampleCall_encodes.scan sampleCall_readable)).mpr (by decide)

end RplListener
