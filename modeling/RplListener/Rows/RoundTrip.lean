import RplListener.Rows.GetRows
import RplListener.Rows.ImageScan

/-!
# Encoded rows are decoded

`getRows` on the bytes of complete images gives back, in `rows` and
`rows_after`, the cells of every row.
-/

namespace RplListener

open Bytes Refine

variable {lib : Library} {os : Allocator} {s : RowsState}

-- ---------------------------------------------------------------------------
-- The cells of a row set
-- ---------------------------------------------------------------------------

/-- `rows[r][c]`, or `rows_after[r][c]`. -/
def RowSet.cell? (set : RowSet) (after : Bool) (r c : Nat) : Option ReplLogXValue :=
  match (if after then set.rowsAfter else set.rows), set.block after with
  | .block _ offsets, .block _ cells => do cells[(← offsets[r]?) + c]?
  | _, _ => none

theorem getElem?_flatten {α : Type} {m r c : Nat} {rows : List (List α)} {row : List α}
    (hrows : ∀ x ∈ rows, x.length = m) (hr : rows[r]? = some row) (hc : c < m) :
    rows.flatten[r * m + c]? = row[c]? := by
  induction rows generalizing r with
  | nil => cases hr
  | cons x rows ih =>
    obtain ⟨hx, hrows⟩ := List.forall_mem_cons.mp hrows
    cases r with
    | zero =>
      cases hr
      rw [List.flatten_cons, Nat.zero_mul, Nat.zero_add, List.getElem?_append_left (by omega)]
    | succ r =>
      have hle : x.length ≤ (r + 1) * m + c := by rw [Nat.succ_mul]; omega
      rw [List.flatten_cons, List.getElem?_append_right hle,
        show (r + 1) * m + c - x.length = r * m + c by rw [Nat.succ_mul]; omega]
      exact ih hrows hr

theorem BlockOf.cell {m r c : Nat} {rows : List (List (Option Rendered))}
    {row : List (Option Rendered)} {x : Option Rendered} {p : Ptr (List ReplLogXValue)}
    (h : BlockOf m rows p) (hlt : rows.length * m < 2 ^ 32) (hrows : ∀ y ∈ rows, y.length = m)
    (hr : rows[r]? = some row) (hc : c < m) (hx : row[c]? = some x) :
    ∃ id cells cell, p = .block id cells ∧ cells[r * m + c]? = some cell ∧ cell.Shows x := by
  rcases h with rfl | ⟨id, cells, rfl, -, hshow, -⟩
  · cases hr
  · have hflat : rows.flatten[r * m + c]? = some x := by rw [getElem?_flatten hrows hr hc, hx]
    have hall := hshow hlt
    have hi : r * m + c < cells.length := by
      rw [hall.length_eq]
      exact (List.getElem?_eq_some_iff.mp hflat).1
    obtain ⟨hj, rfl⟩ := List.getElem?_eq_some_iff.mp hflat
    exact ⟨id, cells, cells[r * m + c], rfl, List.getElem?_eq_getElem hi, hall.get hi hj⟩

theorem Delivered.cell {m r c : Nat} {update : Bool} {rows : List Row} {row : Row}
    {x : Option Rendered} {set : RowSet} (h : Delivered m update rows set) (after : Bool)
    (hafter : after = true → update = true) (hlt : rows.length * m < 2 ^ 32)
    (hrows : ∀ y ∈ rows, y.before.length = m ∧ y.after.length = m)
    (hr : rows[r]? = some row) (hc : c < m)
    (hx : (if after then row.after else row.before)[c]? = some x) :
    ∃ cell, set.cell? after r c = some cell ∧ cell.Shows x := by
  have hrlt : r < rows.length := (List.getElem?_eq_some_iff.mp hr).1
  have hoff : (rowOffsets rows.length m)[r]? = some (r * m) := by
    have : r * m ≤ rows.length * m := Nat.mul_le_mul_right m hrlt.le
    rw [rowOffsets, List.getElem?_map, List.getElem?_range hrlt, Option.map_some,
      uint32_of_lt (by omega)]
  cases after with
  | false =>
    obtain ⟨id, hptrs⟩ := h.rowPtrs
    obtain ⟨id', cells, cell, hp, hcell, hshow⟩ := h.before.cell (by simpa using hlt)
      (by simpa using fun y hy => (hrows y hy).1) (by rw [List.getElem?_map, hr]; rfl) hc hx
    refine ⟨cell, ?_, hshow⟩
    simp [RowSet.cell?, hptrs, RowSet.block, hp, hoff, hcell]
  | true =>
    obtain ⟨id, hptrs⟩ := h.rowAfterPtrs (hafter rfl)
    obtain ⟨id', cells, cell, hp, hcell, hshow⟩ := (h.after (hafter rfl)).cell (by simpa using hlt)
      (by simpa using fun y hy => (hrows y hy).2) (by rw [List.getElem?_map, hr]; rfl) hc hx
    refine ⟨cell, ?_, hshow⟩
    simp [RowSet.cell?, hptrs, RowSet.block, hp, hoff, hcell]

-- ---------------------------------------------------------------------------
-- Encoded events
-- ---------------------------------------------------------------------------

section

variable {c : RowsCall} {cols colsAi : List Bool} {e : EncodedRow}

theorem EncodedRow.row_length
    (hfirst : (e.first.rendered lib (c.args.format cols false)).length = c.map.columns.length)
    (hafter : ∀ img ∈ e.after,
      (img.rendered lib (c.args.format colsAi true)).length = c.map.columns.length) :
    (e.row lib c.args cols colsAi).before.length = c.map.mColcnt ∧
      (e.row lib c.args cols colsAi).after.length = c.map.mColcnt := by
  refine ⟨hfirst.trans c.map.columns_length, ?_⟩
  unfold EncodedRow.row
  cases ha : e.after with
  | none => exact List.length_replicate.trans c.map.columns_length
  | some img => exact (hafter img ha).trans c.map.columns_length

theorem EncodedRow.Complete.row_length {docs : (isPartial : Bool) → (payload doc : List UInt8) → Prop}
    {update : Bool} (h : e.Complete lib docs c.args update cols colsAi) :
    (e.row lib c.args cols colsAi).before.length = c.map.mColcnt ∧
      (e.row lib c.args cols colsAi).after.length = c.map.mColcnt :=
  EncodedRow.row_length h.first.rendered_length fun img himg => (h.after img himg).rendered_length

theorem EncodedRow.Fits.row_length {rule : FieldRule} {rest : List UInt8}
    (h : e.Fits lib rule c.args cols colsAi rest) :
    (e.row lib c.args cols colsAi).before.length = c.map.mColcnt ∧
      (e.row lib c.args cols colsAi).after.length = c.map.mColcnt :=
  EncodedRow.row_length h.first.rendered_length fun img himg => (h.after img himg).rendered_length

end

theorem length_le_of_bytes_pos {rows : List EncodedRow}
    (hrows : ∀ e ∈ rows, 0 < e.first.bytes.length) :
    rows.length ≤ (rows.flatMap EncodedRow.bytes).length := by
  refine length_le_flatMap fun e he => List.ne_nil_of_length_pos ?_
  have hpos := hrows e he
  rw [EncodedRow.bytes, List.length_append]
  omega

/-- The event holds the images of these rows, in a size the client accepts. -/
structure RowsCall.Encodes (lib : Library) (c : RowsCall) (rows : List EncodedRow) : Prop where
  accepted : c.accepted = true
  cols : true ∈ c.ev.mCols
  colsAi : c.update = true → true ∈ c.ev.mColsAi
  bytes : c.ev.mRowsBuf = rows.flatMap EncodedRow.bytes
  complete : ∀ e ∈ rows, e.Complete lib (JsonPayload lib) c.args c.update c.ev.mCols c.ev.mColsAi
  size : c.ev.mRowsBuf.length < 2 ^ 30
  cells : rows.length * c.map.mColcnt < 2 ^ 32

/-- The walk over an event of complete rows, whatever the number of its cells. -/
theorem scanEvent_of_complete {c : RowsCall} {rows : List EncodedRow} (hr : c.args.Readable lib)
    (haccepted : c.accepted = true) (hcols : true ∈ c.ev.mCols)
    (hcolsAi : c.update = true → true ∈ c.ev.mColsAi)
    (hbytes : c.ev.mRowsBuf = rows.flatMap EncodedRow.bytes)
    (hrows : ∀ e ∈ rows, e.Complete lib (JsonPayload lib) c.args c.update c.ev.mCols c.ev.mColsAi)
    (hsize : c.ev.mRowsBuf.length < 2 ^ 30) :
    scanEvent lib c = .ok (rows.map (EncodedRow.row lib c.args c.ev.mCols c.ev.mColsAi),
      c.ev.mRowsBuf.length) := by
  rw [scanEvent, if_pos haccepted]
  refine scanRows_of_complete hr hsize hcols hcolsAi hrows ?_ ?_
  · rw [hbytes]
    exact length_le_of_bytes_pos fun e he => (hrows e he).first.bytes_pos hcols
  · rw [← hbytes]
    exact Ahead.start _

namespace RowsCall.Encodes

variable {c : RowsCall} {rows : List EncodedRow}

theorem scan (h : c.Encodes lib rows) (hr : c.args.Readable lib) :
    scanEvent lib c = .ok (rows.map (EncodedRow.row lib c.args c.ev.mCols c.ev.mColsAi),
      c.ev.mRowsBuf.length) :=
  scanEvent_of_complete hr h.accepted h.cols h.colsAi h.bytes h.complete h.size

end RowsCall.Encodes

theorem Image.Fits.slot {rule : FieldRule} {f : ImageFormat} {img : Image} {k : Nat} {col : Column}
    {rest : List UInt8} (h : img.Fits lib rule f rest)
    (hcol : f.columns[k]? = some col) : ∃ slot, img.slots[k]? = some slot ∧
      (img.rendered lib f)[k]? = some (slot.rendered lib f col k) := by
  obtain ⟨hk, -⟩ := List.getElem?_eq_some_iff.mp hcol
  have hslot : img.slots[k]? = some (img.slots.get ⟨k, h.slots.length.symm ▸ hk⟩) :=
    List.getElem?_eq_getElem _
  have := @renderedSlots_getElem? lib f _ 0 k _ col _ hcol hslot
  rw [Nat.zero_add] at this
  exact ⟨_, hslot, this⟩

/-- A rows event made of complete images is decoded, every row and every cell of it. -/
theorem getRows_of_encoded {c : RowsCall} {rows : List EncodedRow} (hos : os.Succeeds)
    (hs : s.set.rowsCount = 0) (hc : c.Cached) (hr : c.args.Readable lib) (h : c.Encodes lib rows) :
    ∃ s', (getRows lib os c.ev c.map c.map.mColcnt c.info c.disp).run s =
        .ok c.ev.mRowsBuf.length s' ∧
      s'.set.rowsCount = rows.length ∧
      ∀ r e, rows[r]? = some e → ∀ k col, c.map.columns[k]? = some col →
        (∃ slot cell, e.first.slots[k]? = some slot ∧ s'.set.cell? false r k = some cell ∧
          cell.Shows (slot.rendered lib (c.args.format c.ev.mCols false) col k)) ∧
        ∀ img, e.after = some img →
          ∃ slot cell, img.slots[k]? = some slot ∧ s'.set.cell? true r k = some cell ∧
            cell.Shows (slot.rendered lib (c.args.format c.ev.mColsAi true) col k) := by
  have hf := getRows_follows lib os hc hs
  rw [h.scan hr] at hf
  obtain ⟨_, s', hrun, rfl, -, hd⟩ := hf.reaches fun _ _ _ hspare => hspare.2 hos
  have hlen : ∀ y ∈ rows.map (EncodedRow.row lib c.args c.ev.mCols c.ev.mColsAi),
      y.before.length = c.map.mColcnt ∧ y.after.length = c.map.mColcnt := by
    intro y hy
    obtain ⟨e, he, rfl⟩ := List.mem_map.mp hy
    exact (h.complete e he).row_length
  refine ⟨s', hrun, by simpa using hd.count, fun r e hr k col hcol => ?_⟩
  have hrow : (rows.map (EncodedRow.row lib c.args c.ev.mCols c.ev.mColsAi))[r]? =
      some (e.row lib c.args c.ev.mCols c.ev.mColsAi) := by rw [List.getElem?_map, hr]; rfl
  have hk : k < c.map.mColcnt := by
    rw [TableMapLogEvent.mColcnt, ← c.map.columns_length]
    exact (List.getElem?_eq_some_iff.mp hcol).1
  have hcomplete := h.complete e (List.mem_of_getElem? hr)
  have hcells : (rows.map (EncodedRow.row lib c.args c.ev.mCols c.ev.mColsAi)).length *
      c.map.mColcnt < 2 ^ 32 := by simpa using h.cells
  constructor
  · obtain ⟨slot, hslot, hx⟩ := hcomplete.first.slot hcol
    obtain ⟨cell, hcell, hshow⟩ := hd.cell false (by simp) hcells hlen hrow hk hx
    exact ⟨slot, cell, hslot, hcell, hshow⟩
  · intro img himg
    obtain ⟨slot, hslot, hx⟩ := (hcomplete.after img himg).slot hcol
    have hup : c.update = true := by rw [← hcomplete.hasAfter, himg]; rfl
    obtain ⟨cell, hcell, hshow⟩ := hd.cell true (fun _ => hup) hcells hlen hrow hk
      (by simpa [EncodedRow.row, himg] using hx)
    exact ⟨slot, cell, hslot, hcell, hshow⟩

-- ---------------------------------------------------------------------------
-- A sample event
-- ---------------------------------------------------------------------------

/-- The library on integer, string and JSON columns, with one-byte
length-encoded integers and documents that are one 16-bit integer. The optional
metadata of its tables names one unsigned column. -/
def sampleLibrary : Library where
  optionalMetadata bs := if bs = [1, 1, 128, 4, 2, 1, 97] then .fields [[97]] [true] else .invalid
  calcFieldSizeReads type metadata :=
    match FieldType.ofCode type with
    | some .varchar => if metadata < 256 then 1 else 2
    | some .json => 4
    | _ => 0
  calcFieldSize type metadata lengthPrefix :=
    match FieldType.ofCode type with
    | some .tiny => 1
    | some .long => 4
    | some .varchar => (if metadata < 256 then 1 else 2) + leNat lengthPrefix
    | some .json => 4 + leNat lengthPrefix
    | _ => 0
  netFieldLengthChecked avail maxLength :=
    match avail with
    | [] => .outside
    | b :: _ => if maxLength = 0 ∨ 251 ≤ b.toNat then .failed else .value b.toNat 1
  parseBinary avail length :=
    match avail.take length with
    | [5, low, high] => .value (decimalInt (leInt [low, high]))
    | _ => .error
  myDecimalGetBinarySize _ _ := 0
  decimal2string _ _ _ := []
  floatToString _ := []
  doubleToString _ := []
  myTimestampBinaryLength _ := 0
  myTimevalToStr _ _ := []
  myDatetimeBinaryLength _ := 0
  myDatetimeToStr _ _ := []
  myTimeBinaryLength _ := 0
  myTimeToStr _ _ := []

def sampleAllocator : Allocator := ⟨fun _ => true, fun _ _ => 0xcd⟩

/-- `UPDATE ... SET doc = JSON_REPLACE(doc, '$.a', 8)` on a table with an `INT`,
a `JSON` and a `VARCHAR` column that is not in the images. -/
def sampleMap : TableMapLogEvent where
  tempBuf := []
  tableId := 1
  dbName := ascii "d"
  tableName := ascii "t"
  mColtype := [3, 245, 15]
  mOptionalMetadata := []
  columns := [⟨3, 0⟩, ⟨245, 4⟩, ⟨15, 20⟩]
  columns_length := rfl
  colcnt_lt := by decide

def sampleDiff : JsonDiff where
  operation := .replace
  pathPrefix := [3]
  path := [36, 46, 97]
  valuePrefix := [3]
  value := [5, 8, 0]
  valueText := decimalInt (leInt [8, 0])

def sampleRow : EncodedRow where
  first :=
    { options := [], valueOptions := 0, partialBits := [], nullBits := [1]
      slots := [.null, .value [3, 0, 0, 0, 5, 7, 0] (decimalInt (leInt [7, 0])), .absent] }
  after := some
    { options := [1], valueOptions := 1, partialBits := [1], nullBits := [0]
      slots := [.value [255, 255, 255, 255] [],
        .value (9 :: 0 :: 0 :: 0 :: diffsBytes [sampleDiff]) (diffsText [sampleDiff]), .absent] }

def sampleCall : RowsCall where
  ev :=
    { typeCode := .partialUpdateRows, when := 0, tableId := 1, ndbLength := none
      mCols := [true, true, false], mColsAi := [true, true, false]
      mRowsBuf := sampleRow.bytes, size_lt := by decide }
  map := sampleMap
  info := (3, List.replicate 3 ⟨0, [], false⟩)
  disp := ⟨true, false, false⟩

theorem sampleLibrary_exactSize {col : Column} (h : col ∈ sampleMap.columns) :
    sampleLibrary.ExactSize col := by
  intro isUnsigned disp l hl
  simp only [sampleMap, List.mem_cons, List.not_mem_nil, or_false] at h
  rcases h with rfl | rfl | rfl <;> cases hl <;> exact ⟨rfl, fun pre hpre => rfl⟩

theorem sampleMap_supported {col : Column} (h : col ∈ sampleMap.columns) : col.Supported := by
  intro lib isUnsigned disp
  simp only [sampleMap, List.mem_cons, List.not_mem_nil, or_false] at h
  rcases h with rfl | rfl | rfl <;> rfl

theorem sampleCall_cached : sampleCall.Cached := Nat.le_refl 3

theorem sampleCall_readable : sampleCall.args.Readable sampleLibrary where
  sizes _ h := (sampleLibrary_exactSize h).fieldSize
  supported _ := sampleMap_supported

theorem sampleLibrary_encodesInt {b : UInt8} {v : Nat} (hb : b.toNat = v) (h : v < 251) :
    EncodesInt sampleLibrary [b] v := by
  subst hb
  refine ⟨Nat.zero_lt_one, fun rest maxLength h1 _ => ?_⟩
  simp only [List.length_singleton] at h1
  simp only [sampleLibrary, List.singleton_append]
  rw [if_neg (by omega)]
  rfl

theorem sampleLibrary_parsesTo (low high : UInt8) :
    ParsesTo sampleLibrary [5, low, high] (decimalInt (leInt [low, high])) := by
  intro rest
  simp [sampleLibrary]

theorem sampleDiff_valid : sampleDiff.Valid sampleLibrary where
  path := sampleLibrary_encodesInt (by decide) (by decide)
  value := fun _ => ⟨sampleLibrary_encodesInt (by decide) (by decide),
    by simpa only [sampleDiff] using sampleLibrary_parsesTo 8 0⟩

theorem sampleRow_complete : sampleRow.Complete sampleLibrary (JsonPayload sampleLibrary)
    sampleCall.args sampleCall.update sampleCall.ev.mCols sampleCall.ev.mColsAi where
  first :=
    { options := ⟨rfl, rfl⟩, partialBits := rfl, nullBits := rfl
      slots := ⟨by decide, ⟨by decide, ⟨by decide, by decide⟩,
        sampleLibrary_parsesTo 7 0⟩, rfl, rfl⟩ }
  hasAfter := rfl
  after := by
    rintro img ⟨⟩
    exact {
      options := sampleLibrary_encodesInt (by decide) (by decide)
      partialBits := rfl
      nullBits := rfl
      slots := ⟨⟨by decide, by decide, by decide⟩, ⟨by decide, ⟨by decide, by decide⟩,
        [sampleDiff], by simpa using sampleDiff_valid, rfl, rfl⟩, rfl, rfl⟩ }

theorem sampleCall_encodes : sampleCall.Encodes sampleLibrary [sampleRow] where
  accepted := by decide
  cols := by decide
  colsAi := fun _ => by decide
  bytes := (List.append_nil _).symm
  complete := by simpa using sampleRow_complete
  size := by decide
  cells := by decide

theorem getRows_of_encoded_sample :
    ∃ s', (getRows sampleLibrary sampleAllocator sampleCall.ev sampleMap 3 sampleCall.info
        sampleCall.disp).run ⟨{}, {}⟩ = .ok sampleRow.bytes.length s' ∧ s'.set.rowsCount = 1 ∧
      ∃ cell, s'.set.cell? true 0 1 = some cell ∧ cell.Shows (some (.ofText (ascii "REPLACE$.a:8")
        (some false))) := by
  obtain ⟨s', hrun, hcount, hcells⟩ := @getRows_of_encoded sampleLibrary sampleAllocator ⟨{}, {}⟩
    sampleCall _ (fun _ => rfl) rfl sampleCall_cached sampleCall_readable sampleCall_encodes
  refine ⟨s', hrun, hcount, ?_⟩
  obtain ⟨slot, cell, hslot, hcell, hshow⟩ := (hcells 0 sampleRow rfl 1 ⟨245, 4⟩ rfl).2 _ rfl
  cases hslot
  have htext : cstr (diffsText [sampleDiff]) = ascii "REPLACE$.a:8" := by decide
  exact ⟨cell, hcell, htext ▸ hshow⟩

end RplListener
