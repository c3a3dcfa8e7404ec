import RplListener.Listener.ColumnCache
import RplListener.Rows.GetRows

/-!
# The rows structure follows the table map and the walk

What the `try` block comes to is known before it starts: the table map says
what the columns are, and the walk over the event what the rows are. The cache
it goes through leaves no trace, not even with the columns that are left in the
block from a wider table.
-/

namespace RplListener

open Bytes Refine

variable {lib : Library} {os : Allocator}
variable {ev : RowsLogEvent2} {map : TableMapLogEvent} {disp : DisplayBlobs}

-- ---------------------------------------------------------------------------
-- Columns behind the recorded count
-- ---------------------------------------------------------------------------

section

variable {buf : List UInt8} {cols rest : List ColInfo}

theorem decodeColumn_append {a : ImageArgs} {i : Nat} (h : i < cols.length) (xRow : CellRef)
    (col : Column) (nullBit value : Nat) (isPartial : Bool) :
    decodeColumn lib os buf { a with colInfo := cols ++ rest } xRow col i nullBit value isPartial =
      decodeColumn lib os buf { a with colInfo := cols } xRow col i nullBit value isPartial := by
  unfold decodeColumn
  simp only [List.getElem?_append_left h]

theorem columnLoop_append {a : ImageArgs} {xRow : CellRef} {columns : List Column}
    {i nullBit partialBit value : Nat} (h : i + columns.length ≤ cols.length) :
    columnLoop lib os buf { a with colInfo := cols ++ rest } xRow columns i nullBit partialBit value =
      columnLoop lib os buf { a with colInfo := cols } xRow columns i nullBit partialBit value := by
  induction columns generalizing i nullBit partialBit value with
  | nil => rfl
  | cons col columns ih =>
    rw [List.length_cons] at h
    have hrest : i + 1 + columns.length ≤ cols.length := by omega
    unfold columnLoop
    simp only [ih hrest, decodeColumn_append (show i < cols.length by omega)]
    rfl

theorem getOneRowValues_append {r : RowsArgs} {bitmap : List Bool} {value : Nat} {t : RowImageType}
    (h : r.td.columns.length ≤ cols.length) :
    getOneRowValues lib os buf { r with colInfo := cols ++ rest } bitmap value t =
      getOneRowValues lib os buf { r with colInfo := cols } bitmap value t := by
  unfold getOneRowValues
  refine bind_congr fun x => ?_
  obtain ⟨valueOptions, partialPtr, value'⟩ := x
  refine bind_congr fun _ => bind_congr fun s => ?_
  have hloop := @columnLoop_append lib os buf cols rest
    { bitmap, valueOptions, partialPtr, nullPtr := value', colInfo := cols, disp := r.disp }
  exact congrArg (· >>= _) (hloop (show 0 + r.td.columns.length ≤ cols.length by omega))

theorem imageLoop_append {r : RowsArgs} {first : RowImageType} {bitmap bitmapAi : List Bool}
    {fuel value : Nat} (h : r.td.columns.length ≤ cols.length) :
    imageLoop lib os buf { r with colInfo := cols ++ rest } first bitmap bitmapAi fuel value =
      imageLoop lib os buf { r with colInfo := cols } first bitmap bitmapAi fuel value := by
  induction fuel generalizing value with
  | zero => rfl
  | succ fuel ih =>
    unfold imageLoop
    simp only [getOneRowValues_append h, ih]

end

/-- `get_rows` reads the entries of the table's columns, and no entry behind them. -/
theorem getRows_append {cols rest : List ColInfo} (h : cols.length = map.mColcnt) :
    getRows lib os ev map map.mColcnt (map.mColcnt, cols ++ rest) disp =
      getRows lib os ev map map.mColcnt (map.mColcnt, cols) disp := by
  have hloop := fun first => @imageLoop_append lib os ev.mRowsBuf cols rest
    { td := map.tableDef, typeCode := ev.typeCode, colCount := map.mColcnt, colInfo := cols, disp }
    first ev.mCols ev.mColsAi ev.mRowsBuf.length 0 (by rw [h]; exact map.columns_length.le)
  unfold getRows
  simp only [hloop]


-- ---------------------------------------------------------------------------
-- The outcome
-- ---------------------------------------------------------------------------

/-- Where the `try` block fails: at the metadata, or in the rows. -/
inductive FillEnd where
  | info (e : FillStop)
  | rows (v : Verdict)

/-- What the `try` block comes to: the columns, the rows, and where the walk
over them stops. -/
def fillOutcome (lib : Library) (ev : RowsLogEvent2) (map : TableMapLogEvent) (disp : DisplayBlobs) :
    Except FillEnd (List ColInfo × List Row × Nat) := do
  let cols ← (map.described lib).mapError .info
  let x ← (scanEvent lib (rowsCallOf ev map cols disp)).mapError .rows
  pure (cols, x)

/-- A failure that the outcome does not speak of is one of an allocation, or the
cache had less room than it recorded. -/
def fillEnds (os : Allocator) (info : TblInfo) : Halts FillStop FillEnd where
  spare e := (e ≠ .memory ∧ ¬ os.Succeeds) ∨ (e = .memory ∧ ¬ info.Roomy)
  agree
    | e, .info e' => e = e'
    | e, .rows .rejected => ∃ desc x, e = .stopped desc x
    | e, .rows _ => e = .memory

structure ReplLogXRows.Holds (x : ReplLogXRows) (ev : RowsLogEvent2) (map : TableMapLogEvent)
    (disp : DisplayBlobs) (cols : List ColInfo) (rows : List Row) : Prop where
  header : x = { ReplLogXRows.init ev map disp with
    colNames := x.colNames, colTypes := x.colTypes, set := x.set }
  lists : x.Lists cols
  columns : cols.map ColInfo.type = map.mColtype
  rows : Delivered map.mColcnt (ev.typeCode.firstImage == some .updateBI) rows x.set

variable {s : FillState} {info : TblInfo}

theorem rowsCallOf_cached {cols : List ColInfo} (hlen : cols.length = map.mColcnt) :
    (rowsCallOf ev map cols disp).Cached := hlen.ge

def callResult (x : ReplLogXRows) (s : FillState) :
    EStateM.Result Halt RowsState Nat → EStateM.Result FillStop FillState ReplLogXRows
  | .ok _ t => .ok { x with set := t.set } { s with heap := t.heap }
  | .error (.error desc) t =>
    .error (.stopped (errorDesc desc) { x with set := t.set }) { s with heap := t.heap }
  | .error _ t => .error .memory { s with heap := t.heap }

theorem callGetRows_run {cols : List ColInfo} {x : ReplLogXRows} (hlen : cols.length = map.mColcnt)
    (hcount : s.info.colCount = map.mColcnt) (hb : s.info.Begins cols)
    (hx : x = { ReplLogXRows.init ev map disp with colNames := x.colNames, colTypes := x.colTypes }) :
    (callGetRows lib os ev map x).run s = callResult x s
      ((getRows lib os ev map map.mColcnt (map.mColcnt, cols) disp).run ⟨s.heap, x.set⟩) := by
  obtain ⟨id, rest, hc⟩ := hb
  have hcols : x.colCount = map.mColcnt := by rw [hx]; rfl
  have hdisp : x.displayBlobs = disp := by rw [hx]; rfl
  have hcall : (callGetRows lib os ev map x).run s = callResult x s
      ((getRows lib os ev map x.colCount (s.info.colCount, cols ++ rest) x.displayBlobs).run
        ⟨s.heap, x.set⟩) := by
    simp only [callGetRows, EStateM.run, hc]
    rfl
  rwa [hcount, hcols, hdisp, getRows_append hlen] at hcall

theorem callGetRows_follows {cols : List ColInfo} {x : ReplLogXRows}
    (hlen : cols.length = map.mColcnt) (hcount : s.info.colCount = map.mColcnt) (hb : s.info.Begins cols)
    (hx : x = { ReplLogXRows.init ev map disp with colNames := x.colNames, colTypes := x.colTypes }) :
    Follows (fillEnds os info) (callGetRows lib os ev map x) s
      ((scanEvent lib (rowsCallOf ev map cols disp)).mapError .rows)
      fun y _ r => y = { x with set := y.set } ∧
        Delivered map.mColcnt (ev.typeCode.firstImage == some .updateBI) r.1 y.set := by
  have hset : x.set = {} := by rw [hx]; rfl
  have hf := @getRows_follows lib os ⟨s.heap, x.set⟩ (rowsCallOf ev map cols disp)
    (rowsCallOf_cached hlen) (by rw [hset])
  have hcall := @callGetRows_run lib os ev map disp s cols x hlen hcount hb hx
  cases hr : (getRows lib os ev map map.mColcnt (map.mColcnt, cols) disp).run ⟨s.heap, x.set⟩ with
  | ok value t =>
    rw [hr] at hcall
    obtain ⟨r, hscan, -, -, hd⟩ := hf.ok hr
    rw [hscan]
    exact Follows.of_run hcall ⟨rfl, hd⟩
  | error e t =>
    rw [hr] at hcall
    have herror := hf.error hr
    cases e with
    | error desc =>
      rcases herror with ⟨-, hos⟩ | ⟨v, hscan, rfl⟩
      · exact Follows.of_run_spare hcall (.inl ⟨by simp, hos⟩)
      · rw [hscan]
        exact Follows.of_run_error hcall ⟨_, _, rfl⟩
    | overread | outOfBlock =>
      rcases herror with ⟨hv, -⟩ | ⟨v, hscan, rfl⟩
      · cases hv
      · rw [hscan]
        exact Follows.of_run_error hcall rfl

/-- The `try` block, from whatever the cache holds. -/
theorem fillRows_follows :
    Follows (fillEnds os s.info) (fillRows lib os ev map disp) s (fillOutcome lib ev map disp)
      fun x _ r => x.Holds ev map disp r.1 r.2.1 := by
  unfold fillRows fillOutcome
  refine Follows.bind (updateInfo_follows.map_error ?_ ?_) ?_
  · rintro e (⟨⟨desc, rfl⟩, hos⟩ | h)
    · exact .inl ⟨by simp, hos⟩
    · exact .inr h
  · rintro e _ rfl
    rfl
  rintro _ s₁ cols ⟨htypes, hcount, hbegins⟩
  have hlen : cols.length = map.mColcnt := by
    rw [TableMapLogEvent.mColcnt, ← htypes, List.length_map]
  refine Follows.bind_silent ((replLogXRowsInit_triple hbegins hlen).mono (fun _ _ h => h) ?_) ?_
  · rintro e s₂ ⟨-, hos, x, rfl⟩
    exact .inl ⟨by simp, hos⟩
  rintro x s₂ ⟨hinfo, hlists, hx⟩
  refine Follows.map_right (callGetRows_follows hlen (by rw [hinfo, hcount])
    (hinfo ▸ hbegins) hx) ?_
  rintro y s₃ ⟨rows, stop⟩ ⟨hy, hd⟩
  have hlists' : y.Lists cols := by rw [hy]; exact hlists
  exact ⟨by rw [hy, hx], hlists', htypes, hd⟩

end RplListener
