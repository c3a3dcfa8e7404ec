import RplListener.Listener.ColumnCache
import RplListener.Listener.Visits
import Mathlib.Data.List.TakeDrop

/-!
# The columns that are delivered

What the callback gets for a rows event is what was filled in from the table
map of the event: the names of the columns, cut at 127 bytes.
-/

namespace RplListener

open Bytes Refine

variable {lib : Library} {os : Allocator} {w w' : World}
variable {ev : RowsLogEvent2} {map : TableMapLogEvent}

-- ---------------------------------------------------------------------------
-- From the callback to the structure
-- ---------------------------------------------------------------------------

def RowsFilled (lib : Library) (os : Allocator) (ev : RowsLogEvent2) (w w' : World) : Prop :=
  ∃ cs, w'.calls = w.calls ++ cs ∧ ∀ x, Call.onRow x ∈ cs →
    ∃ map, w.obj.mapOf ev = some map ∧ x.FilledFrom lib os ev map w.obj.disp

theorem RowsFilled.of_calls (h : w'.calls = w.calls) : RowsFilled lib os ev w w' :=
  ⟨[], by simpa using h, by simp⟩

theorem keeps_calls_finish {result : Except FillStop ReplLogXRows} (h : ∀ x, result ≠ .ok x) :
    Keeps World.calls (finishRows result) := by
  have hclear (x : ReplLogXRows) : Keeps World.calls (clearRows x) := Keeps.zoom fun _ _ => rfl
  have hset (desc : String) : Keeps World.calls (setError desc) := Keeps.modify fun _ => rfl
  cases result with
  | ok x => exact absurd rfl (h x)
  | error e =>
    cases e with
    | failed desc => exact hset desc
    | thrown what x => exact Keeps.bind (hclear x) fun _ => hset what
    | stopped desc x => exact Keeps.bind (hclear x) fun _ => hset desc
    | memory => exact Keeps.throw _

theorem finishRows_calls (result : Except FillStop ReplLogXRows) :
    Triple (finishRows result) w
      (fun _ w' => ∃ cs, w'.calls = w.calls ++ cs ∧ ∀ x, Call.onRow x ∈ cs → result = .ok x)
      fun _ _ => True := by
  cases result with
  | error e =>
    refine (keeps_calls_finish (by simp) w).mono ?_ fun _ _ _ => trivial
    exact fun _ w' hw' => ⟨[], by simpa using hw', by simp⟩
  | ok x =>
    have hclear {w₁ : World} {cs : List Call} (hcs : w₁.calls = w.calls ++ cs)
        (hx : ∀ y, Call.onRow y ∈ cs → x = y) :
        Triple (clearRows x) w₁
          (fun _ w' => ∃ cs, w'.calls = w.calls ++ cs ∧ ∀ y, Call.onRow y ∈ cs →
            Except.ok (ε := FillStop) x = .ok y) fun _ _ => True := by
      have hkeep : Keeps World.calls (clearRows x) := Keeps.zoom fun _ _ => rfl
      refine (hkeep w₁).mono ?_ fun _ _ _ => trivial
      exact fun _ w' hw' => ⟨cs, hw'.trans hcs, fun y hy => congrArg _ (hx y hy)⟩
    unfold finishRows Access.finishRows
    refine triple_look_bind ?_
    dsimp only
    split
    case isTrue h =>
      refine Triple.bind_run (call_run h _) (@hclear _ [.onRow x] rfl ?_)
      simp
    case isFalse => exact @hclear _ [] (by simp) (by simp)

theorem fillTable_filled {q : Nat} {result : Except FillStop ReplLogXRows}
    (h : (fillTable lib os ev map q).run w = .ok result w') : w'.calls = w.calls ∧
      ∀ x, result = .ok x → x.FilledFrom lib os ev map w.obj.disp := by
  simp only [fillTable, EStateM.run] at h
  split at h
  · cases h
  · split at h
    case h_1 x s hrun =>
      cases h
      refine ⟨rfl, ?_⟩
      rintro _ ⟨⟩
      exact fillRows_filled hrun
    case h_2 =>
      cases h
      exact ⟨rfl, fun x hx => by cases hx⟩

theorem startTransaction_rows (when : Nat) : ∃ w₁ cs, (direct.startTransaction when).run w = .ok () w₁ ∧
    w₁.calls = w.calls ++ cs ∧ (∀ x, Call.onRow x ∉ cs) ∧ w₁.obj.disp = w.obj.disp := by
  refine ⟨_, w.obj.starts when, startTransaction_run when, rfl, fun x hx => ?_, rfl⟩
  unfold Listener.starts at hx
  split at hx
  · simp at hx
  · cases hx

theorem processRows_filled : Triple (processRows lib os ev) w
    (fun _ w' => RowsFilled lib os ev w w') fun _ _ => True := by
  unfold processRows Access.processRows
  refine triple_look_bind ?_
  dsimp only
  split
  case isFalse => exact Triple.pure (.of_calls rfl)
  case isTrue =>
    cases hm : w.obj.mapOf ev with
    | none => exact Triple.of_run (a := ()) rfl (.of_calls rfl)
    | some map =>
      dsimp only
      split
      case h_2 => exact Triple.pure (.of_calls rfl)
      case h_1 q hq =>
        obtain ⟨w₁, cs₁, hstart, hcalls₁, hnot, hdisp⟩ := startTransaction_rows (w := w) ev.when
        refine Triple.bind_run hstart ?_
        cases hfill : (fillTable lib os ev map q).run w₁ with
        | error e w₂ => exact Triple.of_run_error (run_bind_error hfill _) trivial
        | ok result w₂ =>
          obtain ⟨hcalls₂, hresult⟩ := fillTable_filled hfill
          refine Triple.bind_run hfill ((finishRows_calls result).mono ?_ fun _ _ _ => trivial)
          rintro _ w₃ ⟨cs, hcs, hx⟩
          refine ⟨cs₁ ++ cs, by rw [hcs, hcalls₂, hcalls₁, List.append_assoc], fun x hmem => ?_⟩
          rcases List.mem_append.mp hmem with hmem | hmem
          · exact absurd hmem (hnot x)
          · exact ⟨map, hm, hdisp ▸ hresult x (hx x hmem)⟩

theorem delivered_filled {cs : List Call} {x : ReplLogXRows} (hmap : w.obj.mapOf ev = some map)
    (hrun : (processRows lib os ev).run w = .ok () w') (hcalls : w'.calls = w.calls ++ cs)
    (hx : Call.onRow x ∈ cs) : x.FilledFrom lib os ev map w.obj.disp := by
  obtain ⟨cs', hcs', hfilled⟩ := processRows_filled.ok hrun
  obtain rfl : cs = cs' := List.append_cancel_left (hcalls.symm.trans hcs')
  obtain ⟨map', hmap', hfrom⟩ := hfilled x hx
  obtain rfl : map = map' := Option.some_inj.mp (hmap.symm.trans hmap')
  exact hfrom

-- ---------------------------------------------------------------------------
-- Names
-- ---------------------------------------------------------------------------

def TableMapLogEvent.columnNames (lib : Library) (map : TableMapLogEvent) : List (List UInt8) :=
  match lib.optionalMetadata map.mOptionalMetadata with
  | .fields names _ => names
  | _ => []

/-- There is a name for every column, and it is the one the metadata lists. -/
def ReplLogXRows.NamesIntact (x : ReplLogXRows) (names : List (List UInt8)) : Prop :=
  ∃ id delivered, x.colNames = .block id delivered ∧ delivered.length = x.colCount ∧
    delivered = names

theorem describeColumns_names {types : List UInt8} {names : List (List UInt8)}
    {signedness : List Bool} {cols : List ColInfo}
    (h : describeColumns types names signedness = .ok cols) (hlen : names.length = types.length) :
    cols.map ColInfo.name = names.map fun name => (cstr name).take 127 := by
  induction types generalizing names signedness cols with
  | nil =>
    obtain rfl := List.length_eq_zero_iff.mp hlen
    cases h
    rfl
  | cons type types ih =>
    cases names with
    | nil => cases hlen
    | cons name names =>
      obtain ⟨⟨isUnsigned, rest⟩, -, h⟩ := bind_eq_ok.mp h
      obtain ⟨cols', hcols, h⟩ := bind_eq_ok.mp h
      cases h
      rw [List.map_cons, List.map_cons, ih hcols (by simpa using hlen)]

/-- The delivered names are those of the metadata, as far as 127 bytes go. -/
theorem ReplLogXRows.FilledFrom.names {x : ReplLogXRows} {disp : DisplayBlobs}
    (h : x.FilledFrom lib os ev map disp) :
    x.colCount = (map.columnNames lib).length ∧
      ∃ id, x.colNames = .block id ((map.columnNames lib).map fun name => (cstr name).take 127) := by
  obtain ⟨cols, hcols, -, ⟨⟨id, hnames⟩, -⟩, hx, -⟩ := h
  obtain ⟨⟨names, signedness⟩, hmeta, hdescribe⟩ := bind_eq_ok.mp hcols
  obtain ⟨hfields, hlen⟩ := TableMapLogEvent.metadata_ok hmeta
  have hcolumns : map.columnNames lib = names := by rw [TableMapLogEvent.columnNames, hfields]
  rw [hcolumns]
  refine ⟨?_, id, by rw [hnames, describeColumns_names hdescribe hlen]⟩
  rw [hx, hlen]
  rfl

/-- The names of a delivered rows event are intact, exactly when none of them has
more than 127 bytes. -/
theorem delivered_names_iff {cs : List Call} {x : ReplLogXRows}
    (hmap : w.obj.mapOf ev = some map) (hzero : ∀ name ∈ map.columnNames lib, (0 : UInt8) ∉ name)
    (hrun : (processRows lib os ev).run w = .ok () w') (hcalls : w'.calls = w.calls ++ cs)
    (hx : Call.onRow x ∈ cs) :
    x.NamesIntact (map.columnNames lib) ↔ ∀ name ∈ map.columnNames lib, name.length < 128 := by
  obtain ⟨hcount, namesId, hnames⟩ := (delivered_filled hmap hrun hcalls hx).names
  have hcut : (map.columnNames lib).map (fun name => (cstr name).take 127) = map.columnNames lib ↔
      ∀ name ∈ map.columnNames lib, name.length < 128 := by
    have hself := @List.map_inj_left _ _ (map.columnNames lib) (fun name => (cstr name).take 127) id
    rw [List.map_id] at hself
    rw [hself]
    refine forall₂_congr fun name hname => ?_
    rw [cstr_of_ne_zero (hzero name hname), id, List.take_eq_self_iff]
    exact Nat.lt_succ_iff.symm
  rw [← hcut]
  constructor
  · rintro ⟨id', delivered, hdelivered, -, rfl⟩
    rw [hnames] at hdelivered
    exact (Ptr.block.inj hdelivered).2
  · intro h
    exact ⟨namesId, _, hnames.trans (by rw [h]), hcount.symm, rfl⟩

def mappedWorld (map : TableMapLogEvent) : World :=
  (sampleWorld true true true).put
    { (sampleWorld true true true).obj with globTableMapEvents := [(1, map)] }

def isRowCall : List Call → Bool
  | [.onRow _] => true
  | _ => false

theorem exists_of_isRowCall {cs : List Call} (h : isRowCall cs = true) : ∃ x, cs = [.onRow x] := by
  unfold isRowCall at h
  split at h
  case h_1 x => exact ⟨x, rfl⟩
  case h_2 => cases h

theorem delivered_names_sample : ∃ w' x,
    (processRows sampleLibrary sampleAllocator sampleInsert).run (mappedWorld sampleTable) =
      .ok () w' ∧ w'.calls = [.onRow x] ∧ x.NamesIntact (sampleTable.columnNames sampleLibrary) := by
  obtain ⟨_, w', hrun, hcalls⟩ := exists_of_returned (show returned (fun _ w' => isRowCall w'.calls)
    ((processRows sampleLibrary sampleAllocator sampleInsert).run (mappedWorld sampleTable)) = true
    by decide +kernel)
  obtain ⟨x, hx⟩ := exists_of_isRowCall hcalls
  refine ⟨w', x, hrun, hx, ?_⟩
  exact (@delivered_names_iff _ _ _ _ _ sampleTable [.onRow x] x rfl (by decide +kernel) hrun hx
    (by simp)).mpr (by decide +kernel)

def longColumn : List UInt8 := (List.replicate 43 [0xe2, 0x82, 0xac]).flatten

def longColumnMetadata : List UInt8 := [1, 1, 128, 4, 130, 129] ++ longColumn

def longColumnLibrary : Library :=
  { sampleLibrary with
    optionalMetadata := fun bs =>
      if bs = longColumnMetadata then .fields [longColumn] [true] else .invalid }

def longColumnTable : TableMapLogEvent :=
  { sampleTable with mOptionalMetadata := longColumnMetadata }

/-- The 43rd character is delivered without its last byte. -/
theorem longColumn_cut : longColumn.length ≤ 192 ∧ ∃ w' x,
    (processRows longColumnLibrary sampleAllocator sampleInsert).run (mappedWorld longColumnTable) =
      .ok () w' ∧ w'.calls = [.onRow x] ∧
    ¬ x.NamesIntact (longColumnTable.columnNames longColumnLibrary) := by
  refine ⟨by decide +kernel, ?_⟩
  obtain ⟨_, w', hrun, hcalls⟩ := exists_of_returned (show returned (fun _ w' => isRowCall w'.calls)
    ((processRows longColumnLibrary sampleAllocator sampleInsert).run (mappedWorld longColumnTable)) =
      true by decide +kernel)
  obtain ⟨x, hx⟩ := exists_of_isRowCall hcalls
  refine ⟨w', x, hrun, hx, ?_⟩
  rintro ⟨id, delivered, hdelivered, -, rfl⟩
  obtain ⟨-, id', hnames⟩ :=
    (@delivered_filled _ _ _ _ _ longColumnTable _ _ rfl hrun hx List.mem_cons_self).names
  rw [hdelivered] at hnames
  exact absurd (Ptr.block.inj hnames).2 (by decide +kernel)

end RplListener
