import RplListener.Listener.LifeCycle
import RplListener.Listener.Stream

/-!
# The delivered rows

The calls of `on_row` in a run without an error: one for each rows event of a
watched table, in their order. What such a call says of its table is cut at 319
bytes, one less than a watched name may have.
-/

namespace RplListener

open Bytes Refine

variable {lib : Library} {os : Allocator} {needStop : Nat → Bool} {w w' : World}

-- ---------------------------------------------------------------------------
-- The tables
-- ---------------------------------------------------------------------------

def storedNames (adds : List (List UInt8 × List UInt8)) : List (List UInt8 × List UInt8) :=
  adds.map fun p => (storedName p.1, storedName p.2)

theorem tableAdd_pairs {dbName tblName : List UInt8}
    (h : (tableAdd os dbName tblName).run w = .ok 0 w') :
    w'.obj.pairs = w.obj.pairs ++ storedNames [(dbName, tblName)] := by
  unfold tableAdd at h
  rw [run_get_bind] at h
  split at h
  case isTrue => cases h
  case isFalse =>
    rw [run_bind_ok (attempt_run rfl)] at h
    split at h
    · cases h
      simp [Listener.pairs, storedNames, ListeningTable.pair, World.ask]
    · cases h

theorem storedNames_eq {adds : List (List UInt8 × List UInt8)}
    (h : ∀ p ∈ adds, (cstr p.1).length < 321 ∧ (cstr p.2).length < 321) :
    storedNames adds = adds.map fun p => (cstr p.1, cstr p.2) := by
  refine List.map_congr_left fun p hp => ?_
  obtain ⟨h1, h2⟩ := h p hp
  rw [storedName, storedName, List.take_of_length_le (Nat.le_of_lt_succ h1),
    List.take_of_length_le (Nat.le_of_lt_succ h2)]

-- ---------------------------------------------------------------------------
-- The calls and the rows events
-- ---------------------------------------------------------------------------

structure ReplLogXRows.Carries (x : ReplLogXRows) (ev : RowsLogEvent2) (map : TableMapLogEvent) :
    Prop where
  tblId : x.tblId = ev.tableId
  dbName : x.dbName = cstr map.dbName
  tblName : x.tblName = cstr map.tableName
  typeCode : some x.set.typeCode = ev.typeCode.firstImage.map RowImageType.typeCode

def TableMapLogEvent.Fits (map : TableMapLogEvent) : Prop :=
  (cstr map.dbName).length < 320 ∧ (cstr map.tableName).length < 320

instance (map : TableMapLogEvent) : Decidable map.Fits := inferInstanceAs (Decidable (_ ∧ _))

theorem ReplLogXRows.Of.carries_iff {x : ReplLogXRows} {ev : RowsLogEvent2} {map : TableMapLogEvent}
    (h : x.Of ev map) : x.Carries ev map ↔ map.Fits := by
  have cut {name : List UInt8} : (cstr name).take 319 = cstr name ↔ (cstr name).length < 320 := by
    refine ⟨fun h => ?_, fun h => List.take_of_length_le (Nat.le_of_lt_succ h)⟩
    have hlen := congrArg List.length h
    rw [List.length_take] at hlen
    omega
  constructor
  · intro hc
    exact ⟨cut.mp (h.dbName.symm.trans hc.dbName), cut.mp (h.tblName.symm.trans hc.tblName)⟩
  · intro hf
    exact ⟨h.tblId, h.dbName.trans (cut.mpr hf.1), h.tblName.trans (cut.mpr hf.2), h.typeCode⟩

def Call.row? : Call → Option ReplLogXRows
  | .onRow x => some x
  | _ => none

def Item.row? : Item → Option (RowsLogEvent2 × TableMapLogEvent)
  | .row ev map => some (ev, map)
  | _ => none

/-- The rows events of the watched tables, each with its latest table map. -/
def watchedRows (pairs : List (List UInt8 × List UInt8)) (s : StreamState) (xs : List Handled) :
    List (RowsLogEvent2 × TableMapLogEvent) := ((stream pairs).trace s xs).filterMap Item.row?

theorem filterMap_row_calls (cs : List Call) :
    (cs.filter fun c => !c.isHeartbeat).filterMap Call.row? = cs.filterMap Call.row? := by
  induction cs with
  | nil => rfl
  | cons c cs ih =>
    cases c with
    | onRow x => exact congrArg (List.cons x) ih
    | onTransaction | onHeartbeat => exact ih

theorem filterMap_row_items {o : Listener} (h : o.onRow = true) (items : List Item) :
    (items.filter o.shows).filterMap Item.row? = items.filterMap Item.row? := by
  induction items with
  | nil => rfl
  | cons i items ih =>
    cases i with
    | row ev map =>
      rw [List.filter_cons_of_pos (show o.shows (.row ev map) = true from h)]
      exact congrArg (List.cons (ev, map)) ih
    | start | commit =>
      rw [List.filter_cons]
      split <;> exact ih

theorem forall₂_rows {cs : List Call} {items : List Item} (h : List.Forall₂ Call.Tells cs items) :
    List.Forall₂ (fun x d => ReplLogXRows.Of x d.1 d.2) (cs.filterMap Call.row?)
      (items.filterMap Item.row?) := by
  induction h with
  | nil => exact List.Forall₂.nil
  | cons hd _ ih =>
    cases hd with
    | start | commit => exact ih
    | row hx => exact List.Forall₂.cons hx ih

theorem Listener.Tells.rows {o : Listener} {cs : List Call} {items : List Item}
    (hrow : o.onRow = true) (h : o.Tells cs items) :
    List.Forall₂ (fun x d => ReplLogXRows.Of x d.1 d.2) (cs.filterMap Call.row?)
      (items.filterMap Item.row?) := by
  rw [← filterMap_row_calls, ← filterMap_row_items hrow]
  exact forall₂_rows h

theorem forall₂_carries_iff {xs : List ReplLogXRows} {ds : List (RowsLogEvent2 × TableMapLogEvent)}
    (h : List.Forall₂ (fun x d => ReplLogXRows.Of x d.1 d.2) xs ds) :
    List.Forall₂ (fun x d => ReplLogXRows.Carries x d.1 d.2) xs ds ↔ ∀ d ∈ ds, d.2.Fits := by
  induction h with
  | nil => simp
  | cons hx _ ih => rw [List.forall₂_cons, ih, hx.carries_iff, List.forall_mem_cons]

/-- The calls of `on_row` are the rows events of the watched tables, one to one
and in order, and every rows event has its table map. -/
def RowsLaw (adds : List (List UInt8 × List UInt8)) (s : StreamState) (xs : List Handled)
    (before after : List Call) : Prop :=
  let pairs := adds.map fun p => (cstr p.1, cstr p.2)
  Resolved pairs s xs ∧ ∃ cs, after = before ++ cs ∧
    List.Forall₂ (fun x d => ReplLogXRows.Carries x d.1 d.2) (cs.filterMap Call.row?)
      (watchedRows pairs s xs)

theorem rowsLaw_iff_fits {o : Listener} {adds : List (List UInt8 × List UInt8)} {s : StreamState}
    {xs : List Handled} {before after cs : List Call} (hrow : o.onRow = true)
    (hres : Resolved (adds.map fun p => (cstr p.1, cstr p.2)) s xs) (hcs : after = before ++ cs)
    (htells : o.Tells cs ((stream (adds.map fun p => (cstr p.1, cstr p.2))).trace s xs)) :
    RowsLaw adds s xs before after ↔
      ∀ d ∈ watchedRows (adds.map fun p => (cstr p.1, cstr p.2)) s xs, d.2.Fits := by
  rw [watchedRows, ← forall₂_carries_iff (htells.rows hrow)]
  constructor
  · rintro ⟨-, cs', hcs', hall⟩
    have : cs' = cs := List.append_cancel_left (hcs'.symm.trans hcs)
    exact this ▸ hall
  · intro hall
    exact ⟨hres, cs, hcs, hall⟩

/-- A run in `INPROCESS` delivers the watched rows, exactly when the names of
their tables have less than 320 bytes. -/
theorem replicationLoop_rows_iff {adds : List (List UInt8 × List UInt8)} {packets : List Packet}
    {k : Nat} {t : Turn} (he : w.error = none) (hs : w.obj.state = .inprocess) (hw : w.obj.Sane)
    (hrow : w.obj.onRow = true) (hadds : w.obj.pairs = storedNames adds)
    (hnames : ∀ p ∈ adds, (cstr p.1).length < 321 ∧ (cstr p.2).length < 321)
    (hrun : (replicationLoop lib os needStop k packets).run w = .ok t w') (herr : w'.error = none) :
    let xs := handledOf (loopVisits lib os needStop k packets w)
    RowsLaw adds w.obj.streamState xs w.calls w'.calls ↔
      ∀ d ∈ watchedRows (adds.map fun p => (cstr p.1, cstr p.2)) w.obj.streamState xs, d.2.Fits := by
  intro xs
  rw [storedNames_eq hnames] at hadds
  obtain ⟨hres, cs, hcs, htells⟩ := replicationLoop_tells he (hw.at_streamState hs) hrun herr
  rw [hadds] at hres htells
  exact rowsLaw_iff_fits hrow hres hcs htells

theorem sampleWorld_sane {r h t : Bool} : (sampleWorld r h t).obj.Sane :=
  ⟨by simp [sampleWorld, TableMapEvents.Keyed], Nat.zero_le 2⟩

theorem replicationLoop_rows_sample : ∃ t w',
    (replicationLoop sampleLibrary sampleAllocator (fun _ => false) 0
      (samplePackets (.xid 8))).run (sampleWorld true true true) = .ok t w' ∧
    RowsLaw [(ascii "d", ascii "t")] (sampleWorld true true true).obj.streamState
      (handledOf (loopVisits sampleLibrary sampleAllocator (fun _ => false) 0
        (samplePackets (.xid 8)) (sampleWorld true true true))) [] w'.calls := by
  obtain ⟨t, w', hrun, herr⟩ := sampleWorld_run (samplePackets (.xid 8)) (by decide +kernel)
  exact ⟨t, w', hrun, (@replicationLoop_rows_iff _ _ _ _ _
    [(ascii "d", ascii "t")] _ _ _ rfl rfl sampleWorld_sane rfl (by decide +kernel) (by decide +kernel) hrun herr).mpr (by decide +kernel)⟩

def longName : List UInt8 := List.replicate 320 97

def longTable : TableMapLogEvent := { sampleTable with tableName := longName }

def longWorld : World :=
  (sampleWorld true true true).put
    { (sampleWorld true true true).obj with tables := [{ dbName := ascii "d", tblName := longName }] }

def longPackets : List Packet := [.tableMap 6 longTable, sampleRows].map samplePacket

/-- Its row is delivered with a name of 319 bytes. -/
theorem longPackets_cut : longWorld.obj.pairs = storedNames [(ascii "d", longName)] ∧ ∃ t w',
    (replicationLoop sampleLibrary sampleAllocator (fun _ => false) 0 longPackets).run longWorld =
      .ok t w' ∧ w'.error = none ∧
    ¬ RowsLaw [(ascii "d", longName)] longWorld.obj.streamState
      (handledOf (loopVisits sampleLibrary sampleAllocator (fun _ => false) 0 longPackets longWorld))
      [] w'.calls := by
  refine ⟨by decide +kernel, ?_⟩
  obtain ⟨t, w', hrun, herr⟩ := exists_of_returned (show returned (fun _ w' => w'.error.isNone)
    ((replicationLoop sampleLibrary sampleAllocator (fun _ => false) 0 longPackets).run longWorld) =
      true by decide +kernel)
  have herr : w'.error = none := by simpa using herr
  have hat : longWorld.obj.At longWorld.obj.streamState :=
    Listener.Sane.at_streamState ⟨(sampleWorld_sane (r := true) (h := true) (t := true)).keyed,
      Nat.zero_le 2⟩ rfl
  obtain ⟨hres, cs, hcs, htells⟩ := replicationLoop_tells rfl hat hrun herr
  have hpairs : longWorld.obj.pairs =
      [(ascii "d", longName)].map fun p => (cstr p.1, cstr p.2) := by decide +kernel
  rw [hpairs] at hres htells
  refine ⟨t, w', hrun, herr, fun hlaw => ?_⟩
  exact absurd ((rowsLaw_iff_fits rfl hres hcs htells).mp hlaw) (by decide +kernel)

end RplListener
