import RplListener.Lib.Owned
import RplListener.Rows.GetRows

/-!
# Who holds the blocks of a row set

The value of a cell is the only block its decoding makes, and the cells, their
two flat blocks and the row pointers are all a row set has. Whichever allocation
fails, and wherever the decoder halts, what was allocated is in the row set.
-/

namespace RplListener

open Bytes Refine

variable {lib : Library} {os : Allocator} {buf : List UInt8} {base : List Nat}

-- ---------------------------------------------------------------------------
-- One cell
-- ---------------------------------------------------------------------------

structure CellState.Holds (base : List Nat) (s : CellState) : Prop where
  tame : s.cell.val.Tame
  owned : s.heap.Owned (s.cell.val.ids ++ base)

theorem CellState.Holds.of_null {s : CellState} (hv : s.cell.val = .null) (ho : s.heap.Owned base) :
    s.Holds base := ⟨hv ▸ Ptr.tame_null, hv ▸ ho⟩

/-- The value stays, and no block of anybody is gone. -/
def Reads {α : Type} (x : CellM α) : Prop :=
  ∀ s base, s.heap.Owned base →
    Triple x s (fun _ s' => s'.cell.val = s.cell.val ∧ s'.heap.Owned base)
      fun _ s' => s'.cell.val = s.cell.val ∧ s'.heap.Owned base

/-- The cell holds its value before and after. -/
def Writes {α : Type} (x : CellM α) : Prop :=
  ∀ s base, s.Holds base → Triple x s (fun _ s' => s'.Holds base) fun _ s' => s'.Holds base

/-- An empty cell holds afterwards what was allocated. -/
def Fills {α : Type} (x : CellM α) : Prop :=
  ∀ s base, s.cell.val = .null → s.heap.Owned base →
    Triple x s (fun _ s' => s'.Holds base) fun _ s' => s'.Holds base

section

variable {α β : Type} {x : CellM α} {f : α → CellM β}

theorem Reads.writes (hx : Reads x) : Writes x := by
  intro s base h
  refine (hx s _ h.owned).mono ?_ ?_
  all_goals
    rintro _ s' ⟨hv, ho⟩
    exact ⟨hv ▸ h.tame, hv ▸ ho⟩

theorem Reads.fills (hx : Reads x) : Fills x := by
  intro s base hv ho
  refine (hx s _ ho).mono ?_ ?_
  all_goals
    rintro _ s' ⟨hv', ho'⟩
    exact .of_null (hv'.trans hv) ho'

theorem Reads.pure (a : α) : Reads (Pure.pure a : CellM α) := fun _ _ ho => Triple.pure ⟨rfl, ho⟩

theorem Reads.throw (e : Halt) : Reads (throw e : CellM α) := fun _ _ ho => Triple.throw ⟨rfl, ho⟩

theorem Reads.bind (hx : Reads x) (hf : ∀ a, Reads (f a)) : Reads (x >>= f) := by
  intro s base ho
  refine Triple.bind (hx s base ho) fun a s' ⟨hv, ho'⟩ => ?_
  refine (hf a s' base ho').mono ?_ ?_
  all_goals
    rintro _ s'' ⟨hv', ho''⟩
    exact ⟨hv'.trans hv, ho''⟩

theorem Writes.bind (hx : Writes x) (hf : ∀ a, Writes (f a)) : Writes (x >>= f) :=
  fun s base h => Triple.bind (hx s base h) fun a s' h' => hf a s' base h'

theorem Fills.bind (hx : Fills x) (hf : ∀ a, Writes (f a)) : Fills (x >>= f) :=
  fun s base hv ho => Triple.bind (hx s base hv ho) fun a s' h' => hf a s' base h'

theorem Reads.bind_fills (hx : Reads x) (hf : ∀ a, Fills (f a)) : Fills (x >>= f) := by
  intro s base hv ho
  refine Triple.bind ((hx s base ho).mono (fun _ _ h => h) fun _ s' ⟨hv', ho'⟩ => ?_)
    fun a s' ⟨hv', ho'⟩ => ?_
  · exact CellState.Holds.of_null (hv'.trans hv) ho'
  · exact hf a s' base (hv'.trans hv) ho'

end

theorem readBytes_reads (p n : Nat) : Reads (readBytes buf p n) := by
  unfold readBytes
  split
  · exact .pure _
  · exact .throw _

theorem readUint_reads (p n : Nat) : Reads (readUint buf p n) :=
  (readBytes_reads p n).bind fun _ => .pure _

theorem netFieldLengthChecked_reads (p maxLength : Nat) (desc : String) :
    Reads (netFieldLengthChecked lib buf p maxLength desc) := by
  unfold netFieldLengthChecked
  split
  · exact .throw _
  · exact .throw _
  · exact .pure _

theorem parseBinary_reads (p length : Nat) (desc : String) :
    Reads (parseBinary lib buf p length desc) := by
  unfold parseBinary
  split
  · exact .throw _
  · exact .throw _
  · exact .throw _
  · exact .pure _

theorem setLen_reads (n : Int) : Reads (setLen n) := fun _ _ ho => Triple.of_run (a := ()) rfl ⟨rfl, ho⟩

theorem setHex_reads (b : Bool) : Reads (setHex b) := fun _ _ ho => Triple.of_run (a := ()) rfl ⟨rfl, ho⟩

theorem strlenVal_reads : Reads strlenVal := by
  intro s base ho
  refine Triple.get_bind ?_
  split
  · split
    · exact Triple.pure ⟨rfl, ho⟩
    · exact Triple.throw ⟨rfl, ho⟩
  · exact Triple.throw ⟨rfl, ho⟩

theorem setLenStrlen_reads : Reads setLenStrlen := strlenVal_reads.bind fun _ => setLen_reads _

theorem appendBuf_reads (acc text : List UInt8) : Reads (appendBuf os acc text) := by
  intro s base ho
  refine Triple.bind (Triple.zoom (p := CellState.heapPart) (Heap.attempt_owned ho
    (E := fun _ _ => False))|>.mono (fun _ _ h => h) fun _ _ ⟨_, hf, _⟩ => hf.elim) ?_
  rintro ok _ ⟨h', ho', rfl⟩
  split
  · exact Triple.pure ⟨rfl, ho'⟩
  · exact Triple.throw ⟨rfl, ho'⟩

theorem endDiff_reads (lengthX : Nat) (acc : List UInt8) : Reads (endDiff os lengthX acc) := by
  unfold endDiff
  split
  · exact appendBuf_reads _ _
  · exact .pure _

theorem diffLoop_reads (fuel p lengthX : Nat) (acc : List UInt8) :
    Reads (diffLoop lib os buf fuel p lengthX acc) := by
  induction fuel generalizing p lengthX acc with
  | zero =>
    unfold diffLoop
    split
    · exact .pure _
    · exact .throw _
  | succ fuel ih =>
    unfold diffLoop
    split
    · exact .pure _
    refine (readBytes_reads _ _).bind fun byte => ?_
    split
    · exact .throw _
    refine (appendBuf_reads _ _).bind fun acc => ?_
    refine (netFieldLengthChecked_reads _ _ _).bind fun r => ?_
    refine (appendBuf_reads _ _).bind fun acc => (readBytes_reads _ _).bind fun path => ?_
    refine (appendBuf_reads _ _).bind fun acc => ?_
    split
    · refine (netFieldLengthChecked_reads _ _ _).bind fun r => ?_
      refine (parseBinary_reads _ _ _).bind fun text => (appendBuf_reads _ _).bind fun acc => ?_
      exact (endDiff_reads _ _).bind fun acc => ih _ _ _
    · exact (endDiff_reads _ _).bind fun acc => ih _ _ _

theorem writeVal_writes (write : List UInt8 → Option (List UInt8)) : Writes (writeVal write) := by
  intro s base h
  refine Triple.get_bind ?_
  split
  case h_1 id bs hv =>
    split
    case h_1 =>
      refine Triple.of_run (a := ()) rfl ⟨Ptr.tame_block _ _, ?_⟩
      have ho := h.owned
      rwa [hv] at ho
    case h_2 => exact Triple.throw h
  case h_2 => exact Triple.throw h

theorem appendVal_writes (n : Nat) (text : List UInt8) : Writes (appendVal n text) :=
  strlenVal_reads.writes.bind fun _ => writeVal_writes _

theorem appendLoop_writes {n : Nat} {piece : Nat → CellM (List UInt8)} (hp : ∀ i, Reads (piece i))
    (i count : Nat) : Writes (appendLoop n piece i count) := by
  induction count generalizing i with
  | zero => exact (Reads.pure ()).writes
  | succ count ih =>
    exact (hp i).writes.bind fun _ => (appendVal_writes _ _).bind fun _ => ih _

theorem mallocVal_fills (n : Nat) (desc : String) : Fills (mallocVal os n desc) := by
  intro s base hv ho
  refine Triple.bind (Triple.zoom (p := CellState.heapPart) (Heap.malloc_owned ho n
    (E := fun _ _ => False))|>.mono (fun _ _ h => h) fun _ _ ⟨_, hf, _⟩ => hf.elim) ?_
  rintro p _ ⟨h', ⟨hp, ho'⟩, rfl⟩
  refine Triple.bind (Q := fun _ s' => s'.Holds base) (Triple.of_run (a := ()) rfl ⟨hp, ho'⟩) ?_
  intro _ s' h
  split
  · exact Triple.throw h
  · exact Triple.pure h

theorem setNull_fills : Fills (setVal .null) := fun _ _ _ ho =>
  Triple.of_run (a := ()) rfl ⟨Ptr.tame_null, ho⟩

-- ---------------------------------------------------------------------------
-- One value
-- ---------------------------------------------------------------------------

theorem printChars_writes (ptr width : Nat) : Writes (printChars buf ptr width) := by
  refine (readUint_reads _ _).writes.bind fun length => ?_
  refine (appendLoop_writes (fun _ => readBytes_reads _ _) _ _).bind fun _ => ?_
  exact (Reads.pure _).writes

theorem myBPrintWithLength2_writes (ptr length : Nat) : Writes (myBPrintWithLength2 buf ptr length) := by
  refine (writeVal_writes _).bind fun _ => ?_
  split
  · exact printChars_writes _ _
  · exact printChars_writes _ _

theorem integerValue_fills (ptr width size : Nat) (isUnsigned : Bool) (name : String) :
    Fills (integerValue os buf ptr width size isUnsigned name) :=
  (mallocVal_fills _ _).bind fun _ => (readBytes_reads _ _).writes.bind fun _ =>
    (writeVal_writes _).bind fun _ => setLenStrlen_reads.writes.bind fun _ => (Reads.pure _).writes

theorem formattedValue_fills (ptr width size : Nat) (text : Nat → List UInt8) (name : String) :
    Fills (formattedValue os buf ptr width size text name) :=
  (readUint_reads _ _).bind_fills fun _ => (mallocVal_fills _ _).bind fun _ =>
    (writeVal_writes _).bind fun _ => setLenStrlen_reads.writes.bind fun _ => (Reads.pure _).writes

theorem copiedValue_fills (ptr width : Nat) (text : List UInt8 → List UInt8) (name : String) :
    Fills (copiedValue os buf ptr width text name) :=
  (readBytes_reads _ _).bind_fills fun _ => (mallocVal_fills _ _).bind fun _ =>
    (writeVal_writes _).bind fun _ => setLenStrlen_reads.writes.bind fun _ => (Reads.pure _).writes

theorem bitsValue_fills (ptr nbits : Nat) (name : String) : Fills (bitsValue os buf ptr nbits name) := by
  refine (mallocVal_fills _ _).bind fun _ => Writes.bind ?_ fun _ => setLenStrlen_reads.writes
  refine (writeVal_writes _).bind fun _ => appendLoop_writes (fun bitnum => ?_) _ _
  exact (readBytes_reads _ _).bind fun _ => .pure _

theorem stringValue_fills (ptr length : Nat) (name : String) :
    Fills (stringValue os buf ptr length name) := by
  refine (readUint_reads _ _).bind_fills fun _ => (mallocVal_fills _ _).bind fun _ => ?_
  refine (writeVal_writes _).bind fun _ => (myBPrintWithLength2_writes _ _).bind fun _ => ?_
  exact (setLen_reads _).writes.bind fun _ => (Reads.pure _).writes

theorem nullBlob_fills (disp : DisplayBlobs) (isHex : Bool) : Fills (nullBlob disp isHex) :=
  (setLen_reads _).bind_fills fun _ => setNull_fills.bind fun _ =>
    (setHex_reads _).writes.bind fun _ => (Reads.pure _).writes

theorem hiddenBlob_fills : Fills hiddenBlob :=
  (setLen_reads _).bind_fills fun _ => setNull_fills.bind fun _ => (setHex_reads _).writes

theorem sprintAsHex_writes (str len : Nat) : Writes (sprintAsHex buf str len) := by
  refine (writeVal_writes _).bind fun _ => appendLoop_writes (fun i => ?_) _ _
  exact (readBytes_reads _ _).bind fun _ => .pure _

theorem displayBlob_fills (ptr length : Nat) (disp : DisplayBlobs) (asHex : Bool) (name : String) :
    Fills (displayBlob os buf ptr length disp asHex name) := by
  unfold displayBlob
  split
  · exact hiddenBlob_fills
  split
  · refine (mallocVal_fills _ _).bind fun _ => (writeVal_writes _).bind fun _ => ?_
    refine (readBytes_reads _ _).writes.bind fun _ => (writeVal_writes _).bind fun _ => ?_
    exact (setLen_reads _).writes.bind fun _ => (setHex_reads _).writes
  · refine (mallocVal_fills _ _).bind fun _ => (sprintAsHex_writes _ _).bind fun _ => ?_
    exact setLenStrlen_reads.writes.bind fun _ => (setHex_reads _).writes

theorem jsonText_fills (text : List UInt8) (desc : String) : Fills (jsonText os text desc) :=
  (mallocVal_fills _ _).bind fun _ => (writeVal_writes _).bind fun _ =>
    (writeVal_writes _).bind fun _ => setLenStrlen_reads.writes.bind fun _ => (setHex_reads _).writes

theorem displayJson_fills (ptr length : Nat) (isPartial : Bool) (disp : DisplayBlobs) :
    Fills (displayJson lib os buf ptr length isPartial disp) := by
  unfold displayJson
  split
  · exact hiddenBlob_fills
  split
  · exact (diffLoop_reads _ _ _ _).bind_fills fun _ => jsonText_fills _ _
  · exact (parseBinary_reads _ _ _).bind_fills fun _ => jsonText_fills _ _

theorem valueOfType_fills (type length metadata : Nat) (ptr : Option Nat)
    (isPartial isUnsigned : Bool) (disp : DisplayBlobs) :
    Fills (valueOfType lib os buf type length metadata ptr isPartial isUnsigned disp) := by
  have hpure (n : Nat) : Writes (pure n) := (Reads.pure n).writes
  unfold valueOfType
  split
  case h_1 | h_2 | h_3 | h_4 | h_5 => exact integerValue_fills _ _ _ _ _
  case h_6 | h_7 | h_8 | h_11 | h_13 | h_15 | h_16 => exact copiedValue_fills _ _ _ _
  case h_9 | h_19 => exact (bitsValue_fills _ _ _).bind fun _ => hpure _
  case h_10 | h_12 | h_14 | h_17 => exact formattedValue_fills _ _ _ _ _
  case h_18 =>
    split
    · split
      · exact formattedValue_fills _ _ _ _ _
      · exact (Reads.pure _).fills
    split
    · split
      · exact formattedValue_fills _ _ _ _ _
      · exact (Reads.pure _).fills
    · exact (Reads.throw _).fills
  case h_20 => exact nullBlob_fills _ _
  case h_21 =>
    split
    · exact (readUint_reads _ _).bind_fills fun _ => (displayBlob_fills _ _ _ _ _).bind fun _ => hpure _
    · exact (Reads.throw _).fills
  case h_22 | h_23 | h_24 => exact stringValue_fills _ _ _
  case h_25 =>
    split
    · exact (Reads.throw _).fills
    split
    · exact nullBlob_fills _ _
    · exact (readUint_reads _ _).bind_fills fun _ => (displayJson_fills _ _ _ _).bind fun _ => hpure _
  case h_26 =>
    split
    · exact (Reads.throw _).fills
    split
    · exact nullBlob_fills _ _
    · exact (readUint_reads _ _).bind_fills fun _ => (displayBlob_fills _ _ _ _ _).bind fun _ => hpure _
  case h_27 => exact (Reads.throw _).fills
  case h_28 => exact (Reads.pure _).fills

theorem logEventGetValue2_fills (ptr : Option Nat) (type metadata : Nat) (isPartial : Bool)
    (colInfo : ColInfo) (disp : DisplayBlobs) :
    Fills (logEventGetValue2 lib os buf ptr type metadata isPartial colInfo disp) :=
  valueOfType_fills _ _ _ _ _ _ _

-- ---------------------------------------------------------------------------
-- The row set
-- ---------------------------------------------------------------------------

def cellIds (cells : List ReplLogXValue) : List Nat := cells.flatMap fun c => c.val.ids

def blockIds : Ptr (List ReplLogXValue) → List Nat
  | .block id cells => id :: cellIds cells
  | _ => []

def RowSet.ids (set : RowSet) : List Nat :=
  set.rows.ids ++ (set.rowsAfter.ids ++ (blockIds set.rowsL2 ++ blockIds set.rowsAfterL2))

/-- A flat block of `len` cells that are empty from `fresh` on; with `none` there is no
block. -/
def Flat (len : Option Nat) (fresh : Nat) : Ptr (List ReplLogXValue) → Prop
  | .null => len = none ∨ len = some 0
  | .wild => False
  | .block _ cells =>
    len = some cells.length ∧ (∀ c ∈ cells, c.val.Tame) ∧ ∀ c ∈ cells.drop fresh, c.val = .null

/-- A flat block whose values are all among its first `n` cells. -/
def Clears (n : Nat) : Ptr (List ReplLogXValue) → Prop
  | .null => True
  | .wild => False
  | .block _ cells =>
    n ≤ cells.length ∧ (∀ c ∈ cells, c.val.Tame) ∧ ∀ c ∈ cells.drop n, c.val = .null

theorem Flat.mono {len : Option Nat} {fresh fresh' : Nat} {p : Ptr (List ReplLogXValue)} (h : Flat len fresh p)
    (hle : fresh ≤ fresh') : Flat len fresh' p := by
  cases p with
  | null => exact h
  | wild => exact h
  | block id cells =>
    refine ⟨h.1, h.2.1, fun c hc => h.2.2 c ?_⟩
    exact (List.drop_sublist_drop_left cells hle).subset hc

theorem Flat.clears {len : Option Nat} {fresh n : Nat} {p : Ptr (List ReplLogXValue)}
    (h : Flat len fresh p) (hfresh : fresh ≤ n) (hlen : ∀ l, len = some l → n ≤ l) : Clears n p := by
  cases p with
  | null => trivial
  | wild => exact h
  | block id cells => exact ⟨hlen _ h.1, h.2.1, (h.mono hfresh).2.2⟩

/-- What a row set holds while its rows are decoded: nothing from cell `fresh` of a
block on. -/
structure RowsState.Holds (base : List Nat) (n : Nat) (len : Bool → Option Nat)
    (fresh : Bool → Nat) (s : RowsState) : Prop where
  owned : s.heap.Owned (s.set.ids ++ base)
  count : s.set.rowsCount = n
  rows : s.set.rows = .null
  rowsAfter : s.set.rowsAfter = .null
  flat : ∀ after, Flat (len after) (fresh after) (s.set.block after)

structure RowsState.Settled (base : List Nat) (m : Nat) (s : RowsState) : Prop where
  owned : s.heap.Owned (s.set.ids ++ base)
  small : s.set.rowsCount * m < 2 ^ 32
  rows : s.set.rows.Tame
  rowsAfter : s.set.rowsAfter.Tame
  clears : ∀ after, Clears (s.set.rowsCount * m) (s.set.block after)

variable {s : RowsState} {n m : Nat} {len : Bool → Option Nat} {fresh fresh' : Bool → Nat}

theorem RowsState.Holds.mono (h : s.Holds base n len fresh) (hle : ∀ after, fresh after ≤ fresh' after) :
    s.Holds base n len fresh' :=
  { h with flat := fun after => (h.flat after).mono (hle after) }

theorem RowsState.Holds.settled (h : s.Holds base n len fresh) (hlt : n * m < 2 ^ 32)
    (hle : ∀ after, fresh after ≤ n * m) (hlen : ∀ after l, len after = some l → n * m ≤ l) :
    s.Settled base m where
  owned := h.owned
  small := h.count ▸ hlt
  rows := h.rows ▸ Ptr.tame_null
  rowsAfter := h.rowsAfter ▸ Ptr.tame_null
  clears after := (h.flat after).clears (h.count ▸ hle after) (h.count ▸ hlen after)

-- ---------------------------------------------------------------------------
-- Reading the event
-- ---------------------------------------------------------------------------

/-- The row set stays, and no block of anybody is gone. -/
def Peeks {α : Type} (x : RowsM α) : Prop :=
  ∀ s ids, s.heap.Owned ids →
    Triple x s (fun _ s' => s'.set = s.set ∧ s'.heap.Owned ids)
      fun _ s' => s'.set = s.set ∧ s'.heap.Owned ids

section

variable {α β : Type} {x : RowsM α} {f : α → RowsM β}

theorem Peeks.pure (a : α) : Peeks (Pure.pure a : RowsM α) := fun _ _ ho => Triple.pure ⟨rfl, ho⟩

theorem Peeks.throw (e : Halt) : Peeks (throw e : RowsM α) := fun _ _ ho => Triple.throw ⟨rfl, ho⟩

theorem Peeks.bind (hx : Peeks x) (hf : ∀ a, Peeks (f a)) : Peeks (x >>= f) := by
  intro s ids ho
  refine Triple.bind (hx s ids ho) fun a s' ⟨hs, ho'⟩ => ?_
  refine (hf a s' ids ho').mono ?_ ?_
  all_goals
    rintro _ s'' ⟨hs', ho''⟩
    exact ⟨hs'.trans hs, ho''⟩

theorem Peeks.holds (hx : Peeks x) (h : s.Holds base n len fresh) :
    Triple x s (fun _ s' => s'.Holds base n len fresh) fun _ s' => s'.Holds base n len fresh := by
  refine (hx s _ h.owned).mono ?_ ?_
  all_goals
    rintro _ ⟨heap, set⟩ ⟨rfl, ho⟩
    exact { h with owned := ho }

theorem atEvent_peeks {x : CellM α} (hx : Reads x) : Peeks (atEvent x) := by
  intro s ids ho
  have hrun := hx ⟨s.heap, .zero⟩ ids ho
  cases hr : x.run ⟨s.heap, .zero⟩ with
  | ok a t => exact Triple.of_run (atEvent_run hr) ⟨rfl, (hrun.ok hr).2⟩
  | error e t => exact Triple.of_run_error (atEvent_run_error hr) ⟨rfl, (hrun.error hr).2⟩

end

theorem bitReaderGet_peeks (ptr k : Nat) : Peeks (bitReaderGet buf ptr k) :=
  (atEvent_peeks (readBytes_reads _ _)).bind fun _ => .pure _

theorem readPartialBit_peeks (a : ImageArgs) (col : Column) (partialBit : Nat) :
    Peeks (readPartialBit buf a col partialBit) := by
  unfold readPartialBit
  split
  · exact bitReaderGet_peeks _ _
  · exact .pure _

theorem checkFieldSize_peeks (isNull : Bool) (col : Column) (value : Nat) :
    Peeks (checkFieldSize lib buf isNull col value) := by
  unfold checkFieldSize
  split
  · exact .pure _
  · refine (atEvent_peeks (readBytes_reads _ _)).bind fun _ => ?_
    dsimp only
    split
    · exact .throw _
    · exact .pure _

theorem readValueOptions_peeks (r : RowsArgs) (t : RowImageType) (value : Nat) :
    Peeks (readValueOptions lib buf r t value) := by
  unfold readValueOptions
  split
  · refine (atEvent_peeks (netFieldLengthChecked_reads _ _ _)).bind fun x => ?_
    dsimp only
    split
    · exact .pure _
    · exact .pure _
  · exact .pure _

-- ---------------------------------------------------------------------------
-- Decoding into a cell
-- ---------------------------------------------------------------------------

theorem cellIds_set {cells : List ReplLogXValue} {i : Nat} {cell c : ReplLogXValue}
    (hc : cells[i]? = some cell) (hv : cell.val = .null) :
    (cellIds (cells.set i c)).Perm (c.val.ids ++ cellIds cells) := by
  induction cells generalizing i with
  | nil => cases hc
  | cons d cells ih =>
    cases i with
    | zero =>
      cases hc
      simp [cellIds, hv]
    | succ i =>
      exact ((ih hc).append_left d.val.ids).trans (List.perm_append_comm_assoc _ _ _)

theorem RowSet.ids_perm {set : RowSet} (hr : set.rows = .null) (hra : set.rowsAfter = .null)
    (after : Bool) :
    set.ids.Perm (blockIds (set.block after) ++ blockIds (set.block (!after))) := by
  unfold RowSet.ids
  rw [hr, hra]
  cases after with
  | false => exact List.Perm.refl _
  | true =>
    change (blockIds set.rowsL2 ++ blockIds set.rowsAfterL2).Perm _
    exact List.perm_append_comm

@[simp] theorem RowSet.setBlock_rows (set : RowSet) (after : Bool) (p : Ptr (List ReplLogXValue)) :
    (set.setBlock after p).rows = set.rows := by cases after <;> rfl

@[simp] theorem RowSet.setBlock_rowsAfter (set : RowSet) (after : Bool)
    (p : Ptr (List ReplLogXValue)) : (set.setBlock after p).rowsAfter = set.rowsAfter := by
  cases after <;> rfl

@[simp] theorem RowSet.setBlock_other (set : RowSet) (after : Bool) (p : Ptr (List ReplLogXValue)) :
    (set.setBlock after p).block (!after) = set.block (!after) := by cases after <;> rfl

theorem RowsState.Holds.setBlock {p : Ptr (List ReplLogXValue)} {heap : Heap} {after : Bool}
    {l : Option Nat} {k : Nat} {ids : List Nat} (h : s.Holds base n len fresh) (ho : heap.Owned ids)
    (hids : ids.Perm (blockIds p ++ (blockIds (s.set.block (!after)) ++ base)))
    (hflat : Flat l k p) :
    (⟨heap, s.set.setBlock after p⟩ : RowsState).Holds base n (Function.update len after l)
      (Function.update fresh after k) := by
  have hrows := (s.set.setBlock_rows after p).trans h.rows
  have hrowsAfter := (s.set.setBlock_rowsAfter after p).trans h.rowsAfter
  refine ⟨ho.perm (hids.trans ?_), (s.set.setBlock_rowsCount after p).trans h.count, hrows, hrowsAfter,
    fun b => ?_⟩
  · have hperm := (RowSet.ids_perm hrows hrowsAfter after).symm.append_right base
    rwa [RowSet.block_setBlock, RowSet.setBlock_other, List.append_assoc] at hperm
  · by_cases hb : b = after
    · subst hb
      simpa using hflat
    · obtain rfl : b = !after := by cases b <;> cases after <;> simp_all
      simpa [Function.update_of_ne hb] using h.flat (!after)

theorem Flat.set {len : Option Nat} {k i id : Nat} {cells : List ReplLogXValue} {c : ReplLogXValue}
    (h : Flat len k (.block id cells)) (hi : k ≤ i) (hc : c.val.Tame) :
    Flat len (i + 1) (.block id (cells.set i c)) := by
  obtain ⟨hlen, htame, hempty⟩ := h
  refine ⟨by rw [hlen, List.length_set], fun d hd => ?_, fun d hd => ?_⟩
  · obtain hd | rfl := List.mem_or_eq_of_mem_set hd
    · exact htame d hd
    · exact hc
  · rw [List.drop_set_of_lt (Nat.lt_succ_self i)] at hd
    exact hempty d ((List.drop_sublist_drop_left cells (by omega)).subset hd)

theorem Flat.set_null {len : Option Nat} {k i id : Nat} {cells : List ReplLogXValue} {c : ReplLogXValue}
    (h : Flat len k (.block id cells)) (hc : c.val = .null) :
    Flat len k (.block id (cells.set i c)) := by
  obtain ⟨hlen, htame, hempty⟩ := h
  refine ⟨by rw [hlen, List.length_set], fun d hd => ?_, fun d hd => ?_⟩
  · obtain hd | rfl := List.mem_or_eq_of_mem_set hd
    · exact htame d hd
    · exact hc ▸ Ptr.tame_null
  · rw [List.drop_set] at hd
    split at hd
    · exact hempty d hd
    · obtain hd | rfl := List.mem_or_eq_of_mem_set hd
      · exact hempty d hd
      · exact hc

theorem atCell_cases {α : Type} (r : CellRef) (x : CellM α) (s : RowsState) :
    (∃ id cells cell, s.set.block r.after = .block id cells ∧ cells[r.index]? = some cell) ∨
      (atCell r x).run s = .error .outOfBlock s := by
  cases hb : s.set.block r.after with
  | null | wild => exact .inr (by simp only [EStateM.run, atCell, hb])
  | block id cells =>
    cases hcell : cells[r.index]? with
    | none => exact .inr (by simp only [EStateM.run, atCell, hb, hcell])
    | some cell => exact .inl ⟨id, cells, cell, rfl, hcell⟩

section

variable {id : Nat} {cells : List ReplLogXValue} {cell : ReplLogXValue} {r : CellRef} {k : Nat}

theorem RowsState.Holds.empty (h : s.Holds base n len fresh) (hi : fresh r.after ≤ r.index)
    (hb : s.set.block r.after = .block id cells) (hcell : cells[r.index]? = some cell) :
    cell.val = .null := by
  have hflat := h.flat r.after
  rw [hb] at hflat
  refine hflat.2.2 cell (List.mem_of_getElem? (i := r.index - fresh r.after) ?_)
  rw [List.getElem?_drop, Nat.add_sub_cancel' hi, hcell]

theorem RowsState.Holds.setCell {t : CellState} (h : s.Holds base n len fresh)
    (hi : fresh r.after ≤ r.index) (hb : s.set.block r.after = .block id cells)
    (hcell : cells[r.index]? = some cell) (ht : t.Holds (s.set.ids ++ base))
    (hflat : Flat (len r.after) k (.block id (cells.set r.index t.cell))) :
    (⟨t.heap, s.set.setBlock r.after (.block id (cells.set r.index t.cell))⟩ : RowsState).Holds
      base n len (Function.update fresh r.after k) := by
  have hset := RowSet.ids_perm h.rows h.rowsAfter r.after
  rw [hb] at hset
  refine Function.update_eq_self r.after len ▸ h.setBlock ht.owned ?_ hflat
  refine ((hset.append_right base).append_left _).trans ?_
  refine List.Perm.trans ?_
    (((cellIds_set hcell (h.empty hi hb hcell)).symm.cons id).append_right _)
  simp only [blockIds, List.cons_append, List.append_assoc]
  exact List.perm_middle

theorem update_le {a : Bool} (h : fresh a ≤ k) (b : Bool) : fresh b ≤ Function.update fresh a k b := by
  by_cases hb : b = a
  · subst hb
    simpa using h
  · simp [Function.update_of_ne hb]

theorem atCell_holds {α : Type} {x : CellM α} (hx : Fills x) (h : s.Holds base n len fresh)
    (hi : fresh r.after ≤ r.index) :
    Triple (atCell r x) s
      (fun _ s' => s'.Holds base n len (Function.update fresh r.after (r.index + 1)))
      fun _ s' => s'.Holds base n len (Function.update fresh r.after (r.index + 1)) := by
  obtain ⟨id, cells, cell, hb, hcell⟩ | hrun := atCell_cases r x s
  · have hflat := h.flat r.after
    rw [hb] at hflat
    have hrun := hx ⟨s.heap, cell⟩ _ (h.empty hi hb hcell) h.owned
    have hset (t : CellState) (ht : t.Holds (s.set.ids ++ base)) :=
      h.setCell hi hb hcell ht (hflat.set hi ht.tame)
    cases hr : x.run ⟨s.heap, cell⟩ with
    | ok a t => exact Triple.of_run (atCell_run hb hcell hr) (hset t (hrun.ok hr))
    | error e t => exact Triple.of_run_error (atCell_run_error hb hcell hr) (hset t (hrun.error hr))
  · exact Triple.of_run_error hrun (h.mono (update_le (by omega)))

theorem atCell_setLen_holds {l : Int} (h : s.Holds base n len fresh) (hi : fresh r.after ≤ r.index) :
    Triple (atCell r (setLen l)) s (fun _ s' => s'.Holds base n len fresh)
      fun _ s' => s'.Holds base n len fresh := by
  obtain ⟨id, cells, cell, hb, hcell⟩ | hrun := atCell_cases r (setLen l) s
  · have hflat := h.flat r.after
    rw [hb] at hflat
    have hnull := h.empty hi hb hcell
    have hrun : (setLen l).run ⟨s.heap, cell⟩ = .ok () ⟨s.heap, { cell with len := l }⟩ := rfl
    have hset := h.setCell (t := ⟨s.heap, { cell with len := l }⟩) hi hb hcell
      (.of_null hnull h.owned) (hflat.set_null hnull)
    rw [Function.update_eq_self] at hset
    exact Triple.of_run (atCell_run hb hcell hrun) hset
  · exact Triple.of_run_error hrun h

end

theorem decodeColumn_holds {a : ImageArgs} {xRow : CellRef} {col : Column} {i nullBit value : Nat}
    {isPartial : Bool} (h : s.Holds base n len fresh) (hi : fresh xRow.after ≤ xRow.index + i) :
    Triple (decodeColumn lib os buf a xRow col i nullBit value isPartial) s
      (fun _ s' => s'.Holds base n len (Function.update fresh xRow.after (xRow.index + i + 1)))
      fun _ s' => s'.Holds base n len (Function.update fresh xRow.after (xRow.index + i + 1)) := by
  have hstay {s' : RowsState} (h' : s'.Holds base n len fresh) :
      s'.Holds base n len (Function.update fresh xRow.after (xRow.index + i + 1)) :=
    h'.mono (update_le (by omega))
  unfold decodeColumn
  refine Triple.bind ((atCell_setLen_holds h hi).mono (fun _ _ h => h) fun _ _ => hstay)
    fun _ s₁ h₁ => ?_
  refine Triple.bind (((bitReaderGet_peeks _ _).holds h₁).mono (fun _ _ h => h) fun _ _ => hstay)
    fun isNull s₂ h₂ => ?_
  refine Triple.bind (((checkFieldSize_peeks _ _ _).holds h₂).mono (fun _ _ h => h) fun _ _ => hstay)
    fun _ s₃ h₃ => ?_
  split
  · exact Triple.throw (hstay h₃)
  · refine Triple.bind (atCell_holds (r := ⟨xRow.after, xRow.index + i⟩)
      (logEventGetValue2_fills _ _ _ _ _ _) h₃ hi) fun _ s₄ h₄ => ?_
    exact Triple.pure h₄

/-- The loop over the columns fills the cells of their row at most. -/
theorem columnLoop_holds {a : ImageArgs} {xRow : CellRef} {cols : List Column}
    {i nullBit partialBit value : Nat} (h : s.Holds base n len fresh)
    (hi : fresh xRow.after ≤ xRow.index + i) :
    Triple (columnLoop lib os buf a xRow cols i nullBit partialBit value) s
      (fun _ s' => s'.Holds base n len
        (Function.update fresh xRow.after (xRow.index + i + cols.length)))
      fun _ s' => s'.Holds base n len
        (Function.update fresh xRow.after (xRow.index + i + cols.length)) := by
  induction cols generalizing i nullBit partialBit value s fresh with
  | nil => exact Triple.pure (h.mono (update_le hi))
  | cons col cols ih =>
    have hnext : xRow.index + (i + 1) + cols.length = xRow.index + i + (col :: cols).length := by
      rw [List.length_cons]
      omega
    unfold columnLoop
    refine Triple.bind (((readPartialBit_peeks a col partialBit).holds h).mono (fun _ _ h => h)
      fun _ _ h' => h'.mono (update_le (by omega))) fun isPartial s₁ h₁ => ?_
    dsimp only
    split
    · rw [← hnext]
      exact ih h₁ (by omega)
    · refine Triple.bind ((decodeColumn_holds h₁ hi).mono (fun _ _ h => h) fun _ _ h' =>
        ?_) fun size s₂ h₂ => ?_
      · have hlast := h'.mono (update_le (k := xRow.index + i + (col :: cols).length)
          (a := xRow.after) (by simp))
        rwa [Function.update_idem] at hlast
      · have hrest := @ih s₂ _ (i + 1) (nullBit + 1) (a.nextPartialBit col partialBit)
          (value + size) h₂ (by rw [Function.update_self]; omega)
        rwa [Function.update_idem, hnext] at hrest

-- ---------------------------------------------------------------------------
-- Memory for one more row
-- ---------------------------------------------------------------------------

theorem cellIds_of_null {cells : List ReplLogXValue} (h : ∀ c ∈ cells, c.val = .null) :
    cellIds cells = [] := by
  refine List.flatMap_eq_nil_iff.mpr fun c hc => ?_
  rw [h c hc]
  rfl

theorem cellIds_append (cells cells' : List ReplLogXValue) :
    cellIds (cells ++ cells') = cellIds cells ++ cellIds cells' := List.flatMap_append

theorem growCells_flat {k : Nat} {id id' : Nat} {cells : List ReplLogXValue}
    (h : Flat (some (n * m)) k (.block id cells)) (hlt : (n + 1) * m < 2 ^ 32) :
    ∃ cells', growCells cells n m = some cells' ∧
      Flat (some ((n + 1) * m)) (n * m) (.block id' cells') ∧
      cellIds cells' = cellIds cells := by
  have hrows : (List.replicate n ([] : List (Option Rendered))).length = n := List.length_replicate
  have hcount : cells.length = n * m := (Option.some.inj h.1).symm
  obtain ⟨cells', hgrow, hlen, hcells⟩ := @growCells_eq m
    (List.replicate n ([] : List (Option Rendered))) cells (hrows.symm ▸ hcount)
  rw [hrows] at hgrow hlen hcells
  have hrow : ∀ c ∈ List.replicate m ReplLogXValue.absent, c.val = .null := fun c hc => by
    rw [List.eq_of_mem_replicate hc]
    rfl
  refine ⟨cells', hgrow, ⟨congrArg some hlen.symm, ?_, ?_⟩, ?_⟩
  all_goals rw [hcells hlt]
  · intro c hc
    obtain hc | hc := List.mem_append.mp hc
    · exact h.2.1 c hc
    · rw [hrow c hc]
      exact Ptr.tame_null
  · rw [← hcount, List.drop_left]
    exact hrow
  · rw [cellIds_append, cellIds_of_null hrow, List.append_nil]

theorem growRequest_owned {p : Ptr (List ReplLogXValue)} {k : Nat} {rest : List Nat}
    (ho : s.heap.Owned (blockIds p ++ rest)) (h : Flat (some (n * m)) k p) (hz : n = 0 → p = .null) :
    Triple (zoom RowsState.heapPart
        (if n = 0 then Heap.request os else Heap.realloc os p) : RowsM (Option Nat)) s
      (fun r s' => s'.set = s.set ∧
        ((∃ id, r = some id ∧ s'.heap.Owned (id :: (cellIds (keptCells p n) ++ rest))) ∨
          r = none ∧ s'.heap.Owned (blockIds p ++ rest)))
      fun _ _ => False := by
  refine (Triple.zoom (p := RowsState.heapPart) (E := fun _ _ => False) (Q := fun r h' =>
    (∃ id, r = some id ∧ h'.Owned (id :: (cellIds (keptCells p n) ++ rest))) ∨
      r = none ∧ h'.Owned (blockIds p ++ rest)) ?_).mono ?_ ?_
  · split
    case isTrue hn =>
      obtain rfl := hz hn
      refine (Heap.request_owned ho).mono (fun r h' hr => ?_) fun _ _ h => h
      cases r with
      | none => exact .inr ⟨rfl, hr⟩
      | some id => exact .inl ⟨id, rfl, hr⟩
    case isFalse hn =>
      cases p with
      | wild => exact h.elim
      | null => exact Heap.realloc_owned Ptr.tame_null ho
      | block id cells =>
        have hkept : keptCells (.block id cells) n = cells := if_neg hn
        rw [hkept]
        exact Heap.realloc_owned (Ptr.tame_block id cells) ho
  · rintro r _ ⟨h', hr, rfl⟩
    exact ⟨rfl, hr⟩
  · rintro _ _ ⟨_, hf, -⟩
    exact hf

theorem Flat.kept {p : Ptr (List ReplLogXValue)} {k : Nat} (h : Flat (some (n * m)) k p)
    (hz : n = 0 → p = .null) : Flat (some (n * m)) k (.block 0 (keptCells p n)) := by
  cases p with
  | wild => exact h.elim
  | null =>
    have hzero : n * m = 0 := by simpa [Flat] using h
    exact ⟨congrArg some hzero, by simp [keptCells], by simp [keptCells]⟩
  | block id cells =>
    have hn : n ≠ 0 := by
      intro hn
      cases hz hn
    have hkept : keptCells (.block id cells) n = cells := if_neg hn
    rw [hkept]
    exact h

/-- A block that grows by a row is held under its new name, or is still there. -/
theorem growBlock_owned {p : Ptr (List ReplLogXValue)} {k : Nat} {rest : List Nat}
    (ho : s.heap.Owned (blockIds p ++ rest)) (h : Flat (some (n * m)) k p) (hz : n = 0 → p = .null)
    (hlt : (n + 1) * m < 2 ^ 32) :
    Triple (growBlock os p n m) s
      (fun p' s' => s'.set = s.set ∧ Flat (some ((n + 1) * m)) (n * m) p' ∧
        s'.heap.Owned (blockIds p' ++ rest))
      fun _ s' => s'.set = s.set ∧ s'.heap.Owned (blockIds p ++ rest) := by
  refine Triple.bind ((growRequest_owned ho h hz).mono (fun _ _ h => h) fun _ _ h => h.elim) ?_
  rintro r s' ⟨hs, ⟨id, rfl, ho'⟩ | ⟨rfl, ho'⟩⟩
  · obtain ⟨cells', hgrow, hflat, hids⟩ := @growCells_flat n m _ _ id _ (h.kept hz) hlt
    simp only [hgrow]
    refine Triple.pure ⟨hs, hflat, ?_⟩
    rw [← hids] at ho'
    exact ho'
  · exact Triple.throw ⟨hs, ho'⟩

def blockLen (m : Nat) (update : Bool) (n : Nat) (after : Bool) : Option Nat :=
  if after && !update then none else some (n * m)

theorem growOne_holds {after : Bool} (h : s.Holds base n len fresh) (hlen : len after = some (n * m))
    (hz : n = 0 → s.set.block after = .null) (hlt : (n + 1) * m < 2 ^ 32) :
    Triple (do
        let p ← growBlock os (s.set.block after) n m
        modifySet fun set => set.setBlock after p) s
      (fun _ s' => (∃ p, s'.set = s.set.setBlock after p) ∧
        s'.Holds base n (Function.update len after (some ((n + 1) * m)))
          (Function.update fresh after (n * m)))
      fun _ s' => s'.set = s.set ∧ s'.Holds base n len fresh := by
  have hperm := (RowSet.ids_perm h.rows h.rowsAfter after).append_right base
  rw [List.append_assoc] at hperm
  refine Triple.bind ((growBlock_owned (h.owned.perm hperm) (hlen ▸ h.flat after) hz hlt).mono
    (fun _ _ h => h) ?_) ?_
  · rintro _ ⟨heap, set⟩ ⟨rfl, ho⟩
    exact ⟨rfl, { h with owned := ho.perm hperm.symm }⟩
  · rintro p ⟨heap, set⟩ ⟨rfl, hflat, ho⟩
    exact Triple.of_run (modifySet_run _) ⟨⟨p, rfl⟩, h.setBlock ho (List.Perm.refl _) hflat⟩

structure RowsState.Between (base : List Nat) (m : Nat) (update : Bool) (n : Nat) (s : RowsState) :
    Prop where
  holds : s.Holds base n (blockLen m update n) fun _ => n * m
  empty : n = 0 → ∀ after, s.set.block after = .null

variable {update : Bool}

theorem blockLen_le {after : Bool} {l : Nat} (h : blockLen m update n after = some l) :
    n * m ≤ l := by
  unfold blockLen at h
  split at h
  · cases h
  · exact le_of_eq (Option.some.inj h)

theorem RowsState.Holds.settled_row (h : s.Holds base n (blockLen m update n) fresh)
    (hlt : n * m < 2 ^ 32) (hle : ∀ after, fresh after ≤ n * m) : s.Settled base m :=
  h.settled hlt hle fun _ _ => blockLen_le

theorem addBeforeMem_holds (h : s.Holds base n len fresh) (hlen : len false = some (n * m))
    (hz : n = 0 → s.set.rowsL2 = .null) (hlt : (n + 1) * m < 2 ^ 32) :
    Triple (addBeforeMem os m) s
      (fun _ s' => (∃ p, s'.set = s.set.setBlock false p) ∧
        s'.Holds base n (Function.update len false (some ((n + 1) * m)))
          (Function.update fresh false (n * m)))
      fun _ s' => s'.set = s.set ∧ s'.Holds base n len fresh := by
  unfold addBeforeMem
  refine Triple.get_bind ?_
  dsimp only
  rw [h.count]
  exact @growOne_holds _ _ _ _ _ _ _ false h hlen hz hlt

theorem addAfterMem_holds (h : s.Holds base n len fresh) (hlen : len true = some (n * m))
    (hz : n = 0 → s.set.rowsAfterL2 = .null) (hlt : (n + 1) * m < 2 ^ 32) :
    Triple (addAfterMem os m .updateBI) s
      (fun _ s' => (∃ p, s'.set = s.set.setBlock true p) ∧
        s'.Holds base n (Function.update len true (some ((n + 1) * m)))
          (Function.update fresh true (n * m)))
      fun _ s' => s'.set = s.set ∧ s'.Holds base n len fresh := by
  unfold addAfterMem
  rw [if_pos rfl]
  refine Triple.get_bind ?_
  dsimp only
  rw [h.count]
  exact @growOne_holds _ _ _ _ _ _ _ true h hlen hz hlt

theorem countRow_holds (h : s.Holds base n len fresh) (hn : n + 1 < 2 ^ 32) :
    Triple (modifySet fun set => { set with rowsCount := uint32 (set.rowsCount + 1) }) s
      (fun _ s' => s'.Holds base (n + 1) len fresh) fun _ _ => False := by
  refine Triple.of_run (modifySet_run _) ⟨h.owned, ?_, h.rows, h.rowsAfter, h.flat⟩
  dsimp only
  rw [h.count, uint32_of_lt hn]

theorem addRowMem_holds {t : RowImageType} (h : s.Between base m update n) (ht : t ≠ .updateAI)
    (hu : update = (t == .updateBI)) (hlt : (n + 1) * m < 2 ^ 32) (hn : n + 1 < 2 ^ 32) :
    Triple (replLogXRowsAddRowMem os m t) s
      (fun _ s' => s'.Holds base (n + 1) (blockLen m update (n + 1)) fun _ => n * m)
      fun _ s' => s'.Settled base m := by
  have hle : n * m ≤ (n + 1) * m := Nat.mul_le_mul_right m (Nat.le_succ n)
  unfold replLogXRowsAddRowMem
  rw [if_pos ht]
  refine Triple.bind ((addBeforeMem_holds h.holds rfl (fun hn => h.empty hn false) hlt).mono
    (fun _ _ h => h) ?_) ?_
  · rintro _ s₁ ⟨-, h₁⟩
    exact h₁.settled_row (by omega) fun _ => le_rfl
  rintro _ s₁ ⟨⟨p, hs₁⟩, h₁⟩
  cases hup : update with
  | false =>
    have hafter : addAfterMem os m t = pure () := by
      unfold addAfterMem
      rw [if_neg]
      rintro rfl
      rw [hup] at hu
      cases hu
    rw [hafter]
    refine Triple.bind_run rfl ((countRow_holds h₁ hn).mono ?_ fun _ _ h => h.elim)
    rintro _ s₂ h₂
    refine ⟨h₂.owned, h₂.count, h₂.rows, h₂.rowsAfter, fun after => ?_⟩
    have hflat := h₂.flat after
    cases after with
    | false => exact hflat
    | true =>
      rw [hup] at hflat
      exact hflat
  | true =>
    obtain rfl : t = .updateBI := by
      rw [hup] at hu
      exact beq_iff_eq.mp hu.symm
    have hlen : Function.update (blockLen m update n) false (some ((n + 1) * m)) true =
        some (n * m) := by
      rw [Function.update_of_ne (by decide), hup]
      rfl
    have hnull (hn : n = 0) : s₁.set.rowsAfterL2 = .null := by
      rw [hs₁]
      exact h.empty hn true
    refine Triple.bind ((addAfterMem_holds h₁ hlen hnull hlt).mono (fun _ _ h => h) ?_) ?_
    · rintro _ s₂ ⟨-, h₂⟩
      refine h₂.settled (by omega) (fun after => ?_) fun after l hl => ?_
      · cases after with
        | false => exact le_rfl
        | true => exact le_rfl
      · cases after with
        | false =>
          rw [Function.update_self] at hl
          exact Option.some.inj hl ▸ hle
        | true =>
          rw [hlen] at hl
          exact le_of_eq (Option.some.inj hl)
    rintro _ s₂ ⟨-, h₂⟩
    refine (countRow_holds h₂ hn).mono ?_ fun _ _ h => h.elim
    rintro _ s₃ h₃
    refine ⟨h₃.owned, h₃.count, h₃.rows, h₃.rowsAfter, fun after => ?_⟩
    cases after with
    | false => exact h₃.flat false
    | true => exact h₃.flat true

-- ---------------------------------------------------------------------------
-- Images
-- ---------------------------------------------------------------------------

theorem lastRow_holds {r : RowsArgs} {a : ImageArgs} {after : Bool} {value : Nat}
    (hr : r.colCount = r.td.columns.length)
    (h : s.Holds base (n + 1) (blockLen r.colCount update (n + 1)) fresh)
    (hle : ∀ after, fresh after ≤ (n + 1) * r.colCount) (hafter : fresh after ≤ n * r.colCount)
    (hlt : (n + 1) * r.colCount < 2 ^ 32) :
    Triple (columnLoop lib os buf a ⟨after, n * r.colCount⟩ r.td.columns 0 0 0 value) s
      (fun _ s' => s'.Holds base (n + 1) (blockLen r.colCount update (n + 1))
        (Function.update fresh after ((n + 1) * r.colCount)))
      fun _ s' => s'.Settled base r.colCount := by
  have hend : n * r.colCount + 0 + r.td.columns.length = (n + 1) * r.colCount := by
    rw [Nat.succ_mul, hr]
    omega
  have hloop := @columnLoop_holds lib os buf base s (n + 1) (blockLen r.colCount update (n + 1)) fresh
    a ⟨after, n * r.colCount⟩ r.td.columns 0 0 0 value h (by simpa using hafter)
  rw [hend] at hloop
  refine hloop.mono (fun _ _ h => h) fun _ s' h' => h'.settled_row hlt fun b => ?_
  by_cases hb : b = after
  · subst hb
    simp
  · rw [Function.update_of_ne hb]
    exact hle b

theorem getOneRowValues_holds {r : RowsArgs} {bitmap : List Bool} {value : Nat} {t : RowImageType}
    (hr : r.colCount = r.td.columns.length) (h : s.Between base r.colCount update n)
    (ht : t ≠ .updateAI) (hu : update = (t == .updateBI)) (hlt : (n + 1) * r.colCount < 2 ^ 32)
    (hn : n + 1 < 2 ^ 32) :
    Triple (getOneRowValues lib os buf r bitmap value t) s
      (fun _ s' => s'.Holds base (n + 1) (blockLen r.colCount update (n + 1))
        (Function.update (fun _ => n * r.colCount) false ((n + 1) * r.colCount)))
      fun _ s' => s'.Settled base r.colCount := by
  have hle : n * r.colCount ≤ (n + 1) * r.colCount := Nat.mul_le_mul_right _ (Nat.le_succ n)
  unfold getOneRowValues
  refine Triple.bind ((readValueOptions_peeks r t value s _ h.holds.owned).mono (fun _ _ h => h) ?_) ?_
  · rintro _ ⟨heap, set⟩ ⟨rfl, ho⟩
    have hs : (⟨heap, s.set⟩ : RowsState).Holds base n _ _ := { h.holds with owned := ho }
    exact hs.settled_row (by omega) fun _ => le_rfl
  rintro ⟨valueOptions, partialPtr, value'⟩ ⟨heap, set⟩ ⟨rfl, ho⟩
  have hs : (⟨heap, s.set⟩ : RowsState).Between base r.colCount update n :=
    ⟨{ h.holds with owned := ho }, h.empty⟩
  refine Triple.bind (addRowMem_holds hs ht hu hlt hn) fun _ s₁ h₁ => Triple.get_bind ?_
  simp only [h₁.count, lastIndex_eq hn, decide_eq_false ht,
    uint32_of_lt (show n * r.colCount < 2 ^ 32 by omega)]
  refine Triple.bind (lastRow_holds hr h₁ (fun _ => hle) le_rfl hlt) fun _ s₂ h₂ => Triple.pure h₂

theorem getOneRowValues_after_holds {r : RowsArgs} {bitmap : List Bool} {value : Nat}
    (hr : r.colCount = r.td.columns.length)
    (h : s.Holds base (n + 1) (blockLen r.colCount update (n + 1))
      (Function.update (fun _ => n * r.colCount) false ((n + 1) * r.colCount)))
    (hlt : (n + 1) * r.colCount < 2 ^ 32) (hn : n + 1 < 2 ^ 32) :
    Triple (getOneRowValues lib os buf r bitmap value .updateAI) s
      (fun _ s' => s'.Between base r.colCount update (n + 1))
      fun _ s' => s'.Settled base r.colCount := by
  have hle : n * r.colCount ≤ (n + 1) * r.colCount := Nat.mul_le_mul_right _ (Nat.le_succ n)
  have hfresh (b : Bool) : Function.update (fun _ => n * r.colCount) false
      ((n + 1) * r.colCount) b ≤ (n + 1) * r.colCount := by
    cases b with
    | false => exact le_rfl
    | true => exact hle
  unfold getOneRowValues
  refine Triple.bind ((readValueOptions_peeks r .updateAI value s _ h.owned).mono (fun _ _ h => h) ?_) ?_
  · rintro _ ⟨heap, set⟩ ⟨rfl, ho⟩
    have hs : (⟨heap, s.set⟩ : RowsState).Holds base (n + 1) _ _ := { h with owned := ho }
    exact hs.settled_row hlt hfresh
  rintro ⟨valueOptions, partialPtr, value'⟩ ⟨heap, set⟩ ⟨rfl, ho⟩
  have hs : (⟨heap, s.set⟩ : RowsState).Holds base (n + 1) _ _ := { h with owned := ho }
  refine Triple.bind_run (a := ()) rfl (Triple.get_bind ?_)
  have hcount : s.set.rowsCount = n + 1 := h.count
  simp only [hcount, lastIndex_eq hn, decide_true,
    uint32_of_lt (show n * r.colCount < 2 ^ 32 by omega)]
  refine Triple.bind (lastRow_holds hr hs hfresh le_rfl hlt) fun _ s₂ h₂ => Triple.pure ⟨?_, ?_⟩
  · refine h₂.mono fun b => ?_
    cases b with
    | false => exact le_rfl
    | true => exact le_rfl
  · exact fun hz => absurd hz (Nat.succ_ne_zero n)

-- ---------------------------------------------------------------------------
-- All images
-- ---------------------------------------------------------------------------

/-- How many rows the walk from `value` on comes to, the one it fails in counted
too. -/
def rowsVisited (lib : Library) (buf : List UInt8) (r : RowsArgs) (update : Bool)
    (cols colsAi : List Bool) : (fuel value : Nat) → Nat
  | 0, _ => 0
  | fuel + 1, value =>
    if value < buf.length then
      match scanImage lib buf r cols false value with
      | .error _ => 1
      | .ok (_, valueAfter) =>
        if valueAfter = value then 1
        else if update then
          match scanImage lib buf r colsAi true valueAfter with
          | .error _ => 1
          | .ok (_, valueNext) =>
            if valueNext = valueAfter then 1
            else rowsVisited lib buf r update cols colsAi fuel valueNext + 1
        else rowsVisited lib buf r update cols colsAi fuel valueAfter + 1
    else 0

def RowsState.Done (base : List Nat) (m : Nat) (update : Bool) (s : RowsState) : Prop :=
  ∃ n fresh, s.Holds base n (blockLen m update n) fresh ∧ (∀ after, fresh after ≤ n * m) ∧
    n * m < 2 ^ 32

theorem RowsState.Done.settled (h : s.Done base m update) : s.Settled base m := by
  obtain ⟨n, fresh, h, hle, hlt⟩ := h
  exact h.settled_row hlt hle

theorem RowsState.Between.done (h : s.Between base m update n) (hlt : n * m < 2 ^ 32) :
    s.Done base m update := ⟨n, _, h.holds, fun _ => le_rfl, hlt⟩

/-- The first image of a row is done: what it holds, and what the walk says. -/
theorem firstImage_cases {r : RowsArgs} {rows : List Row} {bitmap : List Bool} {value : Nat}
    {t : RowImageType} (hr : r.Sound)
    (h : s.Between base r.colCount (t == .updateBI) rows.length)
    (hset : RowSetOf r.colCount (t == .updateBI) rows s.set) (ht : t ≠ .updateAI)
    (hlt : (rows.length + 1) * r.colCount < 2 ^ 32) (hn : rows.length + 1 < 2 ^ 32) :
    (∃ e s', (getOneRowValues lib os buf r bitmap value t).run s = .error e s' ∧
        s'.Settled base r.colCount) ∨
      ∃ c s', (getOneRowValues lib os buf r bitmap value t).run s = .ok (c.2 - value) s' ∧
        scanImage lib buf r bitmap false value = .ok c ∧
        s'.Holds base (rows.length + 1) (blockLen r.colCount (t == .updateBI) (rows.length + 1))
          (Function.update (fun _ => rows.length * r.colCount) false
            ((rows.length + 1) * r.colCount)) ∧
        RowSetOf r.colCount (t == .updateBI)
          (rows ++ [⟨c.1, List.replicate r.colCount none⟩]) s'.set := by
  have hholds := @getOneRowValues_holds lib os buf base s rows.length _ r bitmap value t hr.colCount h
    ht rfl hlt hn
  have hfollows := (@getOneRowValues_follows lib os buf s r hr _ rows bitmap t value hset ht rfl
    hn).remember
  cases hrun : (getOneRowValues lib os buf r bitmap value t).run s with
  | error e s' => exact .inl ⟨e, s', rfl, hholds.error hrun⟩
  | ok length s' =>
    obtain ⟨c, hc, ⟨rfl, -, hset'⟩, hscan⟩ := hfollows.ok hrun
    exact .inr ⟨c, s', rfl, hscan, hholds.ok hrun, hset'⟩

theorem afterImage_cases {r : RowsArgs} {rows : List Row} {before : List (Option Rendered)}
    {bitmap : List Bool} {value : Nat} (hr : r.Sound)
    (h : s.Holds base (rows.length + 1) (blockLen r.colCount true (rows.length + 1))
      (Function.update (fun _ => rows.length * r.colCount) false ((rows.length + 1) * r.colCount)))
    (hset : RowSetOf r.colCount true (rows ++ [⟨before, List.replicate r.colCount none⟩]) s.set)
    (hlt : (rows.length + 1) * r.colCount < 2 ^ 32) (hn : rows.length + 1 < 2 ^ 32) :
    (∃ e s', (getOneRowValues lib os buf r bitmap value .updateAI).run s = .error e s' ∧
        s'.Settled base r.colCount) ∨
      ∃ c s', (getOneRowValues lib os buf r bitmap value .updateAI).run s = .ok (c.2 - value) s' ∧
        scanImage lib buf r bitmap true value = .ok c ∧
        s'.Between base r.colCount true (rows.length + 1) ∧
        RowSetOf r.colCount true (rows ++ [⟨before, c.1⟩]) s'.set := by
  have hholds := @getOneRowValues_after_holds lib os buf base s rows.length true r bitmap value
    hr.colCount h hlt hn
  have hfollows := (@getOneRowValues_after_follows lib os buf s r hr rows before bitmap value hset
    hn).remember
  cases hrun : (getOneRowValues lib os buf r bitmap value .updateAI).run s with
  | error e s' => exact .inl ⟨e, s', rfl, hholds.error hrun⟩
  | ok length s' =>
    obtain ⟨c, hc, ⟨rfl, -, hset'⟩, hscan⟩ := hfollows.ok hrun
    exact .inr ⟨c, s', rfl, hscan, hholds.ok hrun, hset'⟩

theorem rowsVisited_pos {r : RowsArgs} {cols colsAi : List Bool} {fuel value : Nat}
    (h : value < buf.length) : 0 < rowsVisited lib buf r update cols colsAi (fuel + 1) value := by
  unfold rowsVisited
  rw [if_pos h]
  split
  · exact Nat.one_pos
  split
  · exact Nat.one_pos
  split
  · split
    · exact Nat.one_pos
    split
    · exact Nat.one_pos
    · exact Nat.succ_pos _
  · exact Nat.succ_pos _

/-- The loop from `value` on, with the rows before it decoded. -/
theorem imageLoop_holds {r : RowsArgs} (hr : r.Sound) (hbuf : buf.length < 2 ^ 32)
    {first : RowImageType} {cols colsAi : List Bool} {fuel value : Nat} {rows : List Row}
    (ht : first ≠ .updateAI) (h : s.Between base r.colCount (first == .updateBI) rows.length)
    (hset : RowSetOf r.colCount (first == .updateBI) rows s.set) (hle : rows.length ≤ value)
    (hcells : (rows.length + rowsVisited lib buf r (first == .updateBI) cols colsAi fuel value) *
      r.colCount < 2 ^ 32) :
    Triple (imageLoop lib os buf r first cols colsAi fuel value) s
      (fun _ s' => s'.Done base r.colCount (first == .updateBI))
      fun _ s' => s'.Settled base r.colCount := by
  induction fuel generalizing value s rows with
  | zero => exact Triple.pure (h.done (by simpa [rowsVisited] using hcells))
  | succ fuel ih =>
    unfold imageLoop
    split
    case isFalse hv =>
      rw [rowsVisited, if_neg hv] at hcells
      exact Triple.pure (h.done hcells)
    case isTrue hv =>
      have hone : (rows.length + 1) * r.colCount < 2 ^ 32 :=
        Nat.lt_of_le_of_lt (Nat.mul_le_mul_right _ (Nat.add_le_add_left (rowsVisited_pos hv) _)) hcells
      have hrow : rows.length * r.colCount ≤ (rows.length + 1) * r.colCount :=
        Nat.mul_le_mul_right _ (Nat.le_succ _)
      rw [rowsVisited, if_pos hv] at hcells
      obtain ⟨e, s', hrun, hs⟩ | ⟨⟨before, valueAfter⟩, s₁, hrun, hscan, h₁, hset₁⟩ :=
        @firstImage_cases lib os buf base s r rows cols value first hr h hset ht hone (by omega)
      · exact Triple.of_run_error (run_bind_error hrun _) hs
      refine Triple.bind_run hrun ?_
      have hvalue := scanImage_le hscan
      simp only [hscan] at hcells hvalue hset₁ ⊢
      have hfresh (b : Bool) : Function.update (fun _ => rows.length * r.colCount) false
          ((rows.length + 1) * r.colCount) b ≤ (rows.length + 1) * r.colCount := by
        cases b with
        | false => exact le_rfl
        | true => exact hrow
      by_cases heq : valueAfter = value
      · rw [if_neg (by omega)]
        exact Triple.pure ⟨_, _, h₁, hfresh, hone⟩
      rw [if_neg heq] at hcells
      rw [if_pos (by omega), Nat.add_sub_cancel' hvalue]
      by_cases hup : first = .updateBI
      · subst hup
        rw [if_pos (show (RowImageType.updateBI == .updateBI) = true from rfl)] at hcells
        rw [if_pos rfl]
        obtain ⟨e, s', hrun₂, hs⟩ | ⟨⟨after, valueNext⟩, s₂, hrun₂, hscan₂, h₂, hset₂⟩ :=
          @afterImage_cases lib os buf base s₁ r rows before colsAi valueAfter hr h₁ hset₁ hone
            (by omega)
        · exact Triple.of_run_error (run_bind_error hrun₂ _) hs
        refine Triple.bind_run hrun₂ ?_
        have hnext := scanImage_le hscan₂
        simp only [hscan₂] at hcells hnext hset₂ ⊢
        by_cases heq₂ : valueNext = valueAfter
        · rw [if_neg (by omega)]
          exact Triple.pure (h₂.done hone)
        rw [if_neg heq₂] at hcells
        rw [if_pos (by omega), Nat.add_sub_cancel' hnext]
        refine ih ?_ hset₂ (by rw [List.length_append, List.length_singleton]; omega) ?_
        · rw [List.length_append, List.length_singleton]
          exact h₂
        · rw [List.length_append, List.length_singleton]
          refine Nat.lt_of_le_of_lt (Nat.mul_le_mul_right _ ?_) hcells
          omega
      · rw [if_neg (by simpa using hup)] at hcells
        rw [if_neg hup]
        refine ih ?_ hset₁ (by rw [List.length_append, List.length_singleton]; omega) ?_
        · rw [List.length_append, List.length_singleton]
          exact ⟨h₁.mono hfresh, fun hz => absurd hz (Nat.succ_ne_zero _)⟩
        · rw [List.length_append, List.length_singleton]
          refine Nat.lt_of_le_of_lt (Nat.mul_le_mul_right _ ?_) hcells
          omega

-- ---------------------------------------------------------------------------
-- get_rows
-- ---------------------------------------------------------------------------

theorem allocPointers_owned {ids : List Nat} (ho : s.heap.Owned ids) :
    Triple (allocPointers os) s (fun id s' => s'.set = s.set ∧ s'.heap.Owned (id :: ids))
      fun _ s' => s'.set = s.set ∧ s'.heap.Owned ids := by
  unfold allocPointers
  refine Triple.bind (Q := fun r s' => s'.set = s.set ∧ s'.heap.Owned (r.toList ++ ids))
    ((Triple.zoom (p := RowsState.heapPart) (Heap.request_owned (E := fun _ _ => False) ho)).mono ?_ ?_)
    ?_
  · rintro r _ ⟨h', ho', rfl⟩
    exact ⟨rfl, ho'⟩
  · rintro _ _ ⟨_, hf, -⟩
    exact hf.elim
  · rintro r s' ⟨hs, ho'⟩
    cases r with
    | none => exact Triple.throw ⟨hs, ho'⟩
    | some id => exact Triple.pure ⟨hs, ho'⟩

theorem RowsState.Settled.setRows {heap : Heap} {id : Nat} {offsets : List Nat}
    (h : s.Settled base m) (hr : s.set.rows = .null)
    (ho : heap.Owned (id :: (s.set.ids ++ base))) :
    (⟨heap, { s.set with rows := .block id offsets }⟩ : RowsState).Settled base m := by
  refine ⟨?_, h.small, Ptr.tame_block _ _, h.rowsAfter, h.clears⟩
  have hids : s.set.ids = s.set.rowsAfter.ids ++ (blockIds s.set.rowsL2 ++ blockIds s.set.rowsAfterL2) := by
    unfold RowSet.ids
    rw [hr, Ptr.ids_null, List.nil_append]
  rw [hids] at ho
  exact ho

theorem RowsState.Settled.setRowsAfter {heap : Heap} {id : Nat} {offsets : List Nat}
    (h : s.Settled base m) (hr : s.set.rowsAfter = .null)
    (ho : heap.Owned (id :: (s.set.ids ++ base))) :
    (⟨heap, { s.set with rowsAfter := .block id offsets }⟩ : RowsState).Settled base m := by
  refine ⟨ho.perm ?_, h.small, h.rows, Ptr.tame_block _ _, h.clears⟩
  have hids : s.set.ids = s.set.rows.ids ++ (blockIds s.set.rowsL2 ++ blockIds s.set.rowsAfterL2) := by
    unfold RowSet.ids
    rw [hr, Ptr.ids_null, List.nil_append]
  rw [hids, ← List.cons_append]
  exact List.perm_middle.symm.append_right base

theorem finish_settled (h : s.Done base m update) :
    Triple (replLogXRowsFinish os m) s (fun _ s' => s'.Settled base m) fun _ s' => s'.Settled base m := by
  have hs := h.settled
  obtain ⟨n, fresh, h, -⟩ := h
  unfold replLogXRowsFinish
  refine Triple.bind ((allocPointers_owned h.owned).mono (fun _ _ h => h) ?_) ?_
  · rintro _ ⟨heap, set⟩ ⟨rfl, ho⟩
    exact { hs with owned := ho }
  rintro id ⟨heap, set⟩ ⟨rfl, ho⟩
  have hs₁ := @RowsState.Settled.setRows base s m heap id (rowOffsets s.set.rowsCount m) hs h.rows ho
  refine Triple.bind_run (modifySet_run _) (Triple.get_bind ?_)
  split
  · refine Triple.bind ((allocPointers_owned hs₁.owned).mono (fun _ _ h => h) ?_) ?_
    · rintro _ ⟨heap', set'⟩ ⟨rfl, ho'⟩
      exact { hs₁ with owned := ho' }
    rintro id' ⟨heap', set'⟩ ⟨rfl, ho'⟩
    exact Triple.of_run (modifySet_run _) (hs₁.setRowsAfter h.rowsAfter ho')
  · exact Triple.pure hs₁

structure RowsState.Blank (base : List Nat) (s : RowsState) : Prop where
  owned : s.heap.Owned base
  count : s.set.rowsCount = 0
  rows : s.set.rows = .null
  rowsAfter : s.set.rowsAfter = .null
  blocks : ∀ after, s.set.block after = .null

theorem RowsState.Blank.between (h : s.Blank base) (m : Nat) (update : Bool) :
    s.Between base m update 0 where
  empty _ := h.blocks
  holds :=
    { owned := h.owned.perm (by
        simp [RowSet.ids, h.rows, h.rowsAfter, show s.set.rowsL2 = _ from h.blocks false,
          show s.set.rowsAfterL2 = _ from h.blocks true, blockIds])
      count := h.count
      rows := h.rows
      rowsAfter := h.rowsAfter
      flat := fun after => by
        rw [h.blocks after]
        unfold blockLen
        split
        · exact .inl rfl
        · exact .inr (by rw [Nat.zero_mul]) }

theorem RowsState.Blank.done (h : s.Blank base) (m : Nat) (update : Bool) : s.Done base m update :=
  (h.between m update).done (by rw [Nat.zero_mul]; decide)

def RowsCall.rowsVisited (lib : Library) (c : RowsCall) : Nat :=
  RplListener.rowsVisited lib c.ev.mRowsBuf c.args c.update c.ev.mCols c.ev.mColsAi
    c.ev.mRowsBuf.length 0

theorem setTypeCode_blank {t : LogEventType} (h : s.Blank base) :
    Triple (setTypeCode t) s (fun first s' => t.firstImage = some first ∧ s'.Blank base)
      fun _ s' => s'.Blank base := by
  cases hfirst : t.firstImage with
  | none => exact Triple.of_run_error (setTypeCode_run_error hfirst) h
  | some first =>
    exact Triple.of_run (setTypeCode_run hfirst).1
      ⟨rfl, ⟨h.owned, h.count, h.rows, h.rowsAfter, h.blocks⟩⟩

theorem failIf_blank {b : Bool} {e : Halt} (h : s.Blank base) :
    Triple (failIf b e) s (fun _ s' => b = false ∧ s'.Blank base) fun _ s' => s'.Blank base := by
  cases b with
  | true => exact Triple.throw h
  | false => exact Triple.pure ⟨rfl, h⟩

theorem attempt_blank (h : s.Blank base) :
    Triple (zoom RowsState.heapPart (Heap.attempt os) : RowsM Bool) s (fun _ s' => s'.Blank base)
      fun _ s' => s'.Blank base := by
  refine (Triple.zoom (p := RowsState.heapPart) (Heap.attempt_owned (E := fun _ _ => False) h.owned)).mono
    ?_ ?_
  · rintro _ _ ⟨h', ho, rfl⟩
    exact ⟨ho, h.count, h.rows, h.rowsAfter, h.blocks⟩
  · rintro _ _ ⟨_, hf, -⟩
    exact hf.elim

/-- Whichever way `get_rows` ends, the row set has what was allocated. -/
theorem getRows_settled {c : RowsCall} (hc : c.Cached) (h : s.Blank base)
    (hcells : c.rowsVisited lib * c.map.mColcnt < 2 ^ 32) :
    Triple (getRows lib os c.ev c.map c.map.mColcnt c.info c.disp) s
      (fun _ s' => s'.Settled base c.map.mColcnt) fun _ s' => s'.Settled base c.map.mColcnt := by
  have hblank (s' : RowsState) (h : s'.Blank base) : s'.Settled base c.map.mColcnt :=
    (h.done c.map.mColcnt false).settled
  unfold getRows
  refine Triple.bind ((setTypeCode_blank h).mono (fun _ _ h => h) fun _ => hblank) ?_
  rintro first s₁ ⟨hfirst, h₁⟩
  refine Triple.bind ((failIf_blank h₁).mono (fun _ _ h => h) fun _ => hblank) ?_
  rintro _ s₂ ⟨-, h₂⟩
  refine Triple.bind ((attempt_blank h₂).mono (fun _ _ h => h) fun _ => hblank) fun created s₃ h₃ => ?_
  refine Triple.bind ((failIf_blank h₃).mono (fun _ _ h => h) fun _ => hblank) ?_
  rintro _ s₄ ⟨-, h₄⟩
  refine Triple.bind ((failIf_blank h₄).mono (fun _ _ h => h) fun _ => hblank) ?_
  rintro _ s₅ ⟨hcount, h₅⟩
  have hup : c.update = (first == .updateBI) := by
    rw [RowsCall.update, hfirst]
    rfl
  have hcount : c.info.1 = c.map.mColcnt := by simpa using hcount
  refine Triple.bind (Q := fun _ s' => s'.Done base c.map.mColcnt (first == .updateBI)) ?_ ?_
  · split
    · exact Triple.pure (h₅.done _ _)
    · have hset : RowSetOf c.args.colCount (first == .updateBI) ([] : List Row) s₅.set :=
        ⟨h₅.count, .inl rfl, fun _ => .inl rfl⟩
      refine imageLoop_holds (hc.args hcount) c.ev.size_lt (setTypeCode_run (s := s) hfirst).2
        (h₅.between _ _) hset (Nat.le_refl 0) ?_
      rw [← hup, List.length_nil, Nat.zero_add]
      exact hcells
  · exact fun value s₆ h₆ => Triple.bind (finish_settled h₆) fun _ s₇ h₇ => Triple.pure h₇

end RplListener
