import RplListener.Lib.Requests
import RplListener.Rows.GetRows

/-!
# The decoder minds its requests

A request of the decoder that is refused ends in `ERROR_STOP`: for the block of a
value, for the text of a document, for a row of cells and for the row pointers.
-/

namespace RplListener

open Bytes Refine

variable {lib : Library} {os : Allocator} {buf : List UInt8}

def Halt.IsAccess : Halt → Prop
  | .error _ => False
  | .overread | .outOfBlock => True

-- ---------------------------------------------------------------------------
-- One value
-- ---------------------------------------------------------------------------

def CellMinds (os : Allocator) {α : Type} (x : CellM α) : Prop := Minds os CellState.heap Halt.IsAccess x

section

variable {α β : Type} {x : CellM α} {f : α → CellM β}

theorem CellMinds.pure (a : α) : CellMinds os (Pure.pure a : CellM α) := Minds.pure a

theorem CellMinds.throw (e : Halt) : CellMinds os (throw e : CellM α) := Minds.throw e

theorem CellMinds.bind (hx : CellMinds os x) (hf : ∀ a, CellMinds os (f a)) : CellMinds os (x >>= f) :=
  Minds.bind hx hf

end

theorem readBytes_minds (p n : Nat) : CellMinds os (readBytes buf p n) := by
  unfold readBytes
  split
  · exact .pure _
  · exact .throw _

theorem readUint_minds (p n : Nat) : CellMinds os (readUint buf p n) :=
  (readBytes_minds p n).bind fun _ => .pure _

theorem netFieldLengthChecked_minds (p maxLength : Nat) (desc : String) :
    CellMinds os (netFieldLengthChecked lib buf p maxLength desc) := by
  unfold netFieldLengthChecked
  split
  · exact .throw _
  · exact .throw _
  · exact .pure _

theorem parseBinary_minds (p length : Nat) (desc : String) :
    CellMinds os (parseBinary lib buf p length desc) := by
  unfold parseBinary
  split
  · exact .throw _
  · exact .throw _
  · exact .throw _
  · exact .pure _

theorem setVal_minds (p : Ptr (List UInt8)) : CellMinds os (setVal p) := Minds.modify fun _ => rfl

theorem setLen_minds (n : Int) : CellMinds os (setLen n) := Minds.modify fun _ => rfl

theorem setHex_minds (b : Bool) : CellMinds os (setHex b) := Minds.modify fun _ => rfl

theorem writeVal_minds (write : List UInt8 → Option (List UInt8)) : CellMinds os (writeVal write) := by
  refine Minds.get.bind fun s => ?_
  split
  · split
    · exact setVal_minds _
    · exact .throw _
  · exact .throw _

theorem strlenVal_minds : CellMinds os strlenVal := by
  refine Minds.get.bind fun s => ?_
  split
  · split
    · exact .pure _
    · exact .throw _
  · exact .throw _

theorem setLenStrlen_minds : CellMinds os setLenStrlen := strlenVal_minds.bind fun _ => setLen_minds _

theorem appendLoop_minds {n : Nat} {piece : Nat → CellM (List UInt8)}
    (hp : ∀ i, CellMinds os (piece i)) (i count : Nat) : CellMinds os (appendLoop n piece i count) := by
  induction count generalizing i with
  | zero => exact .pure _
  | succ count ih =>
    refine (hp i).bind fun text => CellMinds.bind ?_ fun _ => ih _
    exact strlenVal_minds.bind fun _ => writeVal_minds _

theorem mallocVal_minds (n : Nat) (desc : String) : CellMinds os (mallocVal os n desc) := by
  refine Minds.bind_checked (Q := fun p => p.isNull = false)
    (fun s => Triple.zoom_granted (fun _ _ => rfl) rfl (Heap.malloc_granted n)) ?_ ?_
  · intro p hp
    refine (setVal_minds p).bind fun _ => ?_
    rw [if_neg (by simp [hp])]
    exact .pure _
  · intro p s hp
    have hnull : p.isNull = true := by simpa using hp
    refine Triple.bind_run (a := ()) rfl ?_
    rw [if_pos hnull]
    exact Triple.throw id

theorem appendBuf_minds (acc text : List UInt8) : CellMinds os (appendBuf os acc text) := by
  refine Minds.bind_checked (Q := fun ok => ok = true)
    (fun s => Triple.zoom_granted (fun _ _ => rfl) rfl Heap.attempt_granted) ?_ ?_
  · rintro ok rfl
    exact .pure _
  · intro ok s hok
    rw [if_neg hok]
    exact Triple.throw id

theorem diffLoop_minds (fuel p lengthX : Nat) (acc : List UInt8) :
    CellMinds os (diffLoop lib os buf fuel p lengthX acc) := by
  have hend (lengthX : Nat) (acc : List UInt8) : CellMinds os (endDiff os lengthX acc) := by
    unfold endDiff
    split
    · exact appendBuf_minds _ _
    · exact .pure _
  induction fuel generalizing p lengthX acc with
  | zero =>
    unfold diffLoop
    split
    · exact .pure _
    · exact .throw _
  | succ fuel ih =>
    unfold diffLoop
    split
    · exact .pure _
    refine (readBytes_minds _ _).bind fun byte => ?_
    split
    · exact .throw _
    refine (appendBuf_minds _ _).bind fun acc => ?_
    refine (netFieldLengthChecked_minds _ _ _).bind fun r => ?_
    refine (appendBuf_minds _ _).bind fun acc => (readBytes_minds _ _).bind fun path => ?_
    refine (appendBuf_minds _ _).bind fun acc => ?_
    split
    · refine (netFieldLengthChecked_minds _ _ _).bind fun r => ?_
      refine (parseBinary_minds _ _ _).bind fun text => (appendBuf_minds _ _).bind fun acc => ?_
      exact (hend _ _).bind fun acc => ih _ _ _
    · exact (hend _ _).bind fun acc => ih _ _ _

theorem integerValue_minds (ptr width size : Nat) (isUnsigned : Bool) (name : String) :
    CellMinds os (integerValue os buf ptr width size isUnsigned name) :=
  (mallocVal_minds _ _).bind fun _ => (readBytes_minds _ _).bind fun _ =>
    (writeVal_minds _).bind fun _ => setLenStrlen_minds.bind fun _ => .pure _

theorem formattedValue_minds (ptr width size : Nat) (text : Nat → List UInt8) (name : String) :
    CellMinds os (formattedValue os buf ptr width size text name) :=
  (readUint_minds _ _).bind fun _ => (mallocVal_minds _ _).bind fun _ =>
    (writeVal_minds _).bind fun _ => setLenStrlen_minds.bind fun _ => .pure _

theorem copiedValue_minds (ptr width : Nat) (text : List UInt8 → List UInt8) (name : String) :
    CellMinds os (copiedValue os buf ptr width text name) :=
  (readBytes_minds _ _).bind fun _ => (mallocVal_minds _ _).bind fun _ =>
    (writeVal_minds _).bind fun _ => setLenStrlen_minds.bind fun _ => .pure _

theorem bitsValue_minds (ptr nbits : Nat) (name : String) :
    CellMinds os (bitsValue os buf ptr nbits name) := by
  refine (mallocVal_minds _ _).bind fun _ => CellMinds.bind ?_ fun _ => setLenStrlen_minds
  refine (writeVal_minds _).bind fun _ => appendLoop_minds (fun bitnum => ?_) _ _
  exact (readBytes_minds _ _).bind fun _ => .pure _

theorem stringValue_minds (ptr length : Nat) (name : String) :
    CellMinds os (stringValue os buf ptr length name) := by
  have hprint (width : Nat) : CellMinds os (printChars buf ptr width) :=
    (readUint_minds _ _).bind fun length =>
      (appendLoop_minds (fun _ => readBytes_minds _ _) _ _).bind fun _ => .pure _
  refine (readUint_minds _ _).bind fun _ => (mallocVal_minds _ _).bind fun _ => ?_
  refine (writeVal_minds _).bind fun _ => CellMinds.bind ?_ fun _ => (setLen_minds _).bind fun _ => .pure _
  refine (writeVal_minds _).bind fun _ => ?_
  split
  · exact hprint _
  · exact hprint _

theorem nullBlob_minds (disp : DisplayBlobs) (isHex : Bool) : CellMinds os (nullBlob disp isHex) :=
  (setLen_minds _).bind fun _ => (setVal_minds _).bind fun _ => (setHex_minds _).bind fun _ => .pure _

theorem hiddenBlob_minds : CellMinds os hiddenBlob :=
  (setLen_minds _).bind fun _ => (setVal_minds _).bind fun _ => setHex_minds _

theorem displayBlob_minds (ptr length : Nat) (disp : DisplayBlobs) (asHex : Bool) (name : String) :
    CellMinds os (displayBlob os buf ptr length disp asHex name) := by
  unfold displayBlob
  split
  · exact hiddenBlob_minds
  split
  · refine (mallocVal_minds _ _).bind fun _ => (writeVal_minds _).bind fun _ => ?_
    refine (readBytes_minds _ _).bind fun _ => (writeVal_minds _).bind fun _ => ?_
    exact (setLen_minds _).bind fun _ => setHex_minds _
  · refine (mallocVal_minds _ _).bind fun _ => CellMinds.bind ?_ fun _ =>
      setLenStrlen_minds.bind fun _ => setHex_minds _
    refine (writeVal_minds _).bind fun _ => appendLoop_minds (fun i => ?_) _ _
    exact (readBytes_minds _ _).bind fun _ => .pure _

theorem jsonText_minds (text : List UInt8) (desc : String) : CellMinds os (jsonText os text desc) :=
  (mallocVal_minds _ _).bind fun _ => (writeVal_minds _).bind fun _ =>
    (writeVal_minds _).bind fun _ => setLenStrlen_minds.bind fun _ => setHex_minds _

theorem displayJson_minds (ptr length : Nat) (isPartial : Bool) (disp : DisplayBlobs) :
    CellMinds os (displayJson lib os buf ptr length isPartial disp) := by
  unfold displayJson
  split
  · exact hiddenBlob_minds
  split
  · exact (diffLoop_minds _ _ _ _).bind fun _ => jsonText_minds _ _
  · exact (parseBinary_minds _ _ _).bind fun _ => jsonText_minds _ _

theorem logEventGetValue2_minds (ptr : Option Nat) (type metadata : Nat) (isPartial : Bool)
    (colInfo : ColInfo) (disp : DisplayBlobs) :
    CellMinds os (logEventGetValue2 lib os buf ptr type metadata isPartial colInfo disp) := by
  unfold logEventGetValue2 valueOfType
  dsimp only
  split
  case h_1 | h_2 | h_3 | h_4 | h_5 => exact integerValue_minds _ _ _ _ _
  case h_6 | h_7 | h_8 | h_11 | h_13 | h_15 | h_16 => exact copiedValue_minds _ _ _ _
  case h_9 | h_19 => exact (bitsValue_minds _ _ _).bind fun _ => .pure _
  case h_10 | h_12 | h_14 | h_17 => exact formattedValue_minds _ _ _ _ _
  case h_18 =>
    split
    · split
      · exact formattedValue_minds _ _ _ _ _
      · exact .pure _
    split
    · split
      · exact formattedValue_minds _ _ _ _ _
      · exact .pure _
    · exact .throw _
  case h_20 => exact nullBlob_minds _ _
  case h_21 =>
    split
    · exact (readUint_minds _ _).bind fun _ => (displayBlob_minds _ _ _ _ _).bind fun _ => .pure _
    · exact .throw _
  case h_22 | h_23 | h_24 => exact stringValue_minds _ _ _
  case h_25 =>
    split
    · exact .throw _
    split
    · exact nullBlob_minds _ _
    · exact (readUint_minds _ _).bind fun _ => (displayJson_minds _ _ _ _).bind fun _ => .pure _
  case h_26 =>
    split
    · exact .throw _
    split
    · exact nullBlob_minds _ _
    · exact (readUint_minds _ _).bind fun _ => (displayBlob_minds _ _ _ _ _).bind fun _ => .pure _
  case h_27 => exact .throw _
  case h_28 => exact .pure _

-- ---------------------------------------------------------------------------
-- Rows
-- ---------------------------------------------------------------------------

def RowsMind (os : Allocator) {α : Type} (x : RowsM α) : Prop := Minds os RowsState.heap Halt.IsAccess x

section

variable {α β : Type} {x : RowsM α} {f : α → RowsM β}

theorem RowsMind.pure (a : α) : RowsMind os (Pure.pure a : RowsM α) := Minds.pure a

theorem RowsMind.throw (e : Halt) : RowsMind os (throw e : RowsM α) := Minds.throw e

theorem RowsMind.bind (hx : RowsMind os x) (hf : ∀ a, RowsMind os (f a)) : RowsMind os (x >>= f) :=
  Minds.bind hx hf

theorem atEvent_minds {y : CellM α} (hy : CellMinds os y) : RowsMind os (atEvent y) := by
  intro s
  have hrun := hy ⟨s.heap, .zero⟩
  cases h : y.run ⟨s.heap, .zero⟩ with
  | ok a t => exact Triple.of_run (atEvent_run h) (hrun.ok h)
  | error e t => exact Triple.of_run_error (atEvent_run_error h) (hrun.error h)

theorem atCell_minds {r : CellRef} {y : CellM α} (hy : CellMinds os y) : RowsMind os (atCell r y) := by
  intro s
  cases hb : s.set.block r.after with
  | null | wild =>
    exact Triple.of_run_error (e := .outOfBlock) (by simp [EStateM.run, atCell, hb]) fun _ => .refl _
  | block id cells =>
    cases hc : cells[r.index]? with
    | none =>
      exact Triple.of_run_error (e := .outOfBlock) (by simp [EStateM.run, atCell, hb, hc])
        fun _ => .refl _
    | some cell =>
      have hrun := hy ⟨s.heap, cell⟩
      cases hx : y.run ⟨s.heap, cell⟩ with
      | ok a t => exact Triple.of_run (atCell_run hb hc hx) (hrun.ok hx)
      | error e t => exact Triple.of_run_error (atCell_run_error hb hc hx) (hrun.error hx)

end

theorem modifySet_minds (f : RowSet → RowSet) : RowsMind os (modifySet f) := Minds.modify fun _ => rfl

theorem bitReaderGet_minds (ptr k : Nat) : RowsMind os (bitReaderGet buf ptr k) :=
  (atEvent_minds (readBytes_minds _ _)).bind fun _ => .pure _

theorem checkFieldSize_minds (isNull : Bool) (col : Column) (value : Nat) :
    RowsMind os (checkFieldSize lib buf isNull col value) := by
  unfold checkFieldSize
  split
  · exact .pure _
  · refine (atEvent_minds (readBytes_minds _ _)).bind fun _ => ?_
    dsimp only
    split
    · exact .throw _
    · exact .pure _

theorem columnLoop_minds (a : ImageArgs) (xRow : CellRef) (cols : List Column)
    (i nullBit partialBit value : Nat) :
    RowsMind os (columnLoop lib os buf a xRow cols i nullBit partialBit value) := by
  induction cols generalizing i nullBit partialBit value with
  | nil => exact .pure _
  | cons col cols ih =>
    unfold columnLoop
    refine RowsMind.bind ?_ fun isPartial => ?_
    · unfold readPartialBit
      split
      · exact bitReaderGet_minds _ _
      · exact .pure _
    dsimp only
    split
    · exact ih _ _ _ _
    refine RowsMind.bind ?_ fun _ => ih _ _ _ _
    unfold decodeColumn
    refine (atCell_minds (setLen_minds _)).bind fun _ => (bitReaderGet_minds _ _).bind fun isNull => ?_
    refine (checkFieldSize_minds _ _ _).bind fun _ => ?_
    split
    · exact .throw _
    · exact (atCell_minds (logEventGetValue2_minds _ _ _ _ _ _)).bind fun _ => .pure _

theorem readValueOptions_minds (r : RowsArgs) (t : RowImageType) (value : Nat) :
    RowsMind os (readValueOptions lib buf r t value) := by
  unfold readValueOptions
  split
  · refine (atEvent_minds (netFieldLengthChecked_minds _ _ _)).bind fun x => ?_
    obtain ⟨valueOptions, taken⟩ := x
    dsimp only
    split <;> exact .pure _
  · exact .pure _

theorem growBlock_minds (p : Ptr (List ReplLogXValue)) (n m : Nat) : RowsMind os (growBlock os p n m) := by
  refine Minds.bind_checked (Q := fun r : Option Nat => r.isSome = true) (fun s => ?_) ?_ ?_
  · refine Triple.zoom_granted (g := id) (fun _ _ => rfl) rfl ?_
    split
    · exact Heap.request_granted
    · exact Heap.realloc_granted p
  · intro r hr
    obtain ⟨id, rfl⟩ := Option.isSome_iff_exists.mp hr
    dsimp only
    split
    · exact .pure _
    · exact .throw _
  · intro r s hr
    obtain rfl := Option.not_isSome_iff_eq_none.mp hr
    exact Triple.throw id

theorem addRowMem_minds (m : Nat) (t : RowImageType) : RowsMind os (replLogXRowsAddRowMem os m t) := by
  unfold replLogXRowsAddRowMem
  split
  case isFalse => exact .pure _
  case isTrue =>
    refine RowsMind.bind ?_ fun _ => RowsMind.bind ?_ fun _ => modifySet_minds _
    · exact Minds.get.bind fun _ => (growBlock_minds _ _ _).bind fun _ => modifySet_minds _
    · unfold addAfterMem
      split
      · exact Minds.get.bind fun _ => (growBlock_minds _ _ _).bind fun _ => modifySet_minds _
      · exact .pure _

theorem getOneRowValues_minds (r : RowsArgs) (bitmap : List Bool) (value : Nat) (t : RowImageType) :
    RowsMind os (getOneRowValues lib os buf r bitmap value t) := by
  refine (readValueOptions_minds _ _ _).bind fun x => (addRowMem_minds _ _).bind fun _ => ?_
  exact Minds.get.bind fun _ => (columnLoop_minds _ _ _ _ _ _ _).bind fun _ => .pure _

theorem imageLoop_minds (r : RowsArgs) (first : RowImageType) (cols colsAi : List Bool)
    (fuel value : Nat) : RowsMind os (imageLoop lib os buf r first cols colsAi fuel value) := by
  induction fuel generalizing value with
  | zero => exact .pure _
  | succ fuel ih =>
    unfold imageLoop
    split
    case isFalse => exact .pure _
    case isTrue =>
      refine (getOneRowValues_minds _ _ _ _).bind fun length => ?_
      split
      case isFalse => exact .pure _
      case isTrue =>
        dsimp only
        split
        case isFalse => exact ih _
        case isTrue =>
          refine (getOneRowValues_minds _ _ _ _).bind fun length => ?_
          split
          · exact ih _
          · exact .pure _

theorem finish_minds (m : Nat) : RowsMind os (replLogXRowsFinish os m) := by
  have hptr : RowsMind os (allocPointers os) := by
    refine Minds.bind_checked (Q := fun r : Option Nat => r.isSome = true)
      (fun s => Triple.zoom_granted (g := id) (fun _ _ => rfl) rfl Heap.request_granted) ?_ ?_
    · intro r hr
      obtain ⟨id, rfl⟩ := Option.isSome_iff_exists.mp hr
      exact .pure _
    · intro r s hr
      obtain rfl := Option.not_isSome_iff_eq_none.mp hr
      exact Triple.throw id
  refine hptr.bind fun id => (modifySet_minds _).bind fun _ => Minds.get.bind fun _ => ?_
  split
  · exact hptr.bind fun id => modifySet_minds _
  · exact .pure _

/-- A request that is refused ends in `ERROR_STOP`. -/
theorem getRows_minds (ev : RowsLogEvent2) (map : TableMapLogEvent) (m : Nat)
    (info : Nat × List ColInfo) (disp : DisplayBlobs) : RowsMind os (getRows lib os ev map m info disp) := by
  have hfail (b : Bool) (e : Halt) : RowsMind os (failIf b e) := by
    cases b with
    | true => exact .throw _
    | false => exact .pure _
  unfold getRows
  refine RowsMind.bind ?_ fun first => (hfail _ _).bind fun _ => ?_
  · unfold setTypeCode
    split
    · exact (modifySet_minds _).bind fun _ => .pure _
    · exact (modifySet_minds _).bind fun _ => .pure _
    · exact (modifySet_minds _).bind fun _ => .pure _
    · exact .throw _
  refine Minds.bind_checked (Q := fun ok => ok = true)
    (fun s => Triple.zoom_granted (g := id) (fun _ _ => rfl) rfl Heap.attempt_granted) ?_ ?_
  · rintro ok rfl
    refine (hfail _ _).bind fun _ => (hfail _ _).bind fun _ => ?_
    refine RowsMind.bind ?_ fun value => (finish_minds _).bind fun _ => .pure _
    split
    · exact .pure _
    · exact imageLoop_minds _ _ _ _ _ _
  · intro ok s hok
    obtain rfl := Bool.eq_false_iff.mpr hok
    exact Triple.of_run_error (run_bind_error (x := failIf true (unknownTable ev.tableId)) rfl _) id

end RplListener
