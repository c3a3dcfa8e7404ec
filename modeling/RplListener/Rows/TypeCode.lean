import RplListener.Rows.GetRows

/-!
# The kind of a decoded row set

`type_code` is set before the first image and kept by everything after it, on
any input.
-/

namespace RplListener

open Bytes Refine

variable {lib : Library} {os : Allocator}

/-- A program of the decoder that leaves `type_code` alone. -/
abbrev KeepsType {α : Type} (x : RowsM α) : Prop := Keeps (fun s => s.set.typeCode) x

theorem keepsType_of_set {α : Type} {x : RowsM α} (h : Keeps RowsState.set x) : KeepsType x :=
  fun s => (h s).mono (fun _ _ hs => congrArg RowSet.typeCode hs) fun _ _ hs => congrArg RowSet.typeCode hs

theorem keepsType_modifySet {f : RowSet → RowSet} (h : ∀ s, (f s).typeCode = s.typeCode) :
    KeepsType (modifySet f) := Keeps.modify fun s => h s.set

theorem keepsType_failIf (c : Bool) (e : Halt) : KeepsType (failIf c e) := by
  cases c with
  | true => exact Keeps.throw e
  | false => exact Keeps.pure ()

theorem RowSet.setCell_typeCode (set : RowSet) (r : CellRef) (c : ReplLogXValue) :
    (set.setCell r c).typeCode = set.typeCode := by
  unfold RowSet.setCell RowSet.setBlock
  split
  · split <;> rfl
  · rfl

theorem keepsType_atCell {α : Type} (r : CellRef) (x : CellM α) : KeepsType (atCell r x) := by
  intro s
  unfold Triple
  simp only [atCell, EStateM.run]
  cases s.set.block r.after with
  | null => rfl
  | wild => rfl
  | block id cells =>
    cases hcell : cells[r.index]? with
    | none => simp only [hcell]
    | some cell =>
      simp only [hcell]
      cases x ⟨s.heap, cell⟩ with
      | ok a t => exact RowSet.setCell_typeCode ..
      | error e t => exact RowSet.setCell_typeCode ..

-- ---------------------------------------------------------------------------
-- Memory
-- ---------------------------------------------------------------------------

theorem keepsType_growBlock (block : Ptr (List ReplLogXValue)) (rowsCount colCount : Nat) :
    KeepsType (growBlock os block rowsCount colCount) := by
  refine Keeps.bind (keepsType_of_set (Keeps.zoom fun _ _ => rfl)) fun id => ?_
  cases id with
  | none => exact Keeps.throw _
  | some id =>
    dsimp only
    split
    · exact Keeps.pure _
    · exact Keeps.throw _

theorem keepsType_addRowMem (colCount : Nat) (rowImageType : RowImageType) :
    KeepsType (replLogXRowsAddRowMem os colCount rowImageType) := by
  unfold replLogXRowsAddRowMem
  split
  case isFalse => exact Keeps.pure _
  case isTrue =>
    refine Keeps.bind ?_ fun _ => Keeps.bind ?_ fun _ => keepsType_modifySet fun _ => rfl
    · refine Keeps.bind Keeps.get fun s => ?_
      exact Keeps.bind (keepsType_growBlock _ _ _) fun _ => keepsType_modifySet fun _ => rfl
    · unfold addAfterMem
      split
      case isFalse => exact Keeps.pure _
      case isTrue =>
        refine Keeps.bind Keeps.get fun s => ?_
        exact Keeps.bind (keepsType_growBlock _ _ _) fun _ => keepsType_modifySet fun _ => rfl

theorem keepsType_allocPointers : KeepsType (allocPointers os) := by
  refine Keeps.bind (keepsType_of_set (Keeps.zoom fun _ _ => rfl)) fun id => ?_
  cases id with
  | none => exact Keeps.throw _
  | some id => exact Keeps.pure _

theorem keepsType_finish (colCount : Nat) : KeepsType (replLogXRowsFinish os colCount) := by
  refine Keeps.bind keepsType_allocPointers fun id => ?_
  refine Keeps.bind (keepsType_modifySet fun _ => rfl) fun _ => Keeps.bind Keeps.get fun s => ?_
  split
  · exact Keeps.bind keepsType_allocPointers fun _ => keepsType_modifySet fun _ => rfl
  · exact Keeps.pure _

-- ---------------------------------------------------------------------------
-- Images
-- ---------------------------------------------------------------------------

variable {buf : List UInt8}

theorem keepsType_decodeColumn (a : ImageArgs) (xRow : CellRef) (col : Column)
    (i nullBit value : Nat) (isPartial : Bool) :
    KeepsType (decodeColumn lib os buf a xRow col i nullBit value isPartial) := by
  refine Keeps.bind (keepsType_atCell _ _) fun _ => ?_
  refine Keeps.bind (keepsType_of_set (bitReaderGet_keeps _ _)) fun isNull => ?_
  refine Keeps.bind (keepsType_of_set (checkFieldSize_keeps _ _ _)) fun _ => ?_
  cases a.colInfo[i]? with
  | none => exact Keeps.throw _
  | some info => exact Keeps.bind (keepsType_atCell _ _) fun _ => Keeps.pure _

theorem keepsType_columnLoop (a : ImageArgs) (xRow : CellRef) (cols : List Column)
    (i nullBit partialBit value : Nat) :
    KeepsType (columnLoop lib os buf a xRow cols i nullBit partialBit value) := by
  induction cols generalizing i nullBit partialBit value with
  | nil => exact Keeps.pure _
  | cons col cols ih =>
    unfold columnLoop
    refine Keeps.bind (keepsType_of_set (readPartialBit_keeps _ _ _)) fun isPartial => ?_
    dsimp only
    split
    · exact ih _ _ _ _
    · exact Keeps.bind (keepsType_decodeColumn _ _ _ _ _ _ _) fun _ => ih _ _ _ _

theorem keepsType_getOneRowValues (r : RowsArgs) (bitmap : List Bool) (value : Nat)
    (rowImageType : RowImageType) :
    KeepsType (getOneRowValues lib os buf r bitmap value rowImageType) := by
  refine Keeps.bind (keepsType_of_set (readValueOptions_keeps _ _ _)) fun options => ?_
  refine Keeps.bind (keepsType_addRowMem _ _) fun _ => Keeps.bind Keeps.get fun s => ?_
  exact Keeps.bind (keepsType_columnLoop _ _ _ _ _ _ _) fun _ => Keeps.pure _

theorem keepsType_imageLoop (r : RowsArgs) (first : RowImageType) (cols colsAi : List Bool)
    (fuel value : Nat) : KeepsType (imageLoop lib os buf r first cols colsAi fuel value) := by
  induction fuel generalizing value with
  | zero => exact Keeps.pure _
  | succ fuel ih =>
    unfold imageLoop
    split
    case isFalse => exact Keeps.pure _
    case isTrue =>
      refine Keeps.bind (keepsType_getOneRowValues _ _ _ _) fun length => ?_
      split
      case isFalse => exact Keeps.pure _
      case isTrue =>
        dsimp only
        split
        case isFalse => exact ih _
        case isTrue =>
          refine Keeps.bind (keepsType_getOneRowValues _ _ _ _) fun length => ?_
          split
          · exact ih _
          · exact Keeps.pure _

theorem getRows_typeCode {ev : RowsLogEvent2} {map : TableMapLogEvent} {colCount : Nat}
    {info : Nat × List ColInfo} {disp : DisplayBlobs} {s s' : RowsState} {v : Nat}
    (hrun : (getRows lib os ev map colCount info disp).run s = .ok v s') :
    some s'.set.typeCode = ev.typeCode.firstImage.map RowImageType.typeCode := by
  cases hfirst : ev.typeCode.firstImage with
  | none =>
    rw [getRows, run_bind_error (setTypeCode_run_error hfirst)] at hrun
    cases hrun
  | some first =>
    rw [getRows, run_bind_ok (setTypeCode_run hfirst).1] at hrun
    refine congrArg some (Keeps.ok (f := fun s => s.set.typeCode) ?_ hrun)
    refine Keeps.bind (keepsType_failIf _ _) fun _ => Keeps.bind (keepsType_of_set (Keeps.zoom fun _ _ => rfl)) fun _ => ?_
    refine Keeps.bind (keepsType_failIf _ _) fun _ => Keeps.bind (keepsType_failIf _ _) fun _ => ?_
    refine Keeps.bind ?_ fun value => Keeps.bind (keepsType_finish _) fun _ => Keeps.pure _
    split
    · exact Keeps.pure _
    · exact keepsType_imageLoop _ _ _ _ _ _

end RplListener
