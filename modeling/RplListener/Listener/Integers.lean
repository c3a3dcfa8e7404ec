import RplListener.Lib.Numerals
import RplListener.Listener.FillFollows
import RplListener.Listener.Visits
import RplListener.Rows.CellStates
import RplListener.Rows.Indices
import RplListener.Rows.Readback

/-!
# The sign of an integer

The signedness vector of a table map has a bit for each numeric column. The
cache brings it to the columns, and an integer is read with the bit of its
column. Every cell has the numeral of its value, while no two columns share a
cell.
-/

namespace RplListener

open Bytes Refine

variable {lib : Library} {os : Allocator}
variable {ev : RowsLogEvent2} {map : TableMapLogEvent} {disp : DisplayBlobs}

-- ---------------------------------------------------------------------------
-- The bit of a column
-- ---------------------------------------------------------------------------

def TableMapLogEvent.signedness (lib : Library) (map : TableMapLogEvent) : List Bool :=
  match lib.optionalMetadata map.mOptionalMetadata with
  | .fields _ signedness => signedness
  | _ => []

def EncodedRow.image (e : EncodedRow) (after : Bool) : Option Image :=
  if after then e.after else some e.first

theorem SlotsFit.value {rule : FieldRule} {f : ImageFormat} {img : Image} {col : Column}
    {cols : List Column} {i nullBit partialBit : Nat} {slots : List Slot} {rest : List UInt8}
    (h : SlotsFit lib rule f img (col :: cols) i nullBit partialBit slots rest)
    (hset : bitmapIsSet f.bitmap i = true) (hnull : bit img.nullBits nullBit = false) :
    ∃ bs doc more isPartial partialBit' rest', slots = .value bs doc :: more ∧
      rule (col.layout lib (unsignedAt f.colInfo i) f.disp) isPartial bs doc rest' ∧
      SlotsFit lib rule f img cols (i + 1) (nullBit + 1) partialBit' more rest := by
  cases slots with
  | nil => exact h.elim
  | cons slot slots =>
    simp only [SlotsFit, if_pos hset] at h
    cases slot with
    | absent => exact h.1.elim
    | null =>
      rw [h.1] at hnull
      cases hnull
    | value bs doc => exact ⟨bs, doc, slots, _, _, _, rfl, h.1.2, h.2⟩

end RplListener
