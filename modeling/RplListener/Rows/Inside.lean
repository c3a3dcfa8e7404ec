import RplListener.Rows.GetRows

/-!
# The reads nobody checks

The decoder compares one number with the end of the event, the width of a field
it is about to decode. `RowsInside` collects what it relies on besides that:
the bits and the length prefixes it reads are before the end, the cursor is when
the width is checked, an image is not empty, and the last turn ends where the
event ends. It is shown that a walk is good exactly when these hold.
-/

namespace RplListener

open Bytes Refine

-- ---------------------------------------------------------------------------
-- Walks that end well
-- ---------------------------------------------------------------------------

/-- The walk is rejected, or gives a result that meets `K`. -/
def Ends {α : Type} (x : Scan α) (K : α → Prop) : Prop :=
  match x with
  | .ok a => K a
  | .error .rejected => True
  | .error _ => False

section

variable {α β : Type} {K : β → Prop}

@[simp] theorem ends_ok {a : α} {K : α → Prop} : Ends (.ok a) K ↔ K a := Iff.rfl

@[simp] theorem ends_pure {a : α} {K : α → Prop} : Ends (pure a) K ↔ K a := Iff.rfl

@[simp] theorem ends_rejected {K : α → Prop} : Ends (.error .rejected) K ↔ True := Iff.rfl

theorem ends_bind {x : Scan α} {f : α → Scan β} :
    Ends (x >>= f) K ↔ Ends x fun a => Ends (f a) K := by
  cases x with
  | ok a => exact Iff.rfl
  | error v => cases v <;> exact Iff.rfl

theorem ends_congr {x : Scan α} {K K' : α → Prop} (h : ∀ a, x = .ok a → (K a ↔ K' a)) :
    Ends x K ↔ Ends x K' := by
  cases x with
  | ok a => exact h a rfl
  | error v => cases v <;> exact Iff.rfl

theorem ends_reject {x : Option α} {K : α → Prop} : Ends (reject x) K ↔ ∀ a, x = some a → K a := by
  cases x <;> simp [reject]

end

variable (lib : Library) (buf : List UInt8)

def Fits (p n : Nat) : Prop := n = 0 ∨ p + n ≤ buf.length

variable {lib buf}

theorem ends_takeAt {p n : Nat} {K : List UInt8 → Prop} :
    Ends (takeAt buf p n) K ↔ Fits buf p n ∧ K ((buf.drop p).take n) := by
  unfold takeAt Fits
  cases h : slice? buf p n with
  | none =>
    have hlt := slice?_none h
    have hn : n ≠ 0 := by rintro rfl; simp [slice?] at h
    simp only [Ends, false_iff, not_and]
    omega
  | some bs =>
    by_cases hn : n = 0
    · subst hn
      have : bs = [] := List.length_eq_zero_iff.mp (slice?_length h)
      simp [this]
    · obtain ⟨hin, rfl⟩ := slice?_inside h (by omega)
      simp [hin]

theorem ends_scanBit {ptr k : Nat} {K : Bool → Prop} :
    Ends (scanBit buf ptr k) K ↔ ptr + k / 8 < buf.length ∧ K (bit (buf.drop ptr) k) := by
  have hbit : bit ((buf.drop (ptr + k / 8)).take 1) (k % 8) = bit (buf.drop ptr) k := by
    have h0 : k % 8 / 8 = 0 := Nat.div_eq_of_lt (Nat.mod_lt k (by decide))
    simp only [bit, h0, Nat.mod_mod, List.getD_eq_getElem?_getD, List.getElem?_drop]
    simp
  unfold scanBit
  rw [ends_bind, ends_takeAt, ends_pure, hbit]
  unfold Fits
  exact and_congr_left fun _ => by omega

-- ---------------------------------------------------------------------------
-- The condition
-- ---------------------------------------------------------------------------

section

variable (lib buf)

def IntInside (p maxLength : Nat) (K : (v taken : Nat) → Prop) : Prop :=
  match lib.netFieldLengthChecked (buf.drop p) maxLength with
  | .failed => True
  | .outside => False
  | .value v taken => K v taken

def DocInside (p length : Nat) (K : Prop) : Prop :=
  match lib.parseBinary (buf.drop p) length with
  | .error | .throws _ => True
  | .outside => False
  | .value _ => K

/-- The diffs at `p`: the path is copied without a look at how much is left, and
what is left is counted in 64 bits. -/
def DiffsInside (K : Prop) : (fuel p lengthX : Nat) → Prop
  | 0, _, lengthX => lengthX = 0 ∧ K
  | fuel + 1, p, lengthX =>
    if lengthX = 0 then K
    else p < buf.length ∧ ∀ operation, JsonDiffOperation.ofByte (buf.getD p 0) = some operation →
      IntInside lib buf (p + 1) (sub64 lengthX 1) fun pathLength taken =>
        let p := p + 1 + taken
        let lengthX := sub64 (sub64 lengthX 1) taken
        Fits buf p pathLength ∧
        if operation ≠ .remove then
          IntInside lib buf (p + pathLength) (sub64 lengthX pathLength) fun valueLength taken =>
            let p := p + pathLength + taken
            let lengthX := sub64 (sub64 lengthX pathLength) taken
            DocInside lib buf p valueLength
              (DiffsInside K fuel (p + valueLength) (sub64 lengthX valueLength))
        else DiffsInside K fuel (p + pathLength) (sub64 lengthX pathLength)

/-- The block for a displayed payload of this length does not wrap in 32 bits. -/
def blobFits (disp : DisplayBlobs) (asHex : Bool) (length : Nat) : Bool :=
  !disp.blobsDisplay || (if asHex then length * 2 + 16 else length + 16) < 2 ^ 32

def FieldInside (disp : DisplayBlobs) (isPartial : Bool) (value : Nat) (lengthPrefix : List UInt8)
    (K : Prop) : Layout → Prop
  | .blob _ asHex => blobFits disp asHex (leNat lengthPrefix) = true ∧ K
  | .json =>
    if !disp.blobsDisplay then K
    else if isPartial then DiffsInside lib buf K buf.length (value + 4) (leNat lengthPrefix)
    else DocInside lib buf (value + 4) (leNat lengthPrefix) K
  | _ => K

/-- The field at `value`; `K` is about where the next one starts. Behind the end
the check lets every width pass, and only a field of no bytes is not read. -/
def ValueInside (a : ImageArgs) (col : Column) (i : Nat) (isPartial : Bool) (value : Nat)
    (K : Nat → Prop) : Prop :=
  let type := col.type.toNat
  let metadata := col.metadata.toNat
  let reads := lib.calcFieldSizeReads type metadata
  let lengthPrefix := (buf.drop value).take reads
  Fits buf value reads ∧
  (lib.calcFieldSize type metadata lengthPrefix ≤ sizeT ((buf.length : Int) - value) →
    ∀ l, col.layout lib (unsignedAt a.colInfo i) a.disp = some l →
      let size := l.size lengthPrefix
      (value ≤ buf.length ∨ size = 0) ∧
        FieldInside lib buf a.disp isPartial value lengthPrefix (K (value + size)) l)

def ColumnsInside (a : ImageArgs) (K : Nat → Prop) :
    List Column → (i nullBit partialBit value : Nat) → Prop
  | [], _, _, _, value => K value
  | col :: cols, i, nullBit, partialBit, value =>
    (a.readsPartial col = true → a.partialPtr + partialBit / 8 < buf.length) ∧
    let isPartial := a.readsPartial col && bit (buf.drop a.partialPtr) partialBit
    let partialBit := a.nextPartialBit col partialBit
    if bitmapIsSet a.bitmap i then
      a.nullPtr + nullBit / 8 < buf.length ∧
      if bit (buf.drop a.nullPtr) nullBit then
        (col.nullRendered a.disp).isSome →
          ColumnsInside a K cols (i + 1) (nullBit + 1) partialBit value
      else ValueInside lib buf a col i isPartial value
        (ColumnsInside a K cols (i + 1) (nullBit + 1) partialBit)
    else ColumnsInside a K cols (i + 1) nullBit partialBit value

def OptionsInside (r : RowsArgs) (partialAfter : Bool) (value : Nat) (K : Nat × Nat × Nat → Prop) :
    Prop :=
  if partialAfter then
    IntInside lib buf value (sizeT ((buf.length : Int) - value)) fun valueOptions taken =>
      let value := value + taken
      K (valueOptions, value, if partialJsonUpdates valueOptions then
        value + (r.td.jsonColumnCount + 7) / 8 else value)
  else K (0, value, value)

def ImageInside (r : RowsArgs) (bitmap : List Bool) (after : Bool) (value : Nat) (K : Nat → Prop) :
    Prop :=
  OptionsInside lib buf r (after && r.typeCode == .partialUpdateRows) value
    fun (valueOptions, partialPtr, value) =>
      let a : ImageArgs :=
        { bitmap, valueOptions, partialPtr, nullPtr := value, colInfo := r.colInfo, disp := r.disp }
      ColumnsInside lib buf a K r.td.columns 0 0 0 (value + (bitmapBitsSet bitmap + 7) / 8)

/-- An image that is empty ends the loop, so it has to be the last. -/
def RowsInside (r : RowsArgs) (update : Bool) (cols colsAi : List Bool) :
    (fuel value : Nat) → Prop
  | 0, _ => True
  | fuel + 1, value => value < buf.length →
    ImageInside lib buf r cols false value fun valueAfter =>
      valueAfter ≠ value ∧
      if update then
        ImageInside lib buf r colsAi true valueAfter fun valueNext =>
          if valueNext = valueAfter then valueAfter = buf.length
          else RowsInside r update cols colsAi fuel valueNext
      else RowsInside r update cols colsAi fuel valueAfter

end

-- ---------------------------------------------------------------------------
-- The walk is good when the condition holds
-- ---------------------------------------------------------------------------

theorem ends_scanInt {p maxLength : Nat} {K : Nat × Nat → Prop} :
    Ends (scanInt lib buf p maxLength) K ↔ IntInside lib buf p maxLength fun v taken => K (v, taken) := by
  unfold scanInt IntInside
  cases lib.netFieldLengthChecked (buf.drop p) maxLength <;> exact Iff.rfl

theorem ends_scanDoc {p length : Nat} {K : Prop} :
    Ends (scanDoc lib buf p length) (fun _ => K) ↔ DocInside lib buf p length K := by
  unfold scanDoc DocInside
  cases lib.parseBinary (buf.drop p) length <;> exact Iff.rfl

theorem ends_scanDiffs {K : Prop} {fuel p lengthX : Nat} {acc : List UInt8} :
    Ends (scanDiffs lib buf fuel p lengthX acc) (fun _ => K) ↔
      DiffsInside lib buf K fuel p lengthX := by
  induction fuel generalizing p lengthX acc with
  | zero =>
    unfold scanDiffs DiffsInside
    split
    · simp [*]
    · simp [*, Ends]
  | succ fuel ih =>
    unfold scanDiffs DiffsInside
    split
    · exact Iff.rfl
    have hhead : ((buf.drop p).take 1).headD 0 = buf.getD p 0 := by
      cases h : buf.drop p with
      | nil => simp [List.drop_eq_nil_iff.mp h]
      | cons b bs =>
        have : buf[p]? = some b := by rw [← List.head?_drop, h]; rfl
        simp [this]
    rw [ends_bind, ends_takeAt, hhead, show Fits buf p 1 ↔ p < buf.length by unfold Fits; omega]
    refine and_congr_right fun _ => ?_
    cases JsonDiffOperation.ofByte (buf.getD p 0) with
    | none => simp
    | some operation =>
      simp only [Option.some.injEq, forall_eq', ends_bind, ends_scanInt, ends_takeAt]
      cases operation <;> simp [ends_bind, ends_scanInt, ends_scanDoc, ih]

theorem ends_room {α : Type} {fits K : Prop} [Decidable fits] {a : α} :
    Ends (if fits then .ok a else .error .outOfBlock) (fun _ => K) ↔ fits ∧ K := by
  by_cases h : fits
  · rw [if_pos h, ends_ok, and_iff_right h]
  · rw [if_neg h]
    exact ⟨False.elim, fun h' => h h'.1⟩

theorem ends_scanContents {disp : DisplayBlobs} {isPartial : Bool} {value : Nat}
    {lengthPrefix : List UInt8} {l : Layout} {K : Prop} (hfits : Fits buf value (l.size lengthPrefix)) :
    Ends (scanContents lib buf disp isPartial value lengthPrefix l) (fun _ => K) ↔
      FieldInside lib buf disp isPartial value lengthPrefix K l := by
  have hpayload (width : Nat) (h : l.size lengthPrefix = width + leNat lengthPrefix) :
      Fits buf (value + width) (leNat lengthPrefix) := by
    rw [h] at hfits
    unfold Fits at hfits ⊢
    omega
  cases l with
  | fixed width text =>
    unfold scanContents FieldInside
    rw [ends_bind, ends_takeAt]
    exact and_iff_right hfits
  | chars width =>
    unfold scanContents FieldInside
    rw [ends_bind, ends_takeAt]
    exact and_iff_right (hpayload width rfl)
  | blob width asHex =>
    have hpay := hpayload width rfl
    unfold scanContents scanBlob FieldInside blobFits
    cases disp.blobsDisplay with
    | false => simp
    | true =>
      cases asHex with
      | true =>
        obtain ⟨bs, hbs⟩ : ∃ bs, slice? buf (value + width) (leNat lengthPrefix) = some bs := by
          rcases hpay with h | h
          · exact ⟨[], by rw [h]; rfl⟩
          · exact ⟨_, slice?_of_le h⟩
        simp only [Bool.not_true, Bool.false_eq_true, if_false, if_true]
        rw [scanHex, hbs, Bool.false_or, decide_eq_true_iff]
        exact ends_room
      | false =>
        simp only [Bool.not_true, Bool.false_eq_true, if_false]
        rw [scanRaw, ends_bind, ends_takeAt, and_iff_right hpay, Bool.false_or, decide_eq_true_iff]
        exact ends_room
  | json =>
    unfold scanContents scanJson FieldInside
    dsimp only
    split
    · exact Iff.rfl
    · cases isPartial with
      | false =>
        rw [if_neg Bool.false_ne_true, if_neg Bool.false_ne_true, ends_bind]
        exact ends_scanDoc
      | true =>
        rw [if_pos rfl, if_pos rfl, ends_bind]
        exact ends_scanDiffs

theorem ends_scanField {disp : DisplayBlobs} {isPartial : Bool} {value : Nat} {l : Layout}
    {K : Nat → Prop} (hlt : buf.length < 2 ^ 32) (hhead : Fits buf value l.prefixWidth)
    (hin : value ≤ buf.length → value + l.size ((buf.drop value).take l.prefixWidth) ≤ buf.length) :
    Ends (scanField lib buf disp isPartial value l) (fun c => K (value + c.2)) ↔
      (value ≤ buf.length ∨ l.size ((buf.drop value).take l.prefixWidth) = 0) ∧
        FieldInside lib buf disp isPartial value ((buf.drop value).take l.prefixWidth)
          (K (value + l.size ((buf.drop value).take l.prefixWidth))) l := by
  unfold scanField
  rw [ends_bind, ends_takeAt, and_iff_right hhead]
  generalize hp : (buf.drop value).take l.prefixWidth = lengthPrefix at hin ⊢
  simp only [ends_bind, ends_pure]
  by_cases hcursor : value ≤ buf.length ∨ l.size lengthPrefix = 0
  · rw [Layout.advance_of_lt (by omega), and_iff_right hcursor]
    refine ends_scanContents ?_
    unfold Fits
    omega
  · -- Behind the end there is no prefix, and a field of fixed width is read.
    refine iff_of_false ?_ fun h => hcursor h.1
    have hnone : l.prefixWidth = 0 := by
      unfold Fits at hhead
      omega
    have hnil : lengthPrefix = [] := by rw [← hp, hnone, List.take_zero]
    cases l with
    | fixed width text =>
      unfold scanContents
      rw [ends_bind, ends_takeAt]
      unfold Fits
      simp only [Layout.size] at hcursor
      exact fun h => by omega
    | chars | blob | json =>
      refine absurd (Or.inr ?_) hcursor
      simp only [Layout.size, hnone, hnil]
      rfl

theorem ends_scanValue {a : ImageArgs} {col : Column} {i value : Nat} {isPartial : Bool}
    {K : Nat → Prop} (hexact : lib.ExactSize col) (hlt : buf.length < 2 ^ 32) :
    Ends (scanValue lib buf a col i isPartial value) (fun c => K (value + c.2)) ↔
      ValueInside lib buf a col i isPartial value K := by
  unfold scanValue ValueInside
  simp only [ends_bind, ends_takeAt]
  refine and_congr_right fun hhead => ?_
  split
  case isTrue hgt =>
    simp only [ends_rejected, true_iff]
    intro hle
    omega
  case isFalse hle =>
    simp only [ends_bind, ends_reject, not_lt.mp hle, true_imp_iff]
    refine forall₂_congr fun l hl => ?_
    obtain ⟨hreads, hsize⟩ := hexact _ _ l hl
    rw [hreads] at hhead hle ⊢
    refine ends_scanField hlt hhead fun hcursor => ?_
    have hlen : ((buf.drop value).take l.prefixWidth).length = l.prefixWidth := by
      rcases hhead with h | h
      · rw [h, List.take_zero]
        rfl
      · exact List.length_take_of_le (by rw [List.length_drop]; omega)
    rw [hsize _ hlen, sizeT_sub hlt hcursor] at hle
    omega

theorem ends_scanPartialBit {a : ImageArgs} {col : Column} {partialBit : Nat} {K : Bool → Prop} :
    Ends (scanPartialBit buf a col partialBit) K ↔
      (a.readsPartial col = true → a.partialPtr + partialBit / 8 < buf.length) ∧
        K (a.readsPartial col && bit (buf.drop a.partialPtr) partialBit) := by
  unfold scanPartialBit
  split
  case isTrue h => simp [h, ends_scanBit]
  case isFalse h => simp [h]

theorem ends_scanColumn {a : ImageArgs} {col : Column} {i nullBit value : Nat} {isPartial : Bool}
    {K : Nat → Prop} (hexact : lib.ExactSize col) (hlt : buf.length < 2 ^ 32) :
    Ends (scanColumn lib buf a col i nullBit value isPartial) (fun c => K (value + c.2)) ↔
      a.nullPtr + nullBit / 8 < buf.length ∧
        if bit (buf.drop a.nullPtr) nullBit then (col.nullRendered a.disp).isSome → K value
        else ValueInside lib buf a col i isPartial value K := by
  unfold scanColumn
  rw [ends_bind, ends_scanBit]
  refine and_congr_right fun _ => ?_
  split
  · cases col.nullRendered a.disp <;> simp [reject]
  · exact ends_scanValue hexact hlt

theorem ends_scanColumns {a : ImageArgs} {cols : List Column} {i nullBit partialBit value : Nat}
    {K : Nat → Prop} (hexact : ∀ col ∈ cols, lib.ExactSize col) (hlt : buf.length < 2 ^ 32) :
    Ends (scanColumns lib buf a cols i nullBit partialBit value) (fun c => K c.2) ↔
      ColumnsInside lib buf a K cols i nullBit partialBit value := by
  induction cols generalizing i nullBit partialBit value with
  | nil => exact Iff.rfl
  | cons col cols ih =>
    obtain ⟨hcol, hexact⟩ := List.forall_mem_cons.mp hexact
    unfold scanColumns ColumnsInside
    rw [ends_bind, ends_scanPartialBit]
    refine and_congr_right fun _ => ?_
    simp only
    by_cases hset : bitmapIsSet a.bitmap i = true
    · rw [if_neg (by simp [hset]), if_pos hset]
      simp only [ends_bind, ends_pure, ih hexact]
      exact ends_scanColumn hcol hlt
    · rw [if_pos (by simp [hset]), if_neg hset]
      simp only [ends_bind, ends_pure, ih hexact]

theorem ends_scanOptions {r : RowsArgs} {partialAfter : Bool} {value : Nat}
    {K : Nat × Nat × Nat → Prop} :
    Ends (scanOptions lib buf r partialAfter value) K ↔
      OptionsInside lib buf r partialAfter value K := by
  unfold scanOptions OptionsInside
  split
  · simp only [ends_bind, ends_scanInt]
    unfold IntInside
    cases lib.netFieldLengthChecked (buf.drop value) (sizeT ((buf.length : Int) - value)) with
    | value v taken => simp only; split <;> exact Iff.rfl
    | _ => exact Iff.rfl
  · exact Iff.rfl

theorem ends_scanImage {r : RowsArgs} {bitmap : List Bool} {after : Bool} {value : Nat}
    {K : Nat → Prop} (hexact : ∀ col ∈ r.td.columns, lib.ExactSize col) (hlt : buf.length < 2 ^ 32) :
    Ends (scanImage lib buf r bitmap after value) (fun c => K c.2) ↔
      ImageInside lib buf r bitmap after value K := by
  unfold scanImage ImageInside
  rw [ends_bind, ends_scanOptions]
  simp only [ends_scanColumns hexact hlt]

end RplListener
