import RplListener.Rows.Verbatim

/-!
# The bytes behind a string

What a cell shows is its text. A string whose text is shorter than its length
is followed by zero bytes up to that length, and stays so while the other cells
are decoded and the block grows: every cell of a string column is padded, as
long as the flat index does not wrap.
-/

namespace RplListener

open Bytes Refine

variable {lib : Library} {os : Allocator} {buf : List UInt8} {s : RowsState}

-- ---------------------------------------------------------------------------
-- Padded cells
-- ---------------------------------------------------------------------------

/-- The bytes from the end of the text up to `len` are zero. -/
def ReplLogXValue.Padded (c : ReplLogXValue) : Prop :=
  ∀ id bs, c.val = .block id bs → 0 < c.len →
    ∀ k : Nat, (cstr bs).length ≤ k → (k : Int) ≤ c.len → bs[k]? = some 0

theorem ReplLogXValue.Padded.of_len {c : ReplLogXValue} (h : c.len ≤ 0) : c.Padded := by
  intro id bs _ hpos
  omega

def RowsArgs.HasChars (lib : Library) (r : RowsArgs) (k : Nat) : Prop :=
  ∃ col width, r.td.columns[k]? = some col ∧
    col.layout lib (unsignedAt r.colInfo k) r.disp = some (.chars width)

def PaddedCells (lib : Library) (r : RowsArgs) (cells : List ReplLogXValue) : Prop :=
  ∀ j c, cells[j]? = some c → r.HasChars lib (j % r.colCount) → c.Padded

/-- So they are in the blocks the row set uses, once it has a row. -/
def PaddedSet (lib : Library) (r : RowsArgs) (update : Bool) (set : RowSet) : Prop :=
  set.rowsCount ≠ 0 → ∀ after, (after = true → update = true) →
    ∀ id cells, set.block after = .block id cells → PaddedCells lib r cells

variable {r : RowsArgs} {update : Bool} {cells cells' : List ReplLogXValue}

namespace PaddedCells

theorem nil : PaddedCells lib r [] := by
  intro j c h
  simp at h

theorem set {i : Nat} {c : ReplLogXValue} (h : PaddedCells lib r cells)
    (hc : ∀ old, cells[i]? = some old → r.HasChars lib (i % r.colCount) → old.Padded → c.Padded) :
    PaddedCells lib r (cells.set i c) := by
  intro j d hd hchars
  rw [List.getElem?_set] at hd
  split at hd
  case isTrue hij =>
    subst hij
    split at hd
    case isTrue hlt =>
      cases hd
      have hold := List.getElem?_eq_getElem hlt
      exact hc _ hold hchars (h i _ hold hchars)
    case isFalse => cases hd
  case isFalse => exact h j d hd hchars

theorem append_junk (h : PaddedCells lib r cells) (n : Nat) :
    PaddedCells lib r (cells ++ List.replicate n .junk) := by
  intro j c hc hchars
  rw [List.getElem?_append] at hc
  split at hc
  · exact h j c hc hchars
  · rw [List.getElem?_replicate] at hc
    split at hc
    · cases hc
      exact .of_len le_rfl
    · cases hc

theorem zero {k count : Nat} (h : PaddedCells lib r cells)
    (hz : zeroCells cells k count = some cells') : PaddedCells lib r cells' := by
  unfold zeroCells at hz
  split at hz
  case isFalse => cases hz
  case isTrue hle =>
    cases hz
    intro j c hc hchars
    rw [List.append_assoc, List.getElem?_append, List.length_take, Nat.min_eq_left (by omega)] at hc
    split at hc
    case isTrue hj =>
      rw [List.getElem?_take_of_lt hj] at hc
      exact h j c hc hchars
    case isFalse hj =>
      rw [List.getElem?_append, List.length_replicate] at hc
      split at hc
      case isTrue hj' =>
        rw [List.getElem?_replicate, if_pos hj'] at hc
        cases hc
        exact .of_len le_rfl
      case isFalse hj' =>
        rw [List.getElem?_drop, show k + count + (j - k - count) = j by omega] at hc
        exact h j c hc hchars

theorem absent {k i count : Nat} (h : PaddedCells lib r cells) :
    PaddedCells lib r (absentCells k i count cells) := by
  induction count generalizing i cells with
  | zero => exact h
  | succ count ih =>
    refine ih fun j c hc hchars => ?_
    rw [List.getElem?_modify] at hc
    obtain ⟨d, hd, rfl⟩ := Option.map_eq_some_iff.mp hc
    split
    · exact .of_len (by simp)
    · exact h j d hd hchars

theorem grow {rowsCount colCount : Nat} (h : PaddedCells lib r cells)
    (hg : growCells cells rowsCount colCount = some cells') : PaddedCells lib r cells' := by
  unfold growCells at hg
  obtain ⟨zeroed, hz, hg⟩ := Option.bind_eq_some_iff.mp hg
  cases hg
  exact ((h.append_junk _).zero hz).absent

end PaddedCells

theorem PaddedSet.setCell {set : RowSet} {ref : CellRef} {c : ReplLogXValue}
    (h : PaddedSet lib r update set) (hc : ∀ id cells old, set.block ref.after = .block id cells →
      cells[ref.index]? = some old → r.HasChars lib (ref.index % r.colCount) → old.Padded → c.Padded) :
    PaddedSet lib r update (set.setCell ref c) := by
  unfold RowSet.setCell
  cases hb : set.block ref.after with
  | null => exact h
  | wild => exact h
  | block id cells =>
    intro hcount after hafter id' cells' hblock
    rw [RowSet.setBlock_rowsCount] at hcount
    by_cases heq : after = ref.after
    · subst heq
      rw [RowSet.block_setBlock] at hblock
      cases hblock
      exact (h hcount _ hafter id cells hb).set fun old => hc id cells old hb
    · refine h hcount after hafter id' cells' ?_
      revert hblock heq
      cases after <;> cases ref.after <;> simp [RowSet.block, RowSet.setBlock]

theorem RowSet.setCell_rowsCount (set : RowSet) (ref : CellRef) (c : ReplLogXValue) :
    (set.setCell ref c).rowsCount = set.rowsCount := by
  unfold RowSet.setCell
  split
  · exact RowSet.setBlock_rowsCount _ _ _
  · rfl

-- ---------------------------------------------------------------------------
-- One field
-- ---------------------------------------------------------------------------

theorem int32_le (n : Nat) : int32 n ≤ n := by
  unfold int32
  rw [Int.bmod_def]
  split <;> omega

theorem zeroFilled_padded {id n : Nat} {text : List UInt8} {len : Int} {isHex : Bool}
    (hz : (0 : UInt8) ∉ text) (hlt : text.length < n) (hlen : len < n) :
    ReplLogXValue.Padded { val := .block id (zeroFilled n text), len, isHex } := by
  obtain ⟨m, hm⟩ : ∃ m, n - text.length = m + 1 := ⟨n - text.length - 1, by omega⟩
  intro id' bs hval hpos k hk hle
  cases hval
  have hcstr : cstr (zeroFilled n text) = text :=
    Holds.cstr_eq ⟨hz, List.replicate m 0, by rw [zeroFilled, hm, List.replicate_succ]⟩
  rw [hcstr] at hk
  rw [zeroFilled, List.getElem?_append_right hk, List.getElem?_replicate]
  simp only at hle
  rw [if_pos (by omega)]

theorem logEventGetValue2_padded {c : CellState} {col : Column} {info : ColInfo} {value width : Nat}
    {isPartial : Bool} {disp : DisplayBlobs}
    (hl : col.layout lib info.isUnsigned disp = some (.chars width)) :
    Triple (logEventGetValue2 lib os buf (some value) col.type.toNat col.metadata.toNat isPartial info
      disp) c (fun _ c' => c'.cell.Padded) fun _ _ => True := by
  unfold Column.layout at hl
  unfold logEventGetValue2
  generalize realType col.type.toNat col.metadata.toNat = t at hl
  obtain ⟨type, length⟩ := t
  dsimp only at hl ⊢
  obtain ⟨n, name, rfl, hvalue⟩ := @valueOfType_chars lib os buf _ _ _ _ _ _ hl
  rw [hvalue]
  unfold Triple
  cases hrun : (stringValue os buf value n name).run c with
  | error e c' => trivial
  | ok size c' =>
    -- The walk over the field has read the prefix and the payload.
    have hfollows := @stringValue_follows lib os buf c value n name disp isPartial
    obtain ⟨_, hscan, -⟩ := hfollows.ok hrun
    obtain ⟨pre, hpre, hscan⟩ := bind_eq_ok.mp hscan
    obtain ⟨_, hcontents, -⟩ := bind_eq_ok.mp hscan
    obtain ⟨payload, hpay, -⟩ := bind_eq_ok.mp hcontents
    have hpay := takeAt_eq_ok hpay
    have hlen := slice?_length hpay
    rw [← hlen] at hpay
    obtain ⟨-, id, hc⟩ := stringValue_run (takeAt_eq_ok hpre) hlen.symm hpay hrun
    have hle : (payload.filter (· ≠ 0)).length ≤ payload.length := List.length_filter_le _ _
    have hshort := int32_le payload.length
    simp only [hc]
    exact zeroFilled_padded (by simp) (by omega) (by push_cast; omega)

-- ---------------------------------------------------------------------------
-- One image
-- ---------------------------------------------------------------------------

/-- A program on a cell halts before it starts, or writes what it made of the cell. -/
theorem atCell_triple {α : Type} {x : CellM α} {ref : CellRef} {Q : ReplLogXValue → CellState → Prop}
    (hx : ∀ cell, Triple x ⟨s.heap, cell⟩ (fun _ t => Q cell t) fun _ _ => True) :
    Triple (atCell ref x) s
      (fun _ s' => ∃ id cells cell t, s.set.block ref.after = .block id cells ∧
        cells[ref.index]? = some cell ∧ Q cell t ∧ s'.set = s.set.setCell ref t.cell)
      fun _ _ => True := by
  unfold Triple
  cases hrun : (atCell ref x).run s with
  | error e s' => trivial
  | ok a s' =>
    unfold EStateM.run atCell at hrun
    split at hrun
    case h_2 => cases hrun
    case h_1 id cells hb =>
      split at hrun
      case h_2 => cases hrun
      case h_1 cell hc =>
        split at hrun
        case h_2 => cases hrun
        case h_1 a' t ht =>
          cases hrun
          exact ⟨id, cells, cell, t, hb, hc, (hx cell).ok ht, rfl⟩

theorem atCell_rowsCount {α : Type} {x : CellM α} {ref : CellRef} :
    Triple (atCell ref x) s (fun _ s' => s'.set.rowsCount = s.set.rowsCount) fun _ _ => True := by
  refine (atCell_triple (Q := fun _ _ => True) fun cell => ?_).mono ?_ fun _ _ _ => trivial
  · unfold Triple
    split <;> trivial
  · rintro a s' ⟨id, cells, cell, t, -, -, -, hs⟩
    rw [hs, RowSet.setCell_rowsCount]

theorem atCell_padded {α : Type} {x : CellM α} {ref : CellRef} (h : PaddedSet lib r update s.set)
    (hx : ∀ cell, Triple x ⟨s.heap, cell⟩
      (fun _ t => r.HasChars lib (ref.index % r.colCount) → cell.Padded → t.cell.Padded)
      fun _ _ => True) :
    Triple (atCell ref x) s (fun _ s' => PaddedSet lib r update s'.set) fun _ _ => True := by
  refine (atCell_triple hx).mono ?_ fun _ _ _ => trivial
  rintro a s' ⟨id, cells, cell, t, hb, hc, ht, hs⟩
  rw [hs]
  refine h.setCell fun id' cells' old hb' hold => ?_
  cases hb.symm.trans hb'
  cases hc.symm.trans hold
  exact ht

/-- A string that is NULL leaves its cell as it was. -/
theorem logEventGetValue2_null_chars {c : CellState} {col : Column} {info : ColInfo} {width : Nat}
    {isPartial isUnsigned : Bool} {disp : DisplayBlobs}
    (hl : col.layout lib isUnsigned disp = some (.chars width)) :
    (logEventGetValue2 lib os buf none col.type.toNat col.metadata.toNat isPartial info disp).run c =
      .ok 0 c := by
  unfold Column.layout at hl
  unfold logEventGetValue2
  generalize realType col.type.toNat col.metadata.toNat = t at hl
  obtain ⟨type, length⟩ := t
  dsimp only at hl ⊢
  unfold layoutOf at hl
  unfold valueOfType
  generalize FieldType.ofCode type = fieldType at hl
  cases fieldType with
  | none => cases hl
  | some t =>
    cases t with
    | varchar | varString | string => rfl
    | enum | blob | json | geometry => simp at hl <;> split at hl <;> simp at hl
    | _ => cases hl

theorem decodeColumn_padded {a : ImageArgs} {xRow : CellRef} {col : Column} {i nullBit value : Nat}
    {isPartial : Bool} (hr : r.Sound) (hinfo : a.colInfo = r.colInfo) (hdisp : a.disp = r.disp)
    (hcol : r.td.columns[i]? = some col)
    (hrow : xRow.index % r.colCount = 0) (h : PaddedSet lib r update s.set) :
    Triple (decodeColumn lib os buf a xRow col i nullBit value isPartial) s
      (fun _ s' => PaddedSet lib r update s'.set) fun _ _ => True := by
  have hi : (xRow.index + i) % r.colCount = i := by
    obtain ⟨hlt, -⟩ := List.getElem?_eq_some_iff.mp hcol
    rw [Nat.add_mod, hrow, Nat.zero_add, Nat.mod_mod, Nat.mod_eq_of_lt (hr.colCount ▸ hlt)]
  unfold decodeColumn
  refine Triple.bind (atCell_padded h fun cell => ?_) fun _ s₁ h₁ => ?_
  · exact Triple.of_run (a := ()) rfl fun _ _ => .of_len le_rfl
  refine Triple.bind ((bitReaderGet_keeps _ _).preserves (P := PaddedSet lib r update) h₁) ?_
  intro isNull s₂ h₂
  refine Triple.bind ((checkFieldSize_keeps isNull col value).preserves (P := PaddedSet lib r update)
    h₂) fun _ s₃ h₃ => ?_
  split
  case h_1 => exact Triple.throw trivial
  case h_2 info hget =>
    refine Triple.bind (atCell_padded h₃ fun cell => ?_) fun size s₄ h₄ => Triple.pure h₄
    simp only [hi]
    refine Triple.of_imp fun ⟨col', width, hcol', hl⟩ => ?_
    obtain rfl := Option.some.inj (hcol.symm.trans hcol')
    rw [unsignedAt, ← hinfo, hget, ← hdisp] at hl
    cases isNull with
    | true => exact Triple.of_run (logEventGetValue2_null_chars hl) fun hold => hold
    | false =>
      exact (logEventGetValue2_padded hl).mono (fun _ _ hp _ => hp) fun _ _ _ => trivial

theorem decodeColumn_rowsCount {a : ImageArgs} {xRow : CellRef} {col : Column}
    {i nullBit value : Nat} {isPartial : Bool} :
    Triple (decodeColumn lib os buf a xRow col i nullBit value isPartial) s
      (fun _ s' => s'.set.rowsCount = s.set.rowsCount) fun _ _ => True := by
  have hset : ∀ {α : Type} {x : RowsM α} {s' : RowsState}, Keeps RowsState.set x →
      s'.set.rowsCount = s.set.rowsCount →
      Triple x s' (fun _ s' => s'.set.rowsCount = s.set.rowsCount) fun _ _ => True :=
    fun hkeep h => hkeep.preserves (P := fun set => set.rowsCount = s.set.rowsCount) h
  unfold decodeColumn
  refine Triple.bind atCell_rowsCount fun _ s₁ h₁ => ?_
  refine Triple.bind (hset (bitReaderGet_keeps _ _) h₁) fun isNull s₂ h₂ => ?_
  refine Triple.bind (hset (checkFieldSize_keeps _ _ _) h₂) fun _ s₃ h₃ => ?_
  split
  · exact Triple.throw trivial
  · refine Triple.bind atCell_rowsCount fun size s₄ h₄ => Triple.pure ?_
    rw [h₄, h₃]

theorem columnLoop_padded {a : ImageArgs} {xRow : CellRef} {cols : List Column}
    {i nullBit partialBit value : Nat} (hr : r.Sound)
    (hinfo : a.colInfo = r.colInfo) (hdisp : a.disp = r.disp) (hcols : r.td.columns.drop i = cols)
    (hrow : xRow.index % r.colCount = 0) (h : PaddedSet lib r update s.set) :
    Triple (columnLoop lib os buf a xRow cols i nullBit partialBit value) s
      (fun _ s' => PaddedSet lib r update s'.set) fun _ _ => True := by
  induction cols generalizing i nullBit partialBit value s with
  | nil => exact Triple.pure h
  | cons col cols ih =>
    have hcol : r.td.columns[i]? = some col := by
      rw [← Nat.add_zero i, ← List.getElem?_drop, hcols]
      rfl
    have hnext : r.td.columns.drop (i + 1) = cols := by rw [← List.drop_drop, hcols]; rfl
    unfold columnLoop
    refine Triple.bind ((readPartialBit_keeps _ _ _).preserves (P := PaddedSet lib r update) h) ?_
    intro isPartial s₁ h₁
    split
    · exact ih hnext h₁
    · exact Triple.bind (decodeColumn_padded hr hinfo hdisp hcol hrow h₁) fun size s₂ h₂ =>
        ih hnext h₂

theorem columnLoop_rowsCount {a : ImageArgs} {xRow : CellRef} {cols : List Column}
    {i nullBit partialBit value : Nat} :
    Triple (columnLoop lib os buf a xRow cols i nullBit partialBit value) s
      (fun _ s' => s'.set.rowsCount = s.set.rowsCount) fun _ _ => True := by
  induction cols generalizing i nullBit partialBit value s with
  | nil => exact Triple.pure rfl
  | cons col cols ih =>
    unfold columnLoop
    refine Triple.bind ((readPartialBit_keeps _ _ _).preserves
      (P := fun set => set.rowsCount = s.set.rowsCount) rfl) fun isPartial s₁ h₁ => ?_
    split
    · exact ih.mono (fun _ _ h => h.trans h₁) fun _ _ _ => trivial
    · refine Triple.bind decodeColumn_rowsCount fun size s₂ h₂ => ?_
      exact ih.mono (fun _ _ h => h.trans (h₂.trans h₁)) fun _ _ _ => trivial

-- ---------------------------------------------------------------------------
-- One more row
-- ---------------------------------------------------------------------------

theorem keptCells_padded {block : Ptr (List ReplLogXValue)} {rowsCount : Nat}
    (h : rowsCount ≠ 0 → ∀ id cells, block = .block id cells → PaddedCells lib r cells) :
    PaddedCells lib r (keptCells block rowsCount) := by
  unfold keptCells
  cases block with
  | null => exact .nil
  | wild => exact .nil
  | block id cells =>
    dsimp only
    split
    case isTrue => exact .nil
    case isFalse hcount => exact h hcount id cells rfl

theorem growBlock_padded {block : Ptr (List ReplLogXValue)} {rowsCount colCount : Nat} :
    Triple (growBlock os block rowsCount colCount) s
      (fun block' s' => s'.set = s.set ∧
        ((rowsCount ≠ 0 → ∀ id cells, block = .block id cells → PaddedCells lib r cells) →
          ∀ id cells, block' = .block id cells → PaddedCells lib r cells)) fun _ _ => True := by
  unfold growBlock
  refine Triple.bind (Q := fun _ s' => s'.set = s.set) ?_ fun id s' hs => ?_
  · exact (Keeps.zoom fun _ _ => rfl).preserves (f := RowsState.set) (P := (· = s.set)) rfl
  split
  · exact Triple.throw trivial
  · split
    case h_1 cells' hgrow =>
      refine Triple.pure ⟨hs, fun h id' cells hb => ?_⟩
      cases hb
      exact (keptCells_padded h).grow hgrow
    case h_2 => exact Triple.throw trivial

theorem addRowMem_padded {t : RowImageType} (ht : t ≠ .updateAI) (hu : update = (t == .updateBI)) :
    Triple (replLogXRowsAddRowMem os r.colCount t) s
      (fun _ s' => s'.set.rowsCount = uint32 (s.set.rowsCount + 1) ∧
        (PaddedSet lib r update s.set → PaddedSet lib r update s'.set)) fun _ _ => True := by
  unfold replLogXRowsAddRowMem
  rw [if_pos ht]
  refine Triple.bind (Q := fun _ s' => s'.set.rowsCount = s.set.rowsCount ∧
    s'.set.rowsAfterL2 = s.set.rowsAfterL2 ∧ (PaddedSet lib r update s.set →
    ∀ id cells, s'.set.rowsL2 = .block id cells → PaddedCells lib r cells)) ?_ ?_
  · unfold addBeforeMem
    refine Triple.get_bind (Triple.bind (@growBlock_padded lib os s r _ _ _) ?_)
    rintro block s' ⟨hs, hblock⟩
    refine Triple.of_run (modifySet_run _) ⟨by rw [hs], by rw [hs], fun h => hblock fun hcount => ?_⟩
    exact h hcount false (by simp)
  rintro - s₁ ⟨hcount₁, hafter₁, hbefore₁⟩
  refine Triple.bind (Q := fun _ s' => s'.set.rowsCount = s.set.rowsCount ∧
    s'.set.rowsL2 = s₁.set.rowsL2 ∧ (PaddedSet lib r update s.set → update = true →
    ∀ id cells, s'.set.rowsAfterL2 = .block id cells → PaddedCells lib r cells)) ?_ ?_
  · unfold addAfterMem
    split
    case isTrue htype =>
      refine Triple.get_bind (Triple.bind (@growBlock_padded lib os s₁ r _ _ _) ?_)
      rintro block s' ⟨hs, hblock⟩
      refine Triple.of_run (modifySet_run _) ⟨by rw [hs, hcount₁], by rw [hs], fun h _ => hblock ?_⟩
      rw [hafter₁, hcount₁]
      exact fun hcount => h hcount true (by simp [hu, htype])
    case isFalse htype =>
      exact Triple.pure ⟨hcount₁, rfl, fun _ hup => absurd (by simpa [hu] using hup) htype⟩
  rintro - s₂ ⟨hcount₂, hbefore₂, hafter₂⟩
  refine Triple.of_run (modifySet_run _) ⟨by rw [hcount₂], fun h _ after hup id cells hb => ?_⟩
  cases after with
  | false => exact hbefore₁ h id cells (hbefore₂ ▸ hb)
  | true => exact hafter₂ h (hup rfl) id cells hb

-- ---------------------------------------------------------------------------
-- All images
-- ---------------------------------------------------------------------------

def PaddedRows (lib : Library) (r : RowsArgs) (update : Bool) (n : Nat) (set : RowSet) : Prop :=
  set.rowsCount = n ∧ (n * r.colCount < 2 ^ 32 → PaddedSet lib r update set)

theorem lastRow_padded {n value : Nat} {a : ImageArgs} {after : Bool} (hr : r.Sound)
    (hinfo : a.colInfo = r.colInfo) (hdisp : a.disp = r.disp)
    (hlt : n + 1 < 2 ^ 32) (h : PaddedRows lib r update (n + 1) s.set) :
    Triple (columnLoop lib os buf a
      ⟨after, uint32 (uint32 (s.set.rowsCount + (2 ^ 32 - 1)) * r.colCount)⟩ r.td.columns 0 0 0 value) s
      (fun _ s' => PaddedRows lib r update (n + 1) s'.set) fun _ _ => True := by
  rw [h.1, lastIndex_eq hlt]
  refine (columnLoop_rowsCount.and (Triple.of_imp fun hcells : (n + 1) * r.colCount < 2 ^ 32 =>
    columnLoop_padded hr hinfo hdisp List.drop_zero ?_ (h.2 hcells))).mono ?_ fun _ _ _ => trivial
  · rw [uint32_of_lt (by rw [Nat.succ_mul] at hcells; omega), Nat.mul_mod_left]
  · rintro v s' ⟨hcount, hpad⟩
    exact ⟨hcount.trans h.1, hpad⟩

theorem getOneRowValues_padded {n value : Nat} {bitmap : List Bool} {t : RowImageType}
    (hr : r.Sound) (ht : t ≠ .updateAI)
    (hu : update = (t == .updateBI)) (hlt : n + 1 < 2 ^ 32) (h : PaddedRows lib r update n s.set) :
    Triple (getOneRowValues lib os buf r bitmap value t) s
      (fun _ s' => PaddedRows lib r update (n + 1) s'.set) fun _ _ => True := by
  unfold getOneRowValues
  refine Triple.bind ((readValueOptions_keeps r t value).preserves
    (P := PaddedRows lib r update n) h) fun x s₁ h₁ => ?_
  dsimp only
  refine Triple.bind (@addRowMem_padded lib os s₁ r update t ht hu) fun _ s₂ ⟨hcount, hpad⟩ => ?_
  have h₂ : PaddedRows lib r update (n + 1) s₂.set := by
    refine ⟨by rw [hcount, h₁.1, uint32_of_lt hlt], fun hcells => hpad (h₁.2 ?_)⟩
    rw [Nat.succ_mul] at hcells
    omega
  exact Triple.get_bind (Triple.bind (lastRow_padded hr rfl rfl hlt h₂)
    fun v s₃ h₃ => Triple.pure h₃)

theorem getOneRowValues_after_padded {n value : Nat} {bitmap : List Bool} (hr : r.Sound)
    (hlt : n + 1 < 2 ^ 32) (h : PaddedRows lib r update (n + 1) s.set) :
    Triple (getOneRowValues lib os buf r bitmap value .updateAI) s
      (fun _ s' => PaddedRows lib r update (n + 1) s'.set) fun _ _ => True := by
  unfold getOneRowValues
  refine Triple.bind ((readValueOptions_keeps r _ value).preserves
    (P := PaddedRows lib r update (n + 1)) h) fun x s₁ h₁ => ?_
  dsimp only
  refine Triple.bind_run (a := ()) rfl (Triple.get_bind (Triple.bind
    (lastRow_padded hr rfl rfl hlt h₁) fun v s₂ h₂ => Triple.pure h₂))

theorem imageLoop_padded {n fuel value : Nat} {first : RowImageType} {cols colsAi : List Bool}
    (hr : r.Sound) (hbuf : buf.length < 2 ^ 32) (ht : first ≠ .updateAI)
    (hu : update = (first == .updateBI)) (hlt : n ≤ value) (h : PaddedRows lib r update n s.set) :
    Triple (imageLoop lib os buf r first cols colsAi fuel value) s
      (fun _ s' => ∃ n', PaddedRows lib r update n' s'.set) fun _ _ => True := by
  induction fuel generalizing n value s with
  | zero => exact Triple.pure ⟨n, h⟩
  | succ fuel ih =>
    unfold imageLoop
    split
    case isFalse => exact Triple.pure ⟨n, h⟩
    case isTrue hv =>
      refine Triple.bind (getOneRowValues_padded hr ht hu (by omega) h) fun length s₁ h₁ => ?_
      split
      case isFalse => exact Triple.pure ⟨_, h₁⟩
      case isTrue =>
        dsimp only
        split
        · refine Triple.bind (getOneRowValues_after_padded hr (by omega) h₁) ?_
          intro length' s₂ h₂
          split
          · exact ih (by omega) h₂
          · exact Triple.pure ⟨_, h₂⟩
        · exact ih (by omega) h₁

theorem allocPointers_keeps : Keeps RowsState.set (allocPointers os) := by
  unfold allocPointers
  refine Keeps.bind (Keeps.zoom fun _ _ => rfl) fun id => ?_
  split
  · exact Keeps.pure _
  · exact Keeps.throw _

theorem finish_padded {n : Nat} (h : PaddedRows lib r update n s.set) :
    Triple (replLogXRowsFinish os r.colCount) s
      (fun _ s' => PaddedRows lib r update n s'.set) fun _ _ => True := by
  unfold replLogXRowsFinish
  refine Triple.bind (allocPointers_keeps.preserves (P := PaddedRows lib r update n) h) fun id s₁ h₁ => ?_
  refine Triple.bind (Q := fun _ s₂ => PaddedRows lib r update n s₂.set)
    (Triple.of_run (modifySet_run _) h₁) fun _ s₂ h₂ => Triple.get_bind ?_
  split
  · exact Triple.bind (allocPointers_keeps.preserves (P := PaddedRows lib r update n) h₂)
      fun id s₃ h₃ => Triple.of_run (modifySet_run _) h₃
  · exact Triple.pure h₂

theorem failIf_triple (b : Bool) (e : Halt) :
    Triple (failIf b e) s (fun _ s' => b = false ∧ s' = s) fun _ _ => True := by
  cases b with
  | true => exact Triple.throw trivial
  | false => exact Triple.pure ⟨rfl, rfl⟩

/-- A call on a fresh row set pads its strings. -/
theorem getRows_padded {c : RowsCall} (hc : c.Cached) (hs : s.set.rowsCount = 0) :
    Triple (getRows lib os c.ev c.map c.map.mColcnt c.info c.disp) s
      (fun _ s' => ∃ n, PaddedRows lib c.args c.update n s'.set) fun _ _ => True := by
  unfold getRows
  cases hfirst : c.ev.typeCode.firstImage with
  | none => exact Triple.of_run_error (run_bind_error (setTypeCode_run_error hfirst) _) trivial
  | some first =>
    obtain ⟨htype, ht⟩ := setTypeCode_run (s := s) hfirst
    have hu : c.update = (first == .updateBI) := by rw [RowsCall.update, hfirst]; rfl
    refine Triple.bind_run htype ?_
    refine Triple.bind (failIf_triple _ _) ?_
    rintro _ s₁ ⟨-, hs₁⟩
    refine Triple.bind (Q := fun _ s₂ => s₂.set = s₁.set)
      ((Keeps.zoom fun _ _ => rfl).preserves (f := RowsState.set) (P := (· = s₁.set)) rfl) ?_
    intro created s₂ hs₂
    refine Triple.bind (failIf_triple _ _) ?_
    rintro _ s₃ ⟨-, hs₃⟩
    refine Triple.bind (failIf_triple _ _) ?_
    rintro _ s₄ ⟨hcount, hs₄⟩
    have hr := hc.args (by simpa using hcount)
    have h₄ : PaddedRows lib c.args c.update 0 s₄.set := by
      rw [hs₄, hs₃, hs₂, hs₁]
      exact ⟨hs, fun _ hne => absurd hs hne⟩
    have hloop : Triple (imageLoop lib os c.ev.mRowsBuf c.args first c.ev.mCols c.ev.mColsAi
        c.ev.mRowsBuf.length 0) s₄ _ _ :=
      imageLoop_padded hr c.ev.size_lt ht hu (Nat.zero_le 0) h₄
    refine Triple.bind (Q := fun _ s₅ => ∃ n, PaddedRows lib c.args c.update n s₅.set) ?_ ?_
    · split
      · exact Triple.pure ⟨0, h₄⟩
      · exact hloop
    · rintro value s₅ ⟨n, h₅⟩
      have hfinish : Triple (replLogXRowsFinish os c.args.colCount) s₅ _ _ := finish_padded h₅
      exact Triple.bind hfinish fun _ s₆ h₆ => Triple.pure ⟨n, h₆⟩

end RplListener
