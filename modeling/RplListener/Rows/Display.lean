import RplListener.Lib.TwoRuns
import RplListener.Rows.CellStates

/-!
# Two display settings

The same event decoded under two display settings. Only the cells of blob
columns depend on the settings, and whatever is decoded can be decoded with the
blobs hidden.
-/

namespace RplListener

open Bytes Refine

variable {lib : Library} {buf bs : List UInt8} {col : Column} {disp disp' : DisplayBlobs}
variable {isUnsigned isPartial : Bool} {l l' : Layout} {i nullBit partialBit value : Nat}

-- ---------------------------------------------------------------------------
-- Fields
-- ---------------------------------------------------------------------------

def Layout.raw : Layout → Layout
  | .blob width _ => .blob width false
  | l => l

theorem Layout.raw_prefixWidth (l : Layout) : l.raw.prefixWidth = l.prefixWidth := by cases l <;> rfl

theorem Layout.raw_advance (l : Layout) (lengthPrefix : List UInt8) :
    l.raw.advance lengthPrefix = l.advance lengthPrefix := by cases l <;> rfl

theorem Layout.eq_of_raw (h : ¬ l.IsBlob) (hraw : l'.raw = l.raw) : l' = l := by
  cases l with
  | blob width asHex => exact absurd (.blob width asHex) h
  | json => exact absurd .json h
  | fixed | chars =>
    cases l' <;> cases hraw
    rfl

theorem Column.layout_raw (lib : Library) (isUnsigned : Bool) (disp disp' : DisplayBlobs)
    (col : Column) : (col.layout lib isUnsigned disp).map Layout.raw =
      (col.layout lib isUnsigned disp').map Layout.raw := by
  unfold Column.layout
  generalize realType col.type.toNat col.metadata.toNat = t
  obtain ⟨type, length⟩ := t
  dsimp only
  unfold layoutOf
  cases FieldType.ofCode type with
  | none => rfl
  | some t =>
    cases t with
    | blob | geometry =>
      dsimp only
      split <;> rfl
    | _ => rfl

theorem Column.layout_eq (h : col.isBlob = false) :
    col.layout lib isUnsigned disp = col.layout lib isUnsigned disp' := by
  unfold Column.isBlob at h
  unfold Column.layout
  generalize realType col.type.toNat col.metadata.toNat = t at h ⊢
  obtain ⟨type, length⟩ := t
  dsimp only at h ⊢
  unfold layoutOf
  generalize FieldType.ofCode type = fieldType at h ⊢
  cases fieldType with
  | none => rfl
  | some t =>
    cases t with
    | blob | geometry => cases h
    | _ => rfl

theorem Column.nullRendered_isSome_eq (disp disp' : DisplayBlobs) (col : Column) :
    (col.nullRendered disp).isSome = (col.nullRendered disp').isSome := by
  unfold Column.nullRendered RplListener.nullRendered
  cases FieldType.ofCode (realType col.type.toNat col.metadata.toNat).1 with
  | none => rfl
  | some t =>
    cases t with
    | json | geometry =>
      dsimp only
      split <;> rfl
    | _ => rfl

theorem Column.nullRendered_null {r : Rendered} (hcol : col.isBlob = false)
    (h : col.nullRendered disp = some r) : r = .null := by
  rcases Column.nullRendered_cases h with rfl | ⟨hblob, -⟩
  · rfl
  · rw [hcol] at hblob
    cases hblob

variable {lengthPrefix : List UInt8}

theorem scanContents_hidden (h : disp.blobsDisplay = false) (hblob : l.IsBlob) :
    ∃ r, scanContents lib buf disp isPartial value lengthPrefix l = .ok r := by
  cases hblob with
  | blob width asHex => exact ⟨_, by rw [scanContents, scanBlob, h]; rfl⟩
  | json => exact ⟨_, by rw [scanContents, scanJson, h]; rfl⟩

theorem scanContents_plain (h : ¬ l.IsBlob) (disp disp' : DisplayBlobs) :
    scanContents lib buf disp isPartial value lengthPrefix l =
      scanContents lib buf disp' isPartial value lengthPrefix l := by
  cases l with
  | blob width asHex => exact absurd (.blob width asHex) h
  | json => exact absurd .json h
  | fixed | chars => rfl

-- ---------------------------------------------------------------------------
-- Images
-- ---------------------------------------------------------------------------

/-- A text is as long as its length says, or has no zero byte and lies in a
column of strings. -/
def Rendered.Measured (isChars : Prop) : Rendered → Prop
  | .text bs len _ => len ≤ bs.length ∨ (0 : UInt8) ∉ bs ∧ isChars
  | _ => True

theorem Rendered.measured_ofText (isChars : Prop) (bs : List UInt8) (isHex : Option Bool) :
    (Rendered.ofText bs isHex).Measured isChars := .inl (int32_le _)

theorem scanContents_measured {r : Rendered} (h : ¬ l.IsBlob)
    (hr : scanContents lib buf disp isPartial value lengthPrefix l = .ok r) :
    r.Measured (∃ width, l = .chars width) := by
  cases l with
  | fixed width text =>
    obtain ⟨bs, -, hr⟩ := bind_eq_ok.mp hr
    cases hr
    exact Rendered.measured_ofText _ _ _
  | chars width =>
    obtain ⟨bs, -, hr⟩ := bind_eq_ok.mp hr
    cases hr
    exact .inr ⟨by simp, width, rfl⟩
  | blob width asHex => exact absurd (.blob width asHex) h
  | json => exact absurd .json h

theorem scanField_agree (hraw : l'.raw = l.raw) :
    Agree (disp'.blobsDisplay = false)
      (fun x x' => (¬ l.IsBlob → x.1 = x'.1 ∧ x.1.Measured (∃ width, l = .chars width)) ∧ x.2 = x'.2)
      (scanField lib buf disp isPartial value l) (scanField lib buf disp' isPartial value l') := by
  unfold scanField
  rw [← l'.raw_prefixWidth, hraw, l.raw_prefixWidth]
  refine Agree.bind_same _ fun lengthPrefix => ?_
  rw [← l'.raw_advance, hraw, l.raw_advance]
  refine Agree.bind (S := fun r r' => ¬ l.IsBlob → r = r' ∧ r.Measured (∃ width, l = .chars width)) ?_
    fun r r' h => .ok ⟨h, rfl⟩
  by_cases hblob : l.IsBlob
  · constructor
    · intro r _ hhide
      refine scanContents_hidden hhide ?_
      cases hblob with
      | blob width asHex =>
        cases l' with
        | blob width' asHex' => exact .blob width' asHex'
        | json | fixed | chars => cases hraw
      | json =>
        cases l' <;> cases hraw
        exact .json
    · exact fun r r' _ _ hnot => absurd hblob hnot
  · obtain rfl := Layout.eq_of_raw hblob hraw
    constructor
    · intro r hr _
      exact ⟨r, (scanContents_plain hblob disp' disp).trans hr⟩
    · intro r r' hr hr' _
      obtain rfl : r = r' := Except.ok.inj (hr.symm.trans ((scanContents_plain hblob disp disp').trans hr'))
      exact ⟨rfl, scanContents_measured hblob hr⟩

variable {a : ImageArgs} {infos : List ColInfo}

/-- Column `i` under two settings, the first of which is `disp`. -/
def AlikeCell (lib : Library) (infos : List ColInfo) (disp : DisplayBlobs) (col : Column) (i : Nat)
    (x x' : Option Rendered) : Prop :=
  col.isBlob = false → x = x' ∧ ∀ y, x = some y →
    y.Measured (∃ width, col.layout lib (unsignedAt infos i) disp = some (.chars width))

inductive AlikeCells (lib : Library) (infos : List ColInfo) (disp : DisplayBlobs) :
    List Column → Nat → (xs xs' : List (Option Rendered)) → Prop where
  | nil {i : Nat} : AlikeCells lib infos disp [] i [] []
  | cons {col : Column} {cols : List Column} {i : Nat} {x x' : Option Rendered}
      {xs xs' : List (Option Rendered)} (head : AlikeCell lib infos disp col i x x')
      (tail : AlikeCells lib infos disp cols (i + 1) xs xs') :
      AlikeCells lib infos disp (col :: cols) i (x :: xs) (x' :: xs')

theorem AlikeCells.get {cols : List Column} {xs xs' : List (Option Rendered)} {j : Nat}
    (h : AlikeCells lib infos disp cols i xs xs') (hcol : cols[j]? = some col) :
    ∃ x x', xs[j]? = some x ∧ xs'[j]? = some x' ∧ AlikeCell lib infos disp col (i + j) x x' := by
  induction h generalizing j with
  | nil => simp at hcol
  | cons head tail ih =>
    cases j with
    | zero =>
      cases hcol
      exact ⟨_, _, rfl, rfl, head⟩
    | succ j =>
      obtain ⟨x, x', hx, hx', h⟩ := ih hcol
      rw [Nat.succ_add_eq_add_succ] at h
      exact ⟨x, x', hx, hx', h⟩

theorem AlikeCell.none (col : Column) (i : Nat) : AlikeCell lib infos disp col i none none :=
  fun _ => ⟨rfl, fun _ h => by cases h⟩

theorem AlikeCells.absent (cols : List Column) (i : Nat) : AlikeCells lib infos disp cols i
    (List.replicate cols.length none) (List.replicate cols.length none) := by
  induction cols generalizing i with
  | nil => exact .nil
  | cons col cols ih => exact .cons (.none col i) (ih (i + 1))

/-- The field of a column is as wide under both settings. -/
theorem scanValue_agree (a : ImageArgs) (disp' : DisplayBlobs) (col : Column) (i : Nat)
    (isPartial : Bool) (value : Nat) :
    Agree (disp'.blobsDisplay = false)
      (fun x x' => AlikeCell lib a.colInfo a.disp col i (some x.1) (some x'.1) ∧ x.2 = x'.2)
      (scanValue lib buf a col i isPartial value)
      (scanValue lib buf { a with disp := disp' } col i isPartial value) := by
  unfold scanValue
  refine Agree.bind_same _ fun lengthPrefix => Agree.ite (fun _ => .error _) fun _ => ?_
  have hraw := Column.layout_raw lib (unsignedAt a.colInfo i) a.disp disp' col
  cases hl : col.layout lib (unsignedAt a.colInfo i) a.disp with
  | none => exact .error _
  | some l =>
    rw [hl] at hraw
    obtain ⟨l', hl', hraw⟩ := Option.map_eq_some_iff.mp hraw.symm
    rw [hl']
    refine (@scanField_agree lib buf a.disp disp' isPartial l l' value hraw).mono ?_
    rintro x x' ⟨hsame, hwidth⟩
    refine ⟨fun hcol => ?_, hwidth⟩
    have hnot : ¬ l.IsBlob := fun h => by
      rw [Column.isBlob_of_layout hl h] at hcol
      cases hcol
    obtain ⟨heq, hmeasured⟩ := hsame hnot
    refine ⟨congrArg some heq, ?_⟩
    rintro _ ⟨⟩
    rw [hl]
    simpa using hmeasured

theorem scanColumn_agree (a : ImageArgs) (disp' : DisplayBlobs) (col : Column)
    (i nullBit value : Nat) (isPartial : Bool) :
    Agree (disp'.blobsDisplay = false)
      (fun x x' => AlikeCell lib a.colInfo a.disp col i (some x.1) (some x'.1) ∧ x.2 = x'.2)
      (scanColumn lib buf a col i nullBit value isPartial)
      (scanColumn lib buf { a with disp := disp' } col i nullBit value isPartial) := by
  unfold scanColumn
  refine Agree.bind_same _ fun isNull => Agree.ite (fun _ => ?_) fun _ =>
    scanValue_agree a disp' col i isPartial value
  have hsome := Column.nullRendered_isSome_eq a.disp disp' col
  dsimp only
  cases hr : col.nullRendered a.disp with
  | none => exact .error _
  | some r =>
    rw [hr] at hsome
    obtain ⟨r', hr'⟩ := Option.isSome_iff_exists.mp hsome.symm
    rw [hr']
    refine .ok ⟨fun hcol => ?_, rfl⟩
    rw [Column.nullRendered_null hcol hr, Column.nullRendered_null hcol hr']
    refine ⟨rfl, ?_⟩
    rintro _ ⟨⟩
    trivial

theorem scanColumns_agree (a : ImageArgs) (disp' : DisplayBlobs) (cols : List Column)
    (i nullBit partialBit value : Nat) :
    Agree (disp'.blobsDisplay = false)
      (fun x x' => AlikeCells lib a.colInfo a.disp cols i x.1 x'.1 ∧ x.2 = x'.2)
      (scanColumns lib buf a cols i nullBit partialBit value)
      (scanColumns lib buf { a with disp := disp' } cols i nullBit partialBit value) := by
  induction cols generalizing i nullBit partialBit value with
  | nil => exact .ok ⟨.nil, rfl⟩
  | cons col cols ih =>
    unfold scanColumns
    refine Agree.bind_same _ fun isPartial => Agree.ite (fun _ => ?_) fun _ => ?_
    · refine (ih ..).bind ?_
      rintro ⟨xs, v⟩ ⟨xs', v'⟩ ⟨h, rfl⟩
      exact .ok ⟨.cons (.none col i) h, rfl⟩
    · refine (scanColumn_agree a disp' col i nullBit value isPartial).bind ?_
      rintro ⟨x, width⟩ ⟨x', width'⟩ ⟨hx, rfl⟩
      refine (ih ..).bind ?_
      rintro ⟨xs, v⟩ ⟨xs', v'⟩ ⟨h, rfl⟩
      exact .ok ⟨.cons hx h, rfl⟩

-- ---------------------------------------------------------------------------
-- Rows
-- ---------------------------------------------------------------------------

theorem scanImage_agree (r : RowsArgs) (disp' : DisplayBlobs) (bitmap : List Bool) (after : Bool)
    (value : Nat) :
    Agree (disp'.blobsDisplay = false)
      (fun x x' => AlikeCells lib r.colInfo r.disp r.td.columns 0 x.1 x'.1 ∧ x.2 = x'.2)
      (scanImage lib buf r bitmap after value)
      (scanImage lib buf { r with disp := disp' } bitmap after value) := by
  unfold scanImage
  refine Agree.bind_same _ fun x => ?_
  obtain ⟨valueOptions, partialPtr, value⟩ := x
  exact scanColumns_agree ⟨bitmap, valueOptions, partialPtr, value, r.colInfo, r.disp⟩ disp'
    r.td.columns 0 0 0 _

structure AlikeRow (lib : Library) (r : RowsArgs) (row row' : Row) : Prop where
  before : AlikeCells lib r.colInfo r.disp r.td.columns 0 row.before row'.before
  after : AlikeCells lib r.colInfo r.disp r.td.columns 0 row.after row'.after

theorem scanRows_agree (r : RowsArgs) (disp' : DisplayBlobs) (update : Bool)
    (cols colsAi : List Bool) (fuel value : Nat) :
    Agree (disp'.blobsDisplay = false)
      (fun x x' => List.Forall₂ (AlikeRow lib r) x.1 x'.1 ∧ x.2 = x'.2)
      (scanRows lib buf r update cols colsAi fuel value)
      (scanRows lib buf { r with disp := disp' } update cols colsAi fuel value) := by
  induction fuel generalizing value with
  | zero => exact .ok ⟨.nil, rfl⟩
  | succ fuel ih =>
    have habsent := @AlikeCells.absent lib r.disp r.colInfo r.td.columns 0
    unfold scanRows
    refine Agree.ite (fun _ => ?_) fun _ => .ok ⟨.nil, rfl⟩
    refine (scanImage_agree r disp' cols false value).bind ?_
    rintro ⟨before, v⟩ ⟨before', v'⟩ ⟨hbefore, rfl⟩
    refine Agree.ite (fun _ => .ok ⟨.cons ⟨hbefore, habsent⟩ .nil, rfl⟩) fun _ => ?_
    refine Agree.ite (fun _ => ?_) fun _ => ?_
    · refine (scanImage_agree r disp' colsAi true v).bind ?_
      rintro ⟨after, v₁⟩ ⟨after', v₁'⟩ ⟨hafter, rfl⟩
      refine Agree.ite (fun _ => .ok ⟨.cons ⟨hbefore, hafter⟩ .nil, rfl⟩) fun _ => ?_
      refine (ih v₁).bind ?_
      rintro ⟨rows, stop⟩ ⟨rows', stop'⟩ ⟨hrows, rfl⟩
      exact .ok ⟨.cons ⟨hbefore, hafter⟩ hrows, rfl⟩
    · refine (ih v).bind ?_
      rintro ⟨rows, stop⟩ ⟨rows', stop'⟩ ⟨hrows, rfl⟩
      exact .ok ⟨.cons ⟨hbefore, habsent⟩ hrows, rfl⟩

theorem scanEvent_agree (c : RowsCall) (disp' : DisplayBlobs) :
    Agree (disp'.blobsDisplay = false)
      (fun x x' => List.Forall₂ (AlikeRow lib c.args) x.1 x'.1 ∧ x.2 = x'.2)
      (scanEvent lib c) (scanEvent lib { c with disp := disp' }) :=
  Agree.ite (fun _ => scanRows_agree ..) fun _ => .error _

-- ---------------------------------------------------------------------------
-- Cells
-- ---------------------------------------------------------------------------

/-- The same cell, but for the name of its block and what lies behind `len`. -/
def ReplLogXValue.Same (c c' : ReplLogXValue) : Prop :=
  c.len = c'.len ∧ c.isHex = c'.isHex ∧ match c.val, c'.val with
    | .block _ bs, .block _ bs' =>
      cstr bs = cstr bs' ∧ ∀ k : Nat, (k : Int) ≤ c.len → bs[k]? = bs'[k]?
    | .null, .null => True
    | _, _ => False

theorem ReplLogXValue.Same.symm {c c' : ReplLogXValue} (h : c.Same c') : c'.Same c := by
  obtain ⟨hlen, hhex, hval⟩ := h
  refine ⟨hlen.symm, hhex.symm, ?_⟩
  cases hc : c.val <;> cases hc' : c'.val <;> rw [hc, hc'] at hval
  case block.block =>
    obtain ⟨htext, hbytes⟩ := hval
    exact ⟨htext.symm, fun k hk => (hbytes k (by rwa [hlen])).symm⟩
  case null.null => trivial
  all_goals exact hval.elim

theorem ReplLogXValue.Same.trans {c c' c'' : ReplLogXValue} (h : c.Same c') (h' : c'.Same c'') :
    c.Same c'' := by
  obtain ⟨hlen, hhex, hval⟩ := h
  obtain ⟨hlen', hhex', hval'⟩ := h'
  refine ⟨hlen.trans hlen', hhex.trans hhex', ?_⟩
  cases hc : c.val <;> cases hc' : c'.val <;> rw [hc, hc'] at hval <;>
    cases hc'' : c''.val <;> rw [hc', hc''] at hval'
  case block.block.block =>
    obtain ⟨htext, hbytes⟩ := hval
    obtain ⟨htext', hbytes'⟩ := hval'
    exact ⟨htext.trans htext', fun k hk => (hbytes k hk).trans (hbytes' k (by rwa [← hlen]))⟩
  case null.null.null => trivial
  all_goals first | exact hval.elim | exact hval'.elim

theorem cstr_text (text tail : List UInt8) : cstr (text ++ 0 :: tail) = cstr text := by
  induction text with
  | nil => rfl
  | cons b text ih =>
    unfold cstr at ih ⊢
    rw [List.cons_append, List.takeWhile_cons, List.takeWhile_cons, ih]

theorem padded_same {text tail tail' : List UInt8} {id id' : Nat} {len : Int} {isHex : Bool}
    (hz : (0 : UInt8) ∉ text)
    (h : ReplLogXValue.Padded { val := .block id (text ++ 0 :: tail), len, isHex })
    (h' : ReplLogXValue.Padded { val := .block id' (text ++ 0 :: tail'), len, isHex }) (k : Nat)
    (hk : (k : Int) ≤ len) : (text ++ 0 :: tail)[k]? = (text ++ 0 :: tail')[k]? := by
  by_cases hlt : k < text.length
  · rw [List.getElem?_append_left hlt, List.getElem?_append_left hlt]
  · by_cases hpos : 0 < len
    · rw [h id _ rfl hpos k (by rw [cstr_text, cstr_of_ne_zero hz]; omega) hk,
        h' id' _ rfl hpos k (by rw [cstr_text, cstr_of_ne_zero hz]; omega) hk]
    · -- There is no text, and its terminator is all that is compared.
      obtain rfl : k = 0 := by omega
      rw [List.eq_nil_of_length_eq_zero (by omega : text.length = 0)]
      rfl

theorem ReplLogXValue.Shows.same {c c' : ReplLogXValue} {x : Option Rendered} {isChars : Prop}
    (h : c.Shows x) (h' : c'.Shows x) (hx : ∀ y, x = some y → y.Measured isChars)
    (hpad : isChars → c.Padded ∧ c'.Padded) : c.Same c' := by
  cases x with
  | none =>
    obtain rfl : c = _ := h
    obtain rfl : c' = _ := h'
    exact ⟨rfl, rfl, trivial⟩
  | some r =>
    cases r with
    | null =>
      obtain rfl : c = _ := h
      obtain rfl : c' = _ := h'
      exact ⟨rfl, rfl, trivial⟩
    | hidden len isHex =>
      obtain rfl : c = _ := h
      obtain rfl : c' = _ := h'
      exact ⟨rfl, rfl, trivial⟩
    | text bs len isHex =>
      obtain ⟨id, tail, rfl⟩ := h
      obtain ⟨id', tail', rfl⟩ := h'
      refine ⟨rfl, rfl, by rw [cstr_text, cstr_text], fun k hk => ?_⟩
      rcases hx _ rfl with hle | ⟨hz, hchars⟩
      · have hk : k ≤ bs.length := by
          have hk : (k : Int) ≤ len := hk
          omega
        rcases hk.lt_or_eq with hlt | rfl
        · rw [List.getElem?_append_left hlt, List.getElem?_append_left hlt]
        · simp
      · exact padded_same hz (hpad hchars).1 (hpad hchars).2 k hk

-- ---------------------------------------------------------------------------
-- A whole event
-- ---------------------------------------------------------------------------

theorem AlikeCells.length_eq {cols : List Column} {xs xs' : List (Option Rendered)}
    (h : AlikeCells lib infos disp cols i xs xs') :
    xs.length = cols.length ∧ xs'.length = cols.length := by
  induction h with
  | nil => exact ⟨rfl, rfl⟩
  | cons head tail ih => exact ⟨congrArg (· + 1) ih.1, congrArg (· + 1) ih.2⟩

theorem AlikeRow.widths {r : RowsArgs} {rows rows' : List Row}
    (h : List.Forall₂ (AlikeRow lib r) rows rows') :
    (∀ y ∈ rows, y.before.length = r.td.columns.length ∧ y.after.length = r.td.columns.length) ∧
      ∀ y ∈ rows', y.before.length = r.td.columns.length ∧ y.after.length = r.td.columns.length := by
  induction h with
  | nil => simp
  | cons head tail ih =>
    simp only [List.mem_cons, forall_eq_or_imp]
    obtain ⟨hb, hb'⟩ := head.before.length_eq
    obtain ⟨ha, ha'⟩ := head.after.length_eq
    exact ⟨⟨⟨hb, ha⟩, ih.1⟩, ⟨hb', ha'⟩, ih.2⟩

namespace RowsCall

variable {c : RowsCall} {os os' : Allocator} {s s' t t' : RowsState} {v v' : Nat}

/-- Everything but the cells of blob columns is the same in two row sets. -/
def SameButBlobs (c : RowsCall) (set set' : RowSet) : Prop :=
  ∀ r < set.rowsCount, ∀ k col, c.map.columns[k]? = some col → col.isBlob = false →
    ∀ after, (after = true → c.update = true) → ∃ cell cell',
      set.cell? after r k = some cell ∧ set'.cell? after r k = some cell' ∧ cell.Same cell'

theorem SameButBlobs.symm {set set' : RowSet} (hcount : set.rowsCount = set'.rowsCount)
    (h : c.SameButBlobs set set') : c.SameButBlobs set' set := by
  intro r hr k col hcol hblob after hafter
  obtain ⟨cell, cell', hcell, hcell', hsame⟩ := h r (hcount ▸ hr) k col hcol hblob after hafter
  exact ⟨cell', cell, hcell', hcell, hsame.symm⟩

theorem SameButBlobs.trans {set set' set'' : RowSet} (hcount : set.rowsCount = set'.rowsCount)
    (h : c.SameButBlobs set set') (h' : c.SameButBlobs set' set'') : c.SameButBlobs set set'' := by
  intro r hr k col hcol hblob after hafter
  obtain ⟨cell, cell', hcell, hcell', hsame⟩ := h r hr k col hcol hblob after hafter
  obtain ⟨mid, cell'', hmid, hcell'', hsame'⟩ := h' r (hcount ▸ hr) k col hcol hblob after hafter
  cases hcell'.symm.trans hmid
  exact ⟨cell, cell'', hcell, hcell'', hsame.trans hsame'⟩

theorem sameButBlobs_of_alike {rows rows' : List Row} {set set' : RowSet}
    (hlt : rows.length * c.map.mColcnt < 2 ^ 32)
    (hrows : List.Forall₂ (AlikeRow lib c.args) rows rows')
    (hd : Delivered c.map.mColcnt c.update rows set)
    (hd' : Delivered c.map.mColcnt c.update rows' set')
    (hpad : PaddedSet lib c.args c.update set)
    (hpad' : PaddedSet lib { c.args with disp := disp' } c.update set') :
    c.SameButBlobs set set' := by
  intro r hr k col hcol hblob after hafter
  have hlen := hrows.length_eq
  rw [hd.count] at hr
  have hk : k < c.map.mColcnt := by
    rw [TableMapLogEvent.mColcnt, ← c.map.columns_length]
    exact (List.getElem?_eq_some_iff.mp hcol).1
  have hrow : rows[r]? = some (rows.get ⟨r, hr⟩) := List.getElem?_eq_getElem hr
  have hrow' : rows'[r]? = some (rows'.get ⟨r, hlen ▸ hr⟩) := List.getElem?_eq_getElem _
  have halike : AlikeRow lib c.args (rows.get ⟨r, hr⟩) (rows'.get ⟨r, hlen ▸ hr⟩) :=
    hrows.get hr (hlen ▸ hr)
  have hcells : AlikeCells lib c.info.2 c.disp c.map.columns 0
      (if after then (rows.get ⟨r, hr⟩).after else (rows.get ⟨r, hr⟩).before)
      (if after then (rows'.get ⟨r, hlen ▸ hr⟩).after else (rows'.get ⟨r, hlen ▸ hr⟩).before) := by
    cases after with
    | false => exact halike.before
    | true => exact halike.after
  obtain ⟨x, x', hx, hx', hsame⟩ := hcells.get hcol
  rw [Nat.zero_add] at hsame
  obtain ⟨rfl, hmeasured⟩ := hsame hblob
  obtain ⟨hwidth, hwidth'⟩ := AlikeRow.widths hrows
  rw [show c.args.td.columns.length = c.map.mColcnt from c.map.columns_length] at hwidth hwidth'
  obtain ⟨cell, hcell, hshow⟩ := hd.cell after hafter hlt hwidth hrow hk hx
  obtain ⟨cell', hcell', hshow'⟩ := hd'.cell after hafter (hlen ▸ hlt) hwidth' hrow' hk hx'
  refine ⟨cell, cell', hcell, hcell', hshow.same hshow' hmeasured ?_⟩
  rintro ⟨width, hl⟩
  refine ⟨cell_padded hlt hd hpad hafter hr hk hcell ⟨col, width, hcol, hl⟩, ?_⟩
  rw [@Column.layout_eq lib col c.disp disp' _ hblob] at hl
  exact cell_padded (c := { c with disp := disp' }) (hlen ▸ hlt) hd' hpad' hafter (hlen ▸ hr) hk hcell'
    ⟨col, width, hcol, hl⟩

/-- Under a second setting a decoded event gives the same rows, but for the cells
of blob columns; with the blobs hidden there are no fewer events that are decoded. -/
theorem getRows_settings (hc : c.Cached) (disp' : DisplayBlobs) (hs : s.set.rowsCount = 0)
    (hs' : s'.set.rowsCount = 0)
    (hrun : (getRows lib os c.ev c.map c.map.mColcnt c.info c.disp).run s = .ok v t) :
    (disp'.blobsDisplay = false → os'.Succeeds →
      ∃ v' t', (getRows lib os' c.ev c.map c.map.mColcnt c.info disp').run s' = .ok v' t') ∧
    ∀ v' t', (getRows lib os' c.ev c.map c.map.mColcnt c.info disp').run s' = .ok v' t' →
      v = v' ∧ t.set.rowsCount = t'.set.rowsCount ∧
        (t.set.rowsCount * c.map.mColcnt < 2 ^ 32 → c.SameButBlobs t.set t'.set) := by
  have hc' : Cached { c with disp := disp' } := hc
  have hagree := @scanEvent_agree lib c disp'
  have hf' := @getRows_follows lib os' s' { c with disp := disp' } hc' hs'
  obtain ⟨x, hx, hv, -, hd⟩ := (getRows_follows lib os hc hs).ok hrun
  constructor
  · intro hhide hos
    obtain ⟨x', hx'⟩ := hagree.reaches x hx hhide
    rw [hx'] at hf'
    obtain ⟨v', t', hrun', -⟩ := hf'.reaches fun _ _ _ hspare => hspare.2 hos
    exact ⟨v', t', hrun'⟩
  · intro v' t' hrun'
    obtain ⟨x', hx', hv', -, hd'⟩ := hf'.ok hrun'
    obtain ⟨hrows, hstop⟩ := hagree.related x x' hx hx'
    have hcount : t.set.rowsCount = t'.set.rowsCount := by
      rw [hd.count, hd'.count, hrows.length_eq]
    refine ⟨by rw [hv, hv', hstop], hcount, fun hlt => ?_⟩
    obtain ⟨n, hn, hpad⟩ := (getRows_padded hc hs).ok hrun
    obtain ⟨n', hn', hpad'⟩ := (getRows_padded hc' hs').ok hrun'
    exact sameButBlobs_of_alike (hd.count ▸ hlt) hrows hd hd' (hpad (hn ▸ hlt))
      (hpad' (by rw [← hn', ← hcount]; exact hlt))

end RowsCall

end RplListener
