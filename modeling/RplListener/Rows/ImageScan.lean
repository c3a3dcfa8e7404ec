import RplListener.Rows.Scan

/-!
# Complete images are walked over

Where a complete image lies ahead of the cursor, the walk gives its rendering
and stops right behind it, and so for any number of rows.
-/

namespace RplListener

open Bytes Refine

variable {lib : Library} {buf : List UInt8} {value p : Nat} {bs rest : List UInt8}

theorem takeAt_of_ahead (h : Ahead buf p (bs ++ rest)) : takeAt buf p bs.length = .ok bs := by
  rw [takeAt, h.slice]

theorem scanBit_of_ahead {k : Nat} (h : Ahead buf p (bs ++ rest)) (hk : k < bs.length * 8) :
    scanBit buf p k = .ok (bit bs k) := by
  have hbyte := slice?_byte h.slice (k := k / 8) (by omega)
  unfold scanBit takeAt
  rw [hbyte]
  simp [bit]

theorem scanInt_of_ahead {v maxLength : Nat} (hv : EncodesInt lib bs v)
    (h : Ahead buf p (bs ++ rest)) (h1 : bs.length ≤ maxLength)
    (h2 : maxLength ≤ bs.length + rest.length) : scanInt lib buf p maxLength = .ok (v, bs.length) := by
  rw [scanInt, h.2, hv.2 rest maxLength h1 h2]

theorem scanDoc_of_ahead {text : List UInt8} (hd : ParsesTo lib bs text)
    (h : Ahead buf p (bs ++ rest)) : scanDoc lib buf p bs.length = .ok text := by
  rw [scanDoc, h.2, hd rest]

-- ---------------------------------------------------------------------------
-- JSON diffs
-- ---------------------------------------------------------------------------

theorem sub64_add {m n : Nat} (h : m + n < 2 ^ 64) : sub64 (m + n) m = n := by
  unfold sub64 sizeT
  omega

theorem diffsText_cons (d : JsonDiff) (ds : List JsonDiff) :
    diffsText (d :: ds) = d.text ++ if ds = [] then [] else 10 :: diffsText ds := by
  cases ds with
  | nil => simp [diffsText]
  | cons e ds => simp [diffsText, List.intercalate]

theorem JsonDiffOperation.ofByte_byte (op : JsonDiffOperation) : ofByte op.byte = some op := by
  cases op <;> rfl

theorem JsonDiff.bytes_ne_nil (d : JsonDiff) : d.bytes ≠ [] := by simp [JsonDiff.bytes]

theorem diffsBytes_eq_nil {ds : List JsonDiff} : diffsBytes ds = [] ↔ ds = [] := by
  cases ds with
  | nil => simp [diffsBytes]
  | cons d ds => simp [diffsBytes, d.bytes_ne_nil]

theorem diffs_step {ds : List JsonDiff} (d : JsonDiff) (acc : List UInt8) :
    (if (diffsBytes ds).length ≠ 0 then acc ++ d.text ++ ascii "\n" else acc ++ d.text) ++
      diffsText ds = acc ++ diffsText (d :: ds) := by
  rw [diffsText_cons]
  by_cases h : ds = []
  · subst h
    simp [diffsBytes, diffsText]
  · have hne : (diffsBytes ds).length ≠ 0 := by
      rwa [ne_eq, List.length_eq_zero_iff, diffsBytes_eq_nil]
    rw [if_pos hne, if_neg h]
    simp [ascii]
    rfl

theorem JsonDiff.bytes_eq (d : JsonDiff) :
    d.bytes = [d.operation.byte] ++ (d.pathPrefix ++ (d.path ++ d.valueBytes)) := by
  simp [JsonDiff.bytes]

/-- The walk over valid diffs gives their text. -/
theorem scanDiffs_of_ahead {ds : List JsonDiff} {fuel : Nat} {acc : List UInt8}
    (hds : ∀ d ∈ ds, d.Valid lib) (hlt : buf.length < 2 ^ 32) (hfuel : ds.length ≤ fuel)
    (h : Ahead buf p (diffsBytes ds ++ rest)) :
    scanDiffs lib buf fuel p (diffsBytes ds).length acc = .ok (acc ++ diffsText ds) := by
  induction ds generalizing fuel p acc with
  | nil => cases fuel <;> simp [scanDiffs, diffsBytes, diffsText, pure, Except.pure]
  | cons d ds ih =>
    obtain ⟨hd, hds⟩ := List.forall_mem_cons.mp hds
    obtain ⟨fuel, rfl⟩ : ∃ k, fuel = k + 1 := ⟨fuel - 1, by simp at hfuel; omega⟩
    have hfuel : ds.length ≤ fuel := by simpa using hfuel
    have hcons : diffsBytes (d :: ds) = d.bytes ++ diffsBytes ds := by simp [diffsBytes]
    rw [hcons, JsonDiff.bytes_eq] at h
    simp only [List.append_assoc] at h
    have hlen := h.length_eq
    have hop : Ahead buf (p + 1) _ := h.skip
    have hpath := hop.skip
    have hvalue := hpath.skip
    simp only [List.length_append, List.length_singleton] at hlen
    -- What is left to go behind each part.
    have hx : (diffsBytes (d :: ds)).length = 1 + (d.pathPrefix.length + (d.path.length +
        (d.valueBytes.length + (diffsBytes ds).length))) := by
      rw [hcons, JsonDiff.bytes_eq]
      simp only [List.length_append, List.length_singleton]
      omega
    have h1 : sub64 (1 + (d.pathPrefix.length + (d.path.length + (d.valueBytes.length +
        (diffsBytes ds).length)))) 1 = _ := sub64_add (by omega)
    have h2 : sub64 (d.pathPrefix.length + (d.path.length + (d.valueBytes.length +
        (diffsBytes ds).length))) d.pathPrefix.length = _ := sub64_add (by omega)
    have h3 : sub64 (d.path.length + (d.valueBytes.length + (diffsBytes ds).length))
        d.path.length = _ := sub64_add (by omega)
    have hbyte : takeAt buf p 1 = .ok [d.operation.byte] := takeAt_of_ahead h
    have hint : scanInt lib buf (p + 1) (d.pathPrefix.length + (d.path.length +
        (d.valueBytes.length + (diffsBytes ds).length))) = .ok (d.path.length, d.pathPrefix.length) :=
      scanInt_of_ahead hd.path hop (by omega) (by simp only [List.length_append]; omega)
    rw [hx]
    unfold scanDiffs
    rw [if_neg (by omega), hbyte, ok_bind, List.headD_cons, JsonDiffOperation.ofByte_byte]
    simp only [h1, hint, ok_bind, h2, takeAt_of_ahead hpath, h3]
    split
    case isTrue hne =>
      obtain ⟨hpre, hparse⟩ := hd.value hne
      have hv : d.valueBytes = d.valuePrefix ++ d.value := if_neg hne
      rw [hv, List.append_assoc] at hvalue
      have hvlen : d.valueBytes.length = d.valuePrefix.length + d.value.length := by
        rw [hv, List.length_append]
      have hvint : scanInt lib buf _ (d.valueBytes.length + (diffsBytes ds).length) = _ :=
        scanInt_of_ahead hpre hvalue (by omega) (by simp only [List.length_append]; omega)
      have h4 : sub64 (d.valueBytes.length + (diffsBytes ds).length) d.valuePrefix.length =
          d.value.length + (diffsBytes ds).length := by
        rw [hvlen, Nat.add_assoc]
        exact sub64_add (by omega)
      have h5 : sub64 (d.value.length + (diffsBytes ds).length) d.value.length = _ :=
        sub64_add (by omega)
      have hacc : acc ++ d.operation.text ++ d.path ++ ascii ":" ++ d.valueText = acc ++ d.text := by
        simp [JsonDiff.text, hne]
      simp only [hvint, ok_bind, h4, scanDoc_of_ahead hparse hvalue.skip, h5, hacc]
      rw [ih hds hfuel hvalue.skip.skip, diffs_step]
    case isFalse hrem =>
      have hnil : d.valueBytes = [] := if_pos (not_not.mp hrem)
      have hacc : acc ++ d.operation.text ++ d.path ++ ascii ":" = acc ++ d.text := by
        simp [JsonDiff.text, not_not.mp hrem]
      rw [hnil] at hvalue
      simp only [hnil, List.length_nil, Nat.zero_add, hacc]
      rw [ih hds hfuel hvalue, diffs_step]

-- ---------------------------------------------------------------------------
-- Fields
-- ---------------------------------------------------------------------------

theorem Layout.Complete.payload {l : Layout} (hl : 0 < l.prefixWidth) (hc : l.Complete bs) :
    leNat (bs.take l.prefixWidth) = (bs.drop l.prefixWidth).length := by
  obtain ⟨-, hsize⟩ := hc
  rw [List.length_drop]
  cases l with
  | fixed => exact absurd hl (lt_irrefl 0)
  | chars | blob | json =>
    simp only [Layout.size] at hsize
    omega

theorem scanContents_of_ahead {disp : DisplayBlobs} {l : Layout} {isPartial : Bool}
    {doc after : List UInt8} (hfit : FieldFits (JsonPayload lib) (some l) isPartial bs doc after)
    (hlt : buf.length < 2 ^ 30) (h : Ahead buf value (bs ++ rest)) :
    scanContents lib buf disp isPartial value (bs.take l.prefixWidth) l =
      .ok (l.render disp doc bs) := by
  have hlen := h.length_eq
  have hcomplete := hfit.complete
  have hpay : Ahead buf (value + l.prefixWidth) (bs.drop l.prefixWidth ++ rest) := h.drop hcomplete.1
  have hcount := fun hl => hcomplete.payload hl
  rw [List.length_append] at hlen
  cases l with
  | fixed width text =>
    have hwidth : bs.length = width := hcomplete.2
    rw [scanContents, ← hwidth, takeAt_of_ahead h]
    rfl
  | chars width =>
    simp only [Layout.prefixWidth] at hcount hpay ⊢
    by_cases hw : 0 < width
    · rw [scanContents, hcount hw, takeAt_of_ahead hpay, ok_bind, Layout.render, List.length_drop]
      rfl
    · obtain rfl : width = 0 := by omega
      have hnil : bs = [] := List.eq_nil_of_length_eq_zero hcomplete.2
      subst hnil
      rfl
  | blob width asHex =>
    simp only [Layout.prefixWidth] at hcount hpay ⊢
    unfold scanContents scanBlob Layout.render
    cases disp.blobsDisplay with
    | false => rfl
    | true =>
      by_cases hw : 0 < width
      · rw [hcount hw]
        have hslice := hpay.slice
        cases asHex with
        | true =>
          simp only [Bool.not_true, Bool.false_eq_true, if_false, if_true]
          rw [scanHex, hslice]
          dsimp only
          rw [if_pos (by rw [List.length_drop]; omega)]
        | false =>
          simp only [Bool.not_true, Bool.false_eq_true, if_false]
          rw [scanRaw, takeAt_of_ahead hpay, ok_bind, if_pos (by rw [List.length_drop]; omega),
            List.length_drop]
      · obtain rfl : width = 0 := by omega
        have hnil : bs = [] := List.eq_nil_of_length_eq_zero hcomplete.2
        subst hnil
        cases asHex <;> rfl
  | json =>
    obtain ⟨-, hdoc⟩ := hfit
    simp only [Layout.prefixWidth] at hcount hpay ⊢
    unfold scanContents scanJson Layout.render
    cases disp.blobsDisplay with
    | false => rfl
    | true =>
      simp only [Bool.not_true, Bool.false_eq_true, if_false]
      rw [hcount (by decide)]
      cases isPartial with
      | false =>
        rw [if_neg Bool.false_ne_true, scanDoc_of_ahead hdoc hpay]
        rfl
      | true =>
        obtain ⟨ds, hds, hbytes, rfl⟩ := hdoc
        rw [if_pos rfl, hbytes]
        rw [hbytes] at hpay
        have hfuel : ds.length ≤ buf.length := by
          have := hpay.length_eq
          have : ds.length ≤ (diffsBytes ds).length :=
            length_le_flatMap fun d _ => d.bytes_ne_nil
          simp only [List.length_append] at *
          omega
        rw [scanDiffs_of_ahead hds (by omega) hfuel hpay]
        rfl

theorem takeAt_prefix {l : Layout} (hc : l.Complete bs) (h : Ahead buf value (bs ++ rest)) :
    takeAt buf value l.prefixWidth = .ok (bs.take l.prefixWidth) := by
  have hp := h
  rw [← List.take_append_drop l.prefixWidth bs, List.append_assoc] at hp
  have htake := takeAt_of_ahead hp
  rwa [List.length_take_of_le hc.1] at htake

theorem scanField_of_ahead {disp : DisplayBlobs} {l : Layout} {isPartial : Bool}
    {doc after : List UInt8} (hfit : FieldFits (JsonPayload lib) (some l) isPartial bs doc after)
    (hlt : buf.length < 2 ^ 30) (h : Ahead buf value (bs ++ rest)) :
    scanField lib buf disp isPartial value l = .ok (l.render disp doc bs, bs.length) := by
  have hc := hfit.complete
  have hlen := h.length_eq
  rw [List.length_append] at hlen
  have hsize : l.size (bs.take l.prefixWidth) < 2 ^ 32 := by
    rw [← hc.2]
    omega
  rw [scanField, takeAt_prefix hc h, ok_bind, scanContents_of_ahead hfit hlt h, ok_bind,
    Layout.advance_of_lt hsize, ← hc.2]
  rfl

theorem scanValue_of_ahead {a : ImageArgs} {col : Column} {i : Nat} {isPartial : Bool}
    {doc after : List UInt8} (hsizes : lib.FieldSize col)
    (hfit : FieldFits (JsonPayload lib) (col.layout lib (unsignedAt a.colInfo i) a.disp) isPartial
      bs doc after) (hlt : buf.length < 2 ^ 30) (h : Ahead buf value (bs ++ rest)) :
    ∃ l, col.layout lib (unsignedAt a.colInfo i) a.disp = some l ∧
      scanValue lib buf a col i isPartial value = .ok (l.render a.disp doc bs, bs.length) := by
  cases hl : col.layout lib (unsignedAt a.colInfo i) a.disp with
  | none => rw [hl] at hfit; exact hfit.elim
  | some l =>
    rw [hl] at hfit
    refine ⟨l, rfl, ?_⟩
    obtain ⟨hreads, hsize⟩ := hsizes _ _ l hl
    have hc := hfit.complete
    have hlen := h.length_eq
    rw [List.length_append] at hlen
    have hwidth := hsize _ (List.length_take_of_le hc.1) (by rw [← hc.2]; omega)
    unfold scanValue
    simp only [hreads, takeAt_prefix hc h, ok_bind, hwidth, ← hc.2]
    rw [sizeT_sub (by omega) (by omega), if_neg (by omega), hl, reject, ok_bind]
    exact scanField_of_ahead hfit hlt h

-- ---------------------------------------------------------------------------
-- Columns
-- ---------------------------------------------------------------------------

/-- A type the decoder has a branch for, with metadata the branch knows. -/
def Column.Supported (col : Column) : Prop :=
  ∀ lib isUnsigned disp, (col.layout lib isUnsigned disp).isSome

/-- The decoder's settings are those of the image, and its bit readers stand on
the image's bits. -/
structure ReadsImage (buf : List UInt8) (f : ImageFormat) (img : Image) (a : ImageArgs) : Prop where
  bitmap : a.bitmap = f.bitmap
  valueOptions : a.valueOptions = img.valueOptions
  colInfo : a.colInfo = f.colInfo
  disp : a.disp = f.disp
  partialBits : partialJsonUpdates img.valueOptions = true →
    ∀ k < f.columns.countP Column.isJson, scanBit buf a.partialPtr k = .ok (bit img.partialBits k)
  nullBits : ∀ k < bitmapBitsSet f.bitmap, scanBit buf a.nullPtr k = .ok (bit img.nullBits k)

def bitsFrom (bitmap : List Bool) (i : Nat) : Nat := bitmapBitsSet (bitmap.drop i)

theorem bitsFrom_set {bitmap : List Bool} {i : Nat} (h : bitmapIsSet bitmap i = true) :
    bitsFrom bitmap i = bitsFrom bitmap (i + 1) + 1 := by
  have hi : i < bitmap.length := by
    by_contra hn
    simp [bitmapIsSet, List.getD_eq_getElem?_getD, List.getElem?_eq_none (Nat.le_of_not_lt hn)] at h
  have hb : bitmap[i] = true := by simpa [bitmapIsSet, List.getD_eq_getElem?_getD, hi] using h
  simp [bitsFrom, bitmapBitsSet, List.drop_eq_getElem_cons hi, hb]

theorem bitsFrom_succ_le (bitmap : List Bool) (i : Nat) :
    bitsFrom bitmap (i + 1) ≤ bitsFrom bitmap i :=
  (List.drop_sublist_drop_left bitmap (Nat.le_succ i)).count_le true

theorem ReadsImage.readsPartial {f : ImageFormat} {img : Image} {a : ImageArgs}
    (ha : ReadsImage buf f img a) (col : Column) :
    a.readsPartial col = (partialJsonUpdates img.valueOptions && col.isJson) := by
  rw [ImageArgs.readsPartial, ha.valueOptions]

theorem ReadsImage.slotsFit_cons {rule : FieldRule}
    {f : ImageFormat} {img : Image} {a : ImageArgs} {col : Column} {cols : List Column}
    {i nullBit partialBit : Nat} {slot : Slot} {slots : List Slot} (ha : ReadsImage buf f img a) :
    SlotsFit lib rule f img (col :: cols) i nullBit partialBit (slot :: slots) rest ↔
      if bitmapIsSet f.bitmap i then
        (match slot with
          | .absent => False
          | .null => bit img.nullBits nullBit = true
          | .value bs doc => bit img.nullBits nullBit = false ∧
              rule (col.layout lib (unsignedAt f.colInfo i) f.disp)
                (a.readsPartial col && bit img.partialBits partialBit) bs doc
                (slots.flatMap Slot.bytes ++ rest)) ∧
        SlotsFit lib rule f img cols (i + 1) (nullBit + 1) (a.nextPartialBit col partialBit) slots rest
      else
        slot = .absent ∧
          SlotsFit lib rule f img cols (i + 1) nullBit (a.nextPartialBit col partialBit) slots rest := by
  simp only [SlotsFit, ← ha.readsPartial col]
  exact Iff.rfl

theorem ReadsImage.scanPartialBit {f : ImageFormat} {img : Image} {a : ImageArgs} {col : Column}
    {cols : List Column} {partialBit : Nat} (ha : ReadsImage buf f img a)
    (hpartials : partialBit + (col :: cols).countP Column.isJson ≤ f.columns.countP Column.isJson) :
    scanPartialBit buf a col partialBit =
      .ok (a.readsPartial col && bit img.partialBits partialBit) := by
  unfold RplListener.scanPartialBit
  split
  case isTrue hreads =>
    have hr := ha.readsPartial col
    rw [hreads, eq_comm, Bool.and_eq_true] at hr
    rw [ha.partialBits hr.1 partialBit (by rw [List.countP_cons_of_pos hr.2] at hpartials; omega),
      hreads, Bool.true_and]
  case isFalse hreads =>
    rw [Bool.not_eq_true] at hreads
    rw [hreads]
    rfl

theorem ImageArgs.nextPartialBit_add_le {a : ImageArgs} {col : Column} {cols : List Column}
    {partialBit n : Nat} (h : partialBit + (col :: cols).countP Column.isJson ≤ n) :
    a.nextPartialBit col partialBit + cols.countP Column.isJson ≤ n := by
  unfold nextPartialBit
  split
  case isTrue hreads =>
    rw [readsPartial, Bool.and_eq_true] at hreads
    rw [List.countP_cons_of_pos hreads.2] at h
    omega
  case isFalse =>
    have : cols.countP Column.isJson ≤ (col :: cols).countP Column.isJson :=
      (List.sublist_cons_self col cols).countP_le
    omega

theorem scanColumn_null {a : ImageArgs} {col : Column} {i nullBit : Nat} {isPartial : Bool}
    (hsup : col.Supported) (hbit : scanBit buf a.nullPtr nullBit = .ok true) :
    ∃ r, col.nullRendered a.disp = some r ∧
      scanColumn lib buf a col i nullBit value isPartial = .ok (r, 0) := by
  obtain ⟨r, hr⟩ := Option.isSome_iff_exists.mp (Column.nullRendered_isSome (hsup lib false a.disp))
  refine ⟨r, hr, ?_⟩
  unfold scanColumn
  rw [hbit, ok_bind, if_pos rfl, hr]
  rfl

theorem scanColumn_value {a : ImageArgs} {col : Column} {i nullBit : Nat} {isPartial : Bool}
    (hbit : scanBit buf a.nullPtr nullBit = .ok false) :
    scanColumn lib buf a col i nullBit value isPartial =
      scanValue lib buf a col i isPartial value := by
  unfold scanColumn
  rw [hbit, ok_bind, if_neg Bool.false_ne_true]

/-- The walk over the columns of an image, from any column on. -/
theorem scanColumns_of_fits {f : ImageFormat} {img : Image} {a : ImageArgs} {cols : List Column}
    {i nullBit partialBit : Nat} {slots : List Slot} {after : List UInt8} (ha : ReadsImage buf f img a)
    (hsizes : ∀ col ∈ cols, lib.FieldSize col) (hsup : ∀ col ∈ cols, col.Supported)
    (hlt : buf.length < 2 ^ 30) (hnull : nullBit + bitsFrom f.bitmap i ≤ bitmapBitsSet f.bitmap)
    (hpartials : partialBit + cols.countP Column.isJson ≤ f.columns.countP Column.isJson)
    (hfit : SlotsFit lib (FieldFits (JsonPayload lib)) f img cols i nullBit partialBit slots after)
    (h : Ahead buf value (slots.flatMap Slot.bytes ++ rest)) :
    scanColumns lib buf a cols i nullBit partialBit value =
      .ok (renderedSlots lib f cols i slots, value + (slots.flatMap Slot.bytes).length) := by
  induction cols generalizing i nullBit partialBit value slots with
  | nil =>
    obtain rfl : slots = [] := hfit
    rfl
  | cons col cols ih =>
    obtain ⟨hcol, hsizes⟩ := List.forall_mem_cons.mp hsizes
    obtain ⟨hcsup, hsup⟩ := List.forall_mem_cons.mp hsup
    cases slots with
    | nil => exact hfit.elim
    | cons slot slots =>
      rw [ha.slotsFit_cons] at hfit
      have hle := bitsFrom_succ_le f.bitmap i
      unfold scanColumns
      rw [ha.scanPartialBit hpartials, ok_bind, ha.bitmap]
      simp only
      by_cases hset : bitmapIsSet f.bitmap i = true
      · rw [if_pos hset] at hfit
        obtain ⟨hslot, hslots⟩ := hfit
        have hstep := bitsFrom_set hset
        have hbit := ha.nullBits nullBit (by omega)
        rw [if_neg (by simp [hset])]
        have hih := fun {v} => @ih v (i + 1) (nullBit + 1) _ _ hsizes hsup (by omega)
          (ImageArgs.nextPartialBit_add_le hpartials) hslots
        cases slot with
        | absent => exact hslot.elim
        | null =>
          simp only at hslot
          rw [hslot] at hbit
          obtain ⟨r, hr, hscan⟩ := @scanColumn_null lib buf value a col i nullBit
            (a.readsPartial col && bit img.partialBits partialBit) hcsup hbit
          rw [hscan, ok_bind, Nat.add_zero, hih (by simpa [Slot.bytes] using h)]
          simp [renderedSlots, Slot.rendered, Slot.bytes, ← ha.disp, hr, pure, Except.pure]
        | value bs doc =>
          simp only at hslot
          rw [hslot.1] at hbit
          have h : Ahead buf value (bs ++ (slots.flatMap Slot.bytes ++ rest)) := by
            rwa [List.flatMap_cons, List.append_assoc] at h
          rw [← ha.disp, ← ha.colInfo] at hslot
          obtain ⟨l, hl, hscan⟩ := scanValue_of_ahead hcol hslot.2 hlt h
          rw [scanColumn_value hbit, hscan, ok_bind, hih h.skip]
          simp [renderedSlots, Slot.rendered, Slot.bytes, ← ha.disp, ← ha.colInfo, hl, pure, Except.pure,
            Nat.add_assoc]
      · rw [if_neg hset] at hfit
        obtain ⟨rfl, hslots⟩ := hfit
        rw [if_pos (by simp [hset]), ih hsizes hsup (by omega)
          (ImageArgs.nextPartialBit_add_le hpartials) hslots (by simpa [Slot.bytes] using h)]
        simp [renderedSlots, Slot.rendered, Slot.bytes, pure, Except.pure]

-- ---------------------------------------------------------------------------
-- Images and rows
-- ---------------------------------------------------------------------------

def RowsArgs.format (r : RowsArgs) (bitmap : List Bool) (after : Bool) : ImageFormat :=
  { columns := r.td.columns, colInfo := r.colInfo, disp := r.disp, bitmap
    partialAfter := after && r.typeCode == .partialUpdateRows }

structure RowsArgs.Readable (lib : Library) (r : RowsArgs) : Prop where
  sizes : ∀ col ∈ r.td.columns, lib.FieldSize col
  supported : ∀ col ∈ r.td.columns, col.Supported

variable {r : RowsArgs} {bitmap : List Bool} {after : Bool} {img : Image}

theorem scanOptions_of_ahead
    (hopt : if after && r.typeCode == .partialUpdateRows then EncodesInt lib img.options img.valueOptions
      else img.options = [] ∧ img.valueOptions = 0)
    (hpart : img.partialBits.length =
      if partialJsonUpdates img.valueOptions then (r.td.jsonColumnCount + 7) / 8 else 0)
    (hlt : buf.length < 2 ^ 30) (h : Ahead buf value (img.options ++ rest)) :
    scanOptions lib buf r (after && r.typeCode == .partialUpdateRows) value =
      .ok (img.valueOptions, value + img.options.length,
        value + img.options.length + img.partialBits.length) := by
  have hlen := h.length_eq
  rw [List.length_append] at hlen
  unfold scanOptions
  split
  case isTrue hp =>
    rw [if_pos hp] at hopt
    rw [sizeT_sub (by omega) (by omega), scanInt_of_ahead hopt h (by omega) (by omega), ok_bind]
    simp only
    split
    case isTrue hbits => rw [hpart, if_pos hbits]; rfl
    case isFalse hbits => rw [hpart, if_neg hbits]; rfl
  case isFalse hp =>
    rw [if_neg hp] at hopt
    obtain ⟨hnil, hzero⟩ := hopt
    rw [hpart, hzero, hnil]
    rfl

theorem scanImage_of_complete (hr : r.Readable lib)
    (himg : img.Complete lib (JsonPayload lib) (r.format bitmap after)) (hlt : buf.length < 2 ^ 30)
    (h : Ahead buf value (img.bytes ++ rest)) :
    scanImage lib buf r bitmap after value =
      .ok (img.rendered lib (r.format bitmap after), value + img.bytes.length) := by
  have hbytes : img.bytes.length = img.options.length + (img.partialBits.length +
      (img.nullBits.length + (img.slots.flatMap Slot.bytes).length)) := by
    simp only [Image.bytes, List.length_append]
    omega
  simp only [Image.bytes, List.append_assoc] at h
  have hpartials := h.skip
  have hnull := hpartials.skip
  have hslots := hnull.skip
  unfold scanImage
  rw [scanOptions_of_ahead himg.options himg.partialBits hlt h, ok_bind]
  simp only
  rw [show (bitmapBitsSet bitmap + 7) / 8 = _ from himg.nullBits.symm]
  refine (scanColumns_of_fits (f := r.format bitmap after) ⟨rfl, rfl, rfl, rfl, ?_, ?_⟩
    hr.sizes hr.supported hlt ?_ ?_ himg.slots hslots).trans ?_
  · intro hbits k hk
    have hlen := himg.partialBits
    rw [if_pos hbits] at hlen
    exact scanBit_of_ahead hpartials (by omega)
  · intro k hk
    have hlen := himg.nullBits
    exact scanBit_of_ahead hnull (by omega)
  · simp [bitsFrom]
  · simp [RowsArgs.format]
  · rw [hbytes]
    simp only [Image.rendered, RowsArgs.format, Nat.add_assoc]

/-- The images of one row; `after` is there in an update only. -/
structure EncodedRow where
  first : Image
  after : Option Image
  deriving DecidableEq, Repr

def EncodedRow.bytes (e : EncodedRow) : List UInt8 := e.first.bytes ++ (e.after.elim [] Image.bytes)

structure EncodedRow.Complete (lib : Library)
    (docs : (isPartial : Bool) → (payload doc : List UInt8) → Prop) (r : RowsArgs) (update : Bool)
    (cols colsAi : List Bool) (e : EncodedRow) : Prop where
  first : e.first.Complete lib docs (r.format cols false)
  hasAfter : e.after.isSome = update
  after : ∀ img ∈ e.after, img.Complete lib docs (r.format colsAi true)

section

variable {rule : FieldRule} {cols colsAi : List Bool}

structure EncodedRow.Fits (lib : Library) (rule : FieldRule) (r : RowsArgs) (cols colsAi : List Bool)
    (e : EncodedRow) (rest : List UInt8) : Prop where
  first : e.first.Fits lib rule (r.format cols false) (e.after.elim [] Image.bytes ++ rest)
  after : ∀ img ∈ e.after, img.Fits lib rule (r.format colsAi true) rest

def RowsFit (lib : Library) (rule : FieldRule) (r : RowsArgs) (cols colsAi : List Bool) :
    List EncodedRow → (rest : List UInt8) → Prop
  | [], _ => True
  | e :: rows, rest => e.Fits lib rule r cols colsAi (rows.flatMap EncodedRow.bytes ++ rest) ∧
      RowsFit lib rule r cols colsAi rows rest

theorem RowsFit.of_mem {rows : List EncodedRow} {e : EncodedRow}
    (h : RowsFit lib rule r cols colsAi rows rest) (he : e ∈ rows) :
    ∃ rest', e.Fits lib rule r cols colsAi rest' := by
  induction rows with
  | nil => cases he
  | cons first rows ih =>
    rcases List.mem_cons.mp he with rfl | he
    · exact ⟨_, h.1⟩
    · exact ih h.2 he

theorem EncodedRow.Fits.complete {docs : (isPartial : Bool) → (payload doc : List UInt8) → Prop}
    {e : EncodedRow} (h : e.Fits lib (FieldFits docs) r cols colsAi rest) :
    e.Complete lib docs r e.after.isSome cols colsAi :=
  ⟨h.first.complete, rfl, fun img himg => (h.after img himg).complete⟩

end

def EncodedRow.row (lib : Library) (r : RowsArgs) (cols colsAi : List Bool) (e : EncodedRow) : Row :=
  { before := e.first.rendered lib (r.format cols false)
    after := e.after.elim (List.replicate r.td.size none)
      fun img => img.rendered lib (r.format colsAi true) }

theorem Image.Fits.bytes_pos {rule : FieldRule} {f : ImageFormat} (h : img.Fits lib rule f rest)
    (hbit : true ∈ f.bitmap) : 0 < img.bytes.length := by
  have hcount : 0 < bitmapBitsSet f.bitmap := List.count_pos_iff.mpr hbit
  have hnull := h.nullBits
  simp only [Image.bytes, List.length_append]
  omega

/-- The walk over complete rows. -/
theorem scanRows_of_complete {update : Bool} {cols colsAi : List Bool} {rows : List EncodedRow}
    {fuel : Nat} (hr : r.Readable lib) (hlt : buf.length < 2 ^ 30) (hcols : true ∈ cols)
    (hcolsAi : update = true → true ∈ colsAi)
    (hrows : ∀ e ∈ rows, e.Complete lib (JsonPayload lib) r update cols colsAi)
    (hfuel : rows.length ≤ fuel) (h : Ahead buf value (rows.flatMap EncodedRow.bytes)) :
    scanRows lib buf r update cols colsAi fuel value =
      .ok (rows.map (EncodedRow.row lib r cols colsAi), buf.length) := by
  induction rows generalizing fuel value with
  | nil =>
    have hstop : value = buf.length := h.length_eq
    cases fuel with
    | zero => rw [hstop]; rfl
    | succ fuel =>
      unfold scanRows
      rw [if_neg (by omega), hstop]
      rfl
  | cons e rows ih =>
    obtain ⟨he, hrows⟩ := List.forall_mem_cons.mp hrows
    obtain ⟨fuel, rfl⟩ : ∃ k, fuel = k + 1 := ⟨fuel - 1, by simp at hfuel; omega⟩
    have hfuel : rows.length ≤ fuel := by simpa using hfuel
    have hpos := he.first.bytes_pos hcols
    simp only [List.flatMap_cons, EncodedRow.bytes, List.append_assoc] at h
    have hlen := h.length_eq
    rw [List.length_append] at hlen
    have hnext := h.skip
    unfold scanRows
    rw [if_pos (by omega), scanImage_of_complete hr he.first hlt h, ok_bind]
    simp only
    rw [if_neg (by omega)]
    cases ha : e.after with
    | none =>
      have hup : update = false := by rw [← he.hasAfter, ha]; rfl
      rw [ha] at hnext
      rw [if_neg (by simp [hup]), ih hrows hfuel hnext]
      simp [EncodedRow.row, ha, pure, Except.pure]
    | some img =>
      have hup : update = true := by rw [← he.hasAfter, ha]; rfl
      have himg := he.after img ha
      have hpos := himg.bytes_pos (hcolsAi hup)
      rw [ha, Option.elim_some] at hnext
      rw [if_pos hup, scanImage_of_complete hr himg hlt hnext, ok_bind]
      simp only
      rw [if_neg (by omega), ih hrows hfuel hnext.skip]
      simp [EncodedRow.row, ha, pure, Except.pure]

end RplListener
