import RplListener.Rows.Inside
import RplListener.Rows.ImageScan

/-!
# A good walk is over images

Where the walk gives a result it has read every bit of the bit vectors, so it
has not left the event, and the bytes it went over are images. Their fields are
complete where `calc_field_size` is exact; where it is exact in 32 bits, a blob
may have a prefix that says more than an event can hold, and the cursor moves
over a part of the prefix only.
-/

namespace RplListener

open Bytes Refine

variable {lib : Library} {buf : List UInt8} {value p : Nat} {bs : List UInt8}

/-- A length-encoded integer is decided by the bytes it takes, which are
available and not more than allowed. -/
def Library.LenencLocal (lib : Library) : Prop :=
  ∀ avail maxLength v taken, lib.netFieldLengthChecked avail maxLength = .value v taken →
    0 < taken ∧ taken ≤ maxLength ∧ taken ≤ avail.length ∧
    ∀ rest maxLength', taken ≤ maxLength' →
      lib.netFieldLengthChecked (avail.take taken ++ rest) maxLength' = .value v taken

def anyDoc (_ : Bool) (_ _ : List UInt8) : Prop := True

theorem scanBit_inside {ptr k : Nat} {b : Bool} (h : scanBit buf ptr k = .ok b) :
    ptr + k / 8 < buf.length := by
  obtain ⟨byte, hbyte, -⟩ := bind_eq_ok.mp h
  exact (slice?_inside (takeAt_eq_ok hbyte) Nat.one_pos).1

theorem scanBit_of_slice {n k : Nat} (h : slice? buf p n = some bs) (hk : k < n * 8) :
    scanBit buf p k = .ok (bit bs k) := by
  have hbyte := slice?_byte h (k := k / 8) (by omega)
  unfold scanBit takeAt
  rw [hbyte]
  simp [bit]

-- ---------------------------------------------------------------------------
-- The bit vectors
-- ---------------------------------------------------------------------------

theorem bitsFrom_unset {bitmap : List Bool} {i : Nat} (h : ¬ bitmapIsSet bitmap i = true) :
    bitsFrom bitmap i = bitsFrom bitmap (i + 1) := by
  by_cases hi : i < bitmap.length
  · have hb : bitmap[i] = false := by
      simpa [bitmapIsSet, List.getD_eq_getElem?_getD, hi] using h
    simp [bitsFrom, bitmapBitsSet, List.drop_eq_getElem_cons hi, hb]
  · rw [bitsFrom, bitsFrom, List.drop_of_length_le (by omega), List.drop_of_length_le (by omega)]

variable {a : ImageArgs} {cols : List Column} {i nullBit partialBit : Nat}
variable {c : List (Option Rendered) × Nat}

theorem scanColumns_cons {col : Column}
    (h : scanColumns lib buf a (col :: cols) i nullBit partialBit value = .ok c) :
    ∃ isPartial rest, scanPartialBit buf a col partialBit = .ok isPartial ∧
      ((bitmapIsSet a.bitmap i = true ∧ ∃ cell,
          scanColumn lib buf a col i nullBit value isPartial = .ok cell ∧
          scanColumns lib buf a cols (i + 1) (nullBit + 1) (a.nextPartialBit col partialBit)
            (value + cell.2) = .ok rest ∧ c.1 = some cell.1 :: rest.1) ∨
        (¬ bitmapIsSet a.bitmap i = true ∧
          scanColumns lib buf a cols (i + 1) nullBit (a.nextPartialBit col partialBit) value =
            .ok rest ∧ c.1 = none :: rest.1)) ∧ c.2 = rest.2 := by
  unfold scanColumns at h
  obtain ⟨isPartial, hpart, h⟩ := bind_eq_ok.mp h
  simp only at h
  split at h
  case isTrue hset =>
    obtain ⟨rest, hrest, h⟩ := bind_eq_ok.mp h
    cases h
    exact ⟨isPartial, rest, hpart, .inr ⟨by simpa using hset, hrest, rfl⟩, rfl⟩
  case isFalse hset =>
    obtain ⟨cell, hcell, h⟩ := bind_eq_ok.mp h
    obtain ⟨rest, hrest, h⟩ := bind_eq_ok.mp h
    cases h
    exact ⟨isPartial, rest, hpart, .inl ⟨by simpa using hset, cell, hcell, hrest, rfl⟩, rfl⟩

theorem scanColumns_nullBits {k : Nat}
    (h : scanColumns lib buf a cols i nullBit partialBit value = .ok c)
    (hw : a.bitmap.length ≤ i + cols.length) (h1 : nullBit ≤ k)
    (h2 : k < nullBit + bitsFrom a.bitmap i) : a.nullPtr + k / 8 < buf.length := by
  induction cols generalizing i nullBit partialBit value c with
  | nil =>
    rw [bitsFrom, List.drop_of_length_le (by simpa using hw)] at h2
    simp [bitmapBitsSet] at h2
    omega
  | cons col cols ih =>
    rw [List.length_cons] at hw
    obtain ⟨isPartial, rest, -, ⟨hset, cell, hcell, hrest, -⟩ | ⟨hset, hrest, -⟩, -⟩ :=
      scanColumns_cons h
    · rw [bitsFrom_set hset] at h2
      by_cases hk : k = nullBit
      · subst hk
        obtain ⟨b, hb, -⟩ := bind_eq_ok.mp hcell
        exact scanBit_inside hb
      · exact ih hrest (by omega) (by omega) (by omega)
    · rw [bitsFrom_unset hset] at h2
      exact ih hrest (by omega) h1 h2

theorem scanColumns_partialBits {k : Nat}
    (h : scanColumns lib buf a cols i nullBit partialBit value = .ok c)
    (hp : partialJsonUpdates a.valueOptions = true) (h1 : partialBit ≤ k)
    (h2 : k < partialBit + cols.countP Column.isJson) : a.partialPtr + k / 8 < buf.length := by
  induction cols generalizing i nullBit partialBit value c with
  | nil =>
    simp at h2
    omega
  | cons col cols ih =>
    obtain ⟨isPartial, rest, hbit, hturn, -⟩ := scanColumns_cons h
    have hnext : a.partialPtr + k / 8 < buf.length ∨ a.nextPartialBit col partialBit ≤ k ∧
        k < a.nextPartialBit col partialBit + cols.countP Column.isJson := by
      by_cases hjson : col.isJson = true
      · have hreads : a.readsPartial col = true := by rw [ImageArgs.readsPartial, hp, hjson]; rfl
        rw [scanPartialBit, if_pos hreads] at hbit
        rw [List.countP_cons_of_pos hjson] at h2
        rw [ImageArgs.nextPartialBit, if_pos hreads]
        by_cases hk : k = partialBit
        · subst hk
          exact .inl (scanBit_inside hbit)
        · exact .inr ⟨by omega, by omega⟩
      · have hreads : ¬ a.readsPartial col = true := by simp [ImageArgs.readsPartial, hjson]
        rw [List.countP_cons_of_neg hjson] at h2
        rw [ImageArgs.nextPartialBit, if_neg hreads]
        exact .inr ⟨h1, h2⟩
    rcases hnext with hin | ⟨h1, h2⟩
    · exact hin
    · rcases hturn with ⟨-, cell, -, hrest, -⟩ | ⟨-, hrest, -⟩
      · exact ih hrest h1 h2
      · exact ih hrest h1 h2

theorem vector_inside {ptr bits : Nat} (hptr : ptr ≤ buf.length)
    (h : ∀ k < bits, ptr + k / 8 < buf.length) : ptr + (bits + 7) / 8 ≤ buf.length := by
  cases bits with
  | zero => simpa using hptr
  | succ bits =>
    have := h bits (Nat.lt_succ_self bits)
    omega

-- ---------------------------------------------------------------------------
-- Fields and columns
-- ---------------------------------------------------------------------------

theorem FieldFits.of_complete {l : Layout} {isPartial : Bool} {doc rest : List UInt8}
    (h : l.Complete bs) : FieldFits anyDoc (some l) isPartial bs doc rest := by
  cases l with
  | json => exact ⟨h, trivial⟩
  | _ => exact h

theorem Layout.prefixWidth_le_size (l : Layout) (lengthPrefix : List UInt8) :
    l.prefixWidth ≤ l.size lengthPrefix := by
  cases l <;> simp [prefixWidth, size]

theorem reject_eq_ok {α : Type} {o : Option α} {x : α} (h : reject o = .ok x) : o = some x := by
  cases o with
  | none => cases h
  | some y =>
    cases h
    rfl

section

variable {disp : DisplayBlobs} {isPartial : Bool} {l : Layout} {r : Rendered}
variable {lengthPrefix : List UInt8} {cell : Rendered × Nat}

theorem scanRaw_render {length : Nat} (h : scanRaw buf p length = .ok r) :
    length + 16 < 2 ^ 32 ∧ ∃ payload, slice? buf p length = some payload ∧
      r = .text payload (int32 length) (some false) := by
  obtain ⟨payload, hpay, h⟩ := bind_eq_ok.mp h
  split at h
  case isTrue hroom =>
    cases h
    exact ⟨hroom, payload, takeAt_eq_ok hpay, rfl⟩
  case isFalse => cases h

theorem scanHex_render {length : Nat} (h : scanHex buf p length = .ok r) :
    length * 2 + 16 < 2 ^ 32 ∧ ∃ payload, slice? buf p length = some payload ∧
      r = .ofText (hexText payload) (some true) := by
  unfold scanHex at h
  cases hpay : slice? buf p length with
  | none =>
    rw [hpay] at h
    dsimp only at h
    split at h <;> cases h
  | some payload =>
    rw [hpay] at h
    dsimp only at h
    split at h
    case isTrue hroom =>
      cases h
      exact ⟨hroom, payload, rfl, rfl⟩
    case isFalse => cases h

theorem scanJson_render {length : Nat} (h : scanJson lib buf disp isPartial p length = .ok r) :
    ∃ doc, r = Layout.json.render disp doc bs := by
  unfold scanJson at h
  unfold Layout.render
  split at h
  case isTrue hhide =>
    cases h
    exact ⟨[], by rw [if_pos hhide]⟩
  case isFalse hshow =>
    simp only at h
    split at h <;>
    · obtain ⟨doc, -, h⟩ := bind_eq_ok.mp h
      cases h
      exact ⟨doc, by rw [if_neg hshow]⟩

theorem scanContents_render (hbs : slice? buf value bs.length = some bs) (hc : l.Complete bs)
    (h : scanContents lib buf disp isPartial value (bs.take l.prefixWidth) l = .ok r) :
    ∃ doc, r = l.render disp doc bs := by
  have hpayload {width : Nat} {payload : List UInt8} (hw : width ≤ bs.length)
      (hpay : slice? buf (value + width) (bs.drop width).length = some payload) :
      payload = bs.drop width := by
    have hsub := slice?_sub hbs (by rw [List.length_drop]; omega : width + (bs.drop width).length ≤ _)
    rw [List.take_of_length_le le_rfl] at hsub
    exact Option.some_inj.mp (hpay.symm.trans hsub)
  have hle := hc.1
  unfold scanContents at h
  cases l with
  | fixed width text =>
    obtain ⟨payload, hpay, h⟩ := bind_eq_ok.mp h
    cases h
    have hwidth : bs.length = width := hc.2
    rw [← hwidth] at hpay
    obtain rfl := Option.some_inj.mp (hbs.symm.trans (takeAt_eq_ok hpay))
    exact ⟨[], rfl⟩
  | chars width =>
    obtain ⟨payload, hpay, h⟩ := bind_eq_ok.mp h
    cases h
    have hcount : leNat (bs.take width) = (bs.drop width).length := by
      have hsize : bs.length = width + leNat (bs.take width) := hc.2
      rw [List.length_drop]
      omega
    have hpay := takeAt_eq_ok hpay
    simp only [Layout.prefixWidth] at hle hpay ⊢
    rw [hcount] at hpay ⊢
    rw [hpayload hle hpay, List.length_drop]
    exact ⟨[], rfl⟩
  | blob width asHex =>
    have hcount : leNat (bs.take width) = (bs.drop width).length := by
      have hsize : bs.length = width + leNat (bs.take width) := hc.2
      rw [List.length_drop]
      omega
    simp only [Layout.prefixWidth] at hle h
    rw [hcount] at h
    unfold Layout.render
    unfold scanBlob at h
    cases hshow : disp.blobsDisplay with
    | false =>
      rw [hshow] at h
      cases h
      exact ⟨[], rfl⟩
    | true =>
      rw [hshow] at h
      cases asHex with
      | true =>
        obtain ⟨-, payload, hpay, rfl⟩ := scanHex_render h
        exact ⟨[], by rw [hpayload hle hpay]; rfl⟩
      | false =>
        obtain ⟨-, payload, hpay, rfl⟩ := scanRaw_render h
        exact ⟨[], by rw [hpayload hle hpay, List.length_drop]; rfl⟩
  | json => exact scanJson_render h

theorem scanField_complete (hpre : slice? buf value l.prefixWidth = some lengthPrefix)
    (hlt : buf.length < 2 ^ 32) (hin : value + l.size lengthPrefix ≤ buf.length)
    (h : scanField lib buf disp isPartial value l = .ok cell) :
    ∃ bs doc, l.Complete bs ∧ cell.1 = l.render disp doc bs ∧ Spans buf value bs (value + cell.2) := by
  unfold scanField at h
  obtain ⟨_, htake, h⟩ := bind_eq_ok.mp h
  obtain rfl := Option.some_inj.mp (hpre.symm.trans (takeAt_eq_ok htake))
  obtain ⟨r, hr, h⟩ := bind_eq_ok.mp h
  cases h
  have hbs := slice?_of_le hin
  have hlen := slice?_length hbs
  have hwidth := l.prefixWidth_le_size lengthPrefix
  generalize (buf.drop value).take (l.size lengthPrefix) = bs at hbs hlen
  have hhead : bs.take l.prefixWidth = lengthPrefix := by
    have : slice? buf (value + 0) l.prefixWidth = _ := slice?_sub hbs (by omega)
    rw [Nat.add_zero, hpre] at this
    exact (Option.some.inj this).symm
  have hc : l.Complete bs := ⟨by omega, by rw [hhead, hlen]⟩
  rw [← hhead] at hr
  obtain ⟨doc, rfl⟩ := scanContents_render (hlen ▸ hbs) hc hr
  refine ⟨bs, doc, hc, rfl, ?_⟩
  rw [Layout.advance_of_lt (by omega)]
  exact Spans.of_slice hbs hin

/-- A blob whose prefix says more than the event can hold moves the cursor over a
part of the prefix. -/
theorem Layout.passed_wrapped (hsum : l.size lengthPrefix = l.prefixWidth + leNat lengthPrefix)
    (hadvance : l.advance lengthPrefix = uint32 (l.size lengthPrefix)) (hwidth : l.prefixWidth ≤ 4)
    (hpre : slice? buf value l.prefixWidth = some lengthPrefix)
    (hsize : 2 ^ 32 ≤ l.size lengthPrefix) :
    ∃ bs, l.Passed bs (buf.drop (value + l.advance lengthPrefix)) ∧
      Spans buf value bs (value + l.advance lengthPrefix) := by
  have hcount := leNat_lt lengthPrefix
  rw [slice?_length hpre] at hcount
  -- The prefix has four bytes, and the width wraps to three at most.
  have hfour : l.prefixWidth = 4 := by
    by_contra hne
    have : 256 ^ l.prefixWidth ≤ 256 ^ 3 := Nat.pow_le_pow_right (by decide) (by omega)
    omega
  have hsmall : l.advance lengthPrefix < 4 := by
    rw [hfour] at hcount
    rw [hadvance, uint32]
    omega
  obtain ⟨hin, htaken⟩ := slice?_inside hpre (by omega)
  have hslice := slice?_of_le (show value + l.advance lengthPrefix ≤ buf.length by omega)
  have hspan := Spans.of_slice hslice (by omega)
  refine ⟨_, ⟨?_, ?_⟩, hspan⟩
  · rw [← hspan.2.2, List.length_drop]
    omega
  · rw [← hspan.2.2, slice?_length hslice]
    exact congrArg l.advance htaken

theorem scanField_wrapped (hwidth : l.prefixWidth ≤ 4)
    (hpre : slice? buf value l.prefixWidth = some lengthPrefix) (hlt : buf.length < 2 ^ 32)
    (hsize : 2 ^ 32 ≤ l.size lengthPrefix)
    (h : scanField lib buf disp isPartial value l = .ok cell) :
    ∃ bs doc, l.Passed bs (buf.drop (value + cell.2)) ∧ cell.1 = l.render disp doc bs ∧
      Spans buf value bs (value + cell.2) := by
  unfold scanField at h
  obtain ⟨_, htake, h⟩ := bind_eq_ok.mp h
  obtain rfl := Option.some_inj.mp (hpre.symm.trans (takeAt_eq_ok htake))
  obtain ⟨r, hr, h⟩ := bind_eq_ok.mp h
  cases h
  have hshort {n q : Nat} {bs : List UInt8} (h : slice? buf q n = some bs) (hn : 0 < n) :
      q + n < 2 ^ 32 := (slice?_inside h hn).1.trans_lt hlt
  cases l with
  | fixed width text =>
    obtain ⟨payload, hpay, -⟩ := bind_eq_ok.mp hr
    simp only [Layout.size] at hsize
    have := hshort (takeAt_eq_ok hpay) (by omega)
    omega
  | chars width =>
    obtain ⟨payload, hpay, -⟩ := bind_eq_ok.mp hr
    simp only [Layout.size, Layout.prefixWidth] at hsize hwidth
    have := hshort (takeAt_eq_ok hpay) (by omega)
    omega
  | blob width asHex =>
    obtain ⟨bs, hpassed, hspan⟩ := Layout.passed_wrapped rfl rfl hwidth hpre hsize
    refine ⟨bs, [], hpassed, ?_, hspan⟩
    simp only [Layout.size, Layout.prefixWidth] at hsize hwidth
    unfold scanContents scanBlob at hr
    unfold Layout.render
    cases hshow : disp.blobsDisplay with
    | false =>
      rw [hshow] at hr
      cases hr
      rfl
    | true =>
      rw [hshow] at hr
      cases asHex with
      | true =>
        have := (scanHex_render hr).1
        omega
      | false =>
        have := (scanRaw_render hr).1
        omega
  | json =>
    obtain ⟨bs, hpassed, hspan⟩ := Layout.passed_wrapped rfl rfl hwidth hpre hsize
    obtain ⟨doc, hdoc⟩ := scanJson_render hr
    exact ⟨bs, doc, hpassed, hdoc, hspan⟩

theorem Layout.Complete.passed {rest : List UInt8} (hc : l.Complete bs) (hlt : bs.length < 2 ^ 32) :
    l.Passed bs rest := by
  obtain ⟨hwidth, hsize⟩ := hc
  refine ⟨by rw [List.length_append]; omega, ?_⟩
  rw [List.take_append_of_le_length hwidth, Layout.advance_of_lt (hsize ▸ hlt)]
  exact hsize

end

/-- What the walk makes of the fields of a column: bytes that keep the rule. -/
def Library.Walks (lib : Library) (rule : FieldRule) (buf : List UInt8) (col : Column) : Prop :=
  ∀ (a : ImageArgs) (i value : Nat) (isPartial : Bool) (cell : Rendered × Nat), value ≤ buf.length →
    scanValue lib buf a col i isPartial value = .ok cell →
    ∃ bs doc, rule (col.layout lib (unsignedAt a.colInfo i) a.disp) isPartial bs doc
        (buf.drop (value + cell.2)) ∧
      some cell.1 =
        (col.layout lib (unsignedAt a.colInfo i) a.disp).map (fun l => l.render a.disp doc bs) ∧
      Spans buf value bs (value + cell.2)

theorem scanValue_eq_ok {a : ImageArgs} {col : Column} {isPartial : Bool} {cell : Rendered × Nat}
    {i : Nat} (hsizes : lib.FieldSize col) (hv : value ≤ buf.length) (hlt : buf.length < 2 ^ 32)
    (h : scanValue lib buf a col i isPartial value = .ok cell) :
    ∃ l lengthPrefix, col.layout lib (unsignedAt a.colInfo i) a.disp = some l ∧
      slice? buf value l.prefixWidth = some lengthPrefix ∧
      lib.calcFieldSize col.type.toNat col.metadata.toNat lengthPrefix ≤ buf.length - value ∧
      scanField lib buf a.disp isPartial value l = .ok cell := by
  obtain ⟨lengthPrefix, htake, h⟩ := bind_eq_ok.mp h
  split at h
  case isTrue => cases h
  case isFalse hroom =>
    obtain ⟨l, hl, h⟩ := bind_eq_ok.mp h
    have hl := reject_eq_ok hl
    rw [sizeT_sub hlt hv] at hroom
    refine ⟨l, lengthPrefix, hl, ?_, by omega, h⟩
    rw [← (hsizes _ _ l hl).1]
    exact takeAt_eq_ok htake

/-- Where the widths are exact the fields are complete. -/
theorem Library.ExactSize.walks {col : Column} (hexact : lib.ExactSize col) (hlt : buf.length < 2 ^ 32) :
    lib.Walks (FieldFits anyDoc) buf col := by
  intro a i value isPartial cell hv h
  obtain ⟨l, lengthPrefix, hl, hpre, hroom, hfield⟩ := scanValue_eq_ok hexact.fieldSize hv hlt h
  rw [(hexact _ _ l hl).2 _ (slice?_length hpre)] at hroom
  obtain ⟨bs, doc, hc, hr, hspan⟩ := scanField_complete hpre hlt (by omega) hfield
  exact ⟨bs, doc, by rw [hl]; exact FieldFits.of_complete hc, by rw [hl, hr]; rfl, hspan⟩

theorem Library.FieldSize.walks {col : Column} (hsizes : lib.FieldSize col)
    (hlt : buf.length < 2 ^ 32) : lib.Walks FieldPassed buf col := by
  intro a i value isPartial cell hv h
  obtain ⟨l, lengthPrefix, hl, hpre, hroom, hfield⟩ := scanValue_eq_ok hsizes hv hlt h
  rw [hl]
  by_cases hsize : l.size lengthPrefix < 2 ^ 32
  · rw [(hsizes _ _ l hl).2 _ (slice?_length hpre) hsize] at hroom
    obtain ⟨bs, doc, hc, hr, hspan⟩ := scanField_complete hpre hlt (by omega) hfield
    have hlen : bs.length < 2 ^ 32 := by
      have := hspan.1
      have := hspan.2.1
      omega
    exact ⟨bs, doc, hc.passed hlen, by rw [hr]; rfl, hspan⟩
  · obtain ⟨bs, doc, hpassed, hr, hspan⟩ :=
      scanField_wrapped (col.layout_prefixWidth hl) hpre hlt (Nat.le_of_not_lt hsize) hfield
    exact ⟨bs, doc, hpassed, by rw [hr]; rfl, hspan⟩

theorem slotsFit_slots {rule : FieldRule} {f : ImageFormat} {img : Image} {all slots : List Slot}
    {rest : List UInt8} :
    SlotsFit lib rule f { img with slots := all } cols i nullBit partialBit slots rest ↔
      SlotsFit lib rule f img cols i nullBit partialBit slots rest := by
  induction cols generalizing i nullBit partialBit slots with
  | nil => exact Iff.rfl
  | cons col cols ih => cases slots <;> simp only [SlotsFit, ih]

def NullsRendered (slots : List Slot) (row : List (Option Rendered)) : Prop :=
  ∀ k : Nat, slots[k]? = some .null → row[k]? ≠ some none

theorem NullsRendered.cons {slot : Slot} {slots : List Slot} {x : Option Rendered}
    {row : List (Option Rendered)} (h : NullsRendered slots row) (hx : slot = .null → x ≠ none) :
    NullsRendered (slot :: slots) (x :: row) := by
  intro k hk
  cases k with
  | zero =>
    cases hk
    simpa using hx rfl
  | succ k => exact h k hk

/-- The columns that were walked over are the slots of an image with these bits. -/
theorem scanColumns_complete {f : ImageFormat} {img : Image} {rule : FieldRule}
    (ha : ReadsImage buf f img a) (hwalks : ∀ col ∈ cols, lib.Walks rule buf col)
    (hnull : nullBit + bitsFrom f.bitmap i ≤ bitmapBitsSet f.bitmap)
    (hpartials : partialBit + cols.countP Column.isJson ≤ f.columns.countP Column.isJson)
    (hv : value ≤ buf.length)
    (h : scanColumns lib buf a cols i nullBit partialBit value = .ok c) :
    ∃ slots, SlotsFit lib rule f img cols i nullBit partialBit slots (buf.drop c.2) ∧
      c.1 = renderedSlots lib f cols i slots ∧ NullsRendered slots c.1 ∧
      Spans buf value (slots.flatMap Slot.bytes) c.2 := by
  induction cols generalizing i nullBit partialBit value c with
  | nil =>
    cases h
    exact ⟨[], rfl, rfl, by simp [NullsRendered], Spans.refl hv⟩
  | cons col cols ih =>
    obtain ⟨hcol, hwalks⟩ := List.forall_mem_cons.mp hwalks
    obtain ⟨isPartial, rest, hbit, hturn, hc⟩ := scanColumns_cons h
    rw [ha.scanPartialBit hpartials] at hbit
    cases hbit
    have hle := bitsFrom_succ_le f.bitmap i
    rw [hc]
    rw [ha.bitmap] at hturn
    rcases hturn with ⟨hset, cell, hcell, hrest, hc₁⟩ | ⟨hset, hrest, hc₁⟩
    · have hstep := bitsFrom_set hset
      unfold scanColumn at hcell
      rw [ha.nullBits nullBit (by omega), ok_bind] at hcell
      split at hcell
      case isTrue hnullbit =>
        obtain ⟨r, hr, hcell⟩ := bind_eq_ok.mp hcell
        cases hcell
        obtain ⟨slots, hslots, hrow, hnulls, hspan⟩ := ih hwalks (by omega)
          (ImageArgs.nextPartialBit_add_le hpartials) hv hrest
        refine ⟨.null :: slots, ?_, ?_, by rw [hc₁]; exact hnulls.cons (by simp), hspan⟩
        swap
        · rw [hc₁, hrow, renderedSlots, Slot.rendered, ← ha.disp, reject_eq_ok hr]
        rw [ha.slotsFit_cons, if_pos hset]
        exact ⟨hnullbit, hslots⟩
      case isFalse hnullbit =>
        obtain ⟨bs, doc, hfit, hcell₁, hfield⟩ := hcol _ _ _ _ _ hv hcell
        obtain ⟨slots, hslots, hrow, hnulls, hspan⟩ := ih hwalks (by omega)
          (ImageArgs.nextPartialBit_add_le hpartials) hfield.2.1 hrest
        rw [ha.colInfo, ha.disp] at hfit hcell₁
        refine ⟨.value bs doc :: slots, ?_, ?_, by rw [hc₁]; exact hnulls.cons (by simp),
          hfield.trans hspan⟩
        swap
        · rw [hc₁, hrow, renderedSlots, Slot.rendered, hcell₁]
        rw [ha.slotsFit_cons, if_pos hset, ← hspan.2.2]
        exact ⟨⟨by simpa using hnullbit, hfit⟩, hslots⟩
    · obtain ⟨slots, hslots, hrow, hnulls, hspan⟩ := ih hwalks (by omega)
        (ImageArgs.nextPartialBit_add_le hpartials) hv hrest
      refine ⟨.absent :: slots, ?_, by rw [hc₁, hrow]; rfl,
        by rw [hc₁]; exact hnulls.cons (by simp), hspan⟩
      rw [ha.slotsFit_cons, if_neg hset]
      exact ⟨rfl, hslots⟩

-- ---------------------------------------------------------------------------
-- Images and rows
-- ---------------------------------------------------------------------------

theorem Library.LenencLocal.encodesInt (hlaw : lib.LenencLocal) {avail : List UInt8}
    {maxLength v taken : Nat} (h : lib.netFieldLengthChecked avail maxLength = .value v taken) :
    EncodesInt lib (avail.take taken) v ∧ (avail.take taken).length = taken := by
  obtain ⟨hpos, -, havail, hlocal⟩ := hlaw _ _ _ _ h
  have hlen := List.length_take_of_le havail
  refine ⟨⟨by omega, fun rest maxLength' h1 _ => ?_⟩, hlen⟩
  rw [hlen] at h1 ⊢
  exact hlocal rest maxLength' h1

theorem scanInt_encodes (hlaw : lib.LenencLocal) {maxLength : Nat} {x : Nat × Nat}
    (hp : p ≤ buf.length) (h : scanInt lib buf p maxLength = .ok x) :
    ∃ bs, EncodesInt lib bs x.1 ∧ Spans buf p bs (p + x.2) ∧ x.2 ≤ maxLength := by
  unfold scanInt at h
  split at h
  · cases h
  · cases h
  case h_3 v taken hval =>
    cases h
    obtain ⟨-, hmax, havail, -⟩ := hlaw _ _ _ _ hval
    rw [List.length_drop] at havail
    refine ⟨(buf.drop p).take taken, (hlaw.encodesInt hval).1, ?_, hmax⟩
    exact Spans.of_slice (slice?_of_le (by omega)) (by omega)

variable {r : RowsArgs} {bitmap : List Bool} {after : Bool}

theorem scanOptions_complete (hlaw : r.typeCode = .partialUpdateRows → lib.LenencLocal)
    {x : Nat × Nat × Nat} (hv : value ≤ buf.length)
    (h : scanOptions lib buf r (after && r.typeCode == .partialUpdateRows) value = .ok x) :
    ∃ options, (if after && r.typeCode == .partialUpdateRows then EncodesInt lib options x.1
        else options = [] ∧ x.1 = 0) ∧ Spans buf value options x.2.1 ∧
      x.2.2 = x.2.1 + if partialJsonUpdates x.1 then (r.td.jsonColumnCount + 7) / 8 else 0 := by
  unfold scanOptions at h
  split at h
  case isTrue hp =>
    have htype : r.typeCode = .partialUpdateRows := by
      simp only [Bool.and_eq_true, beq_iff_eq] at hp
      exact hp.2
    obtain ⟨⟨valueOptions, taken⟩, hint, h⟩ := bind_eq_ok.mp h
    obtain ⟨options, henc, hspan, -⟩ := scanInt_encodes (hlaw htype) hv hint
    simp only at h
    split at h
    case isTrue hbits =>
      cases h
      exact ⟨options, by rw [if_pos hp]; exact henc, hspan, by rw [if_pos hbits]⟩
    case isFalse hbits =>
      cases h
      exact ⟨options, by rw [if_pos hp]; exact henc, hspan, by rw [if_neg hbits]; rfl⟩
  case isFalse hp =>
    cases h
    exact ⟨[], by rw [if_neg hp]; exact ⟨rfl, rfl⟩, Spans.refl hv, by simp [partialJsonUpdates]⟩

/-- An image that was walked over is inside the event, and its fields keep the rule. -/
theorem scanImage_complete {rule : FieldRule} (hwalks : ∀ col ∈ r.td.columns, lib.Walks rule buf col)
    (hlaw : r.typeCode = .partialUpdateRows → lib.LenencLocal)
    (hw : bitmap.length ≤ r.td.size) (hv : value ≤ buf.length)
    (h : scanImage lib buf r bitmap after value = .ok c) :
    ∃ img : Image, img.Fits lib rule (r.format bitmap after) (buf.drop c.2) ∧
      c.1 = img.rendered lib (r.format bitmap after) ∧ NullsRendered img.slots c.1 ∧
      Spans buf value img.bytes c.2 := by
  obtain ⟨⟨valueOptions, partialPtr, nullPtr⟩, hopt, hcols⟩ := bind_eq_ok.mp h
  obtain ⟨options, henc, hspan, hnullPtr⟩ := scanOptions_complete hlaw hv hopt
  simp only at henc hspan hnullPtr hcols
  -- Both vectors are inside, as their last bits were read.
  have hpart : nullPtr ≤ buf.length := by
    rw [hnullPtr]
    split
    case isTrue hbits =>
      exact vector_inside hspan.2.1 fun k hk =>
        scanColumns_partialBits hcols hbits (Nat.zero_le k) (by rwa [Nat.zero_add])
    case isFalse => exact hspan.2.1
  have hnull : nullPtr + (bitmapBitsSet bitmap + 7) / 8 ≤ buf.length :=
    vector_inside hpart fun k hk =>
      scanColumns_nullBits hcols (by rwa [Nat.zero_add]) (Nat.zero_le k) (by simpa [bitsFrom] using hk)
  have hpartSpan := Spans.of_slice (slice?_of_le (hnullPtr ▸ hpart)) (hnullPtr ▸ hpart)
  have hnullSpan := Spans.of_slice (slice?_of_le hnull) hnull
  rw [← hnullPtr] at hpartSpan
  generalize hp : (buf.drop partialPtr).take _ = partialBits at hpartSpan
  generalize hn : (buf.drop nullPtr).take _ = nullBits at hnullSpan
  have hplen : partialBits.length =
      if partialJsonUpdates valueOptions then (r.td.jsonColumnCount + 7) / 8 else 0 := by
    have := hpartSpan.1
    omega
  have hnlen : nullBits.length = (bitmapBitsSet bitmap + 7) / 8 := by
    have := hnullSpan.1
    omega
  let img : Image := { options, valueOptions, partialBits, nullBits, slots := [] }
  have ha : ReadsImage buf (r.format bitmap after) img
      { bitmap, valueOptions, partialPtr, nullPtr, colInfo := r.colInfo, disp := r.disp } := by
    refine ⟨rfl, rfl, rfl, rfl, fun hbits k hk => ?_, fun k hk => ?_⟩
    · rw [if_pos hbits] at hplen
      exact scanBit_of_slice hpartSpan.slice
        (by simp only [RowsArgs.format] at hk; rw [hplen, TableDef.jsonColumnCount]; omega)
    · exact scanBit_of_slice hnullSpan.slice (by simp only [RowsArgs.format] at hk; omega)
  obtain ⟨slots, hslots, hrow, hnulls, hslotSpan⟩ := scanColumns_complete ha hwalks
    (by simp [bitsFrom, RowsArgs.format]) (by simp [RowsArgs.format]) hnull hcols
  exact ⟨{ img with slots }, ⟨henc, hplen, hnlen, slotsFit_slots.mpr hslots⟩, hrow, hnulls,
    ((hspan.trans hpartSpan).trans hnullSpan).trans hslotSpan⟩

/-- What is known of the table and the library when the bounds are looked at. -/
structure RowsArgs.Bounded (lib : Library) (rule : FieldRule) (buf : List UInt8) (r : RowsArgs)
    (cols colsAi : List Bool) : Prop where
  walks : ∀ col ∈ r.td.columns, lib.Walks rule buf col
  lenenc : r.typeCode = .partialUpdateRows → lib.LenencLocal
  cols : cols.length = r.td.size
  colsAi : colsAi.length = r.td.size

variable {rule : FieldRule} {update : Bool} {cols colsAi : List Bool} {fuel : Nat}

def EncodedRow.NullsRendered (e : EncodedRow) (row : Row) : Prop :=
  RplListener.NullsRendered e.first.slots row.before ∧
    ∀ img ∈ e.after, RplListener.NullsRendered img.slots row.after

/-- What was walked over are images, of which each has its cells. A walk that
stops before the end of the event may leave out the last after image. -/
theorem scanRows_images {rows : List Row} {stop : Nat} (hr : r.Bounded lib rule buf cols colsAi)
    (hv : value ≤ buf.length)
    (h : scanRows lib buf r update cols colsAi fuel value = .ok (rows, stop)) :
    ∃ encoded : List EncodedRow, rows = encoded.map (EncodedRow.row lib r cols colsAi) ∧
      RowsFit lib rule r cols colsAi encoded (buf.drop stop) ∧
      (∀ e ∈ encoded, e.NullsRendered (e.row lib r cols colsAi) ∧
        (e.after.isSome = update ∨ e.after = none ∧ stop ≠ buf.length)) ∧
      Spans buf value (encoded.flatMap EncodedRow.bytes) stop := by
  induction fuel generalizing value rows with
  | zero =>
    cases h
    exact ⟨[], rfl, trivial, by simp, Spans.refl hv⟩
  | succ fuel ih =>
    unfold scanRows at h
    split at h
    case isFalse =>
      cases h
      exact ⟨[], rfl, trivial, by simp, Spans.refl hv⟩
    case isTrue hlast =>
      obtain ⟨⟨before, valueAfter⟩, hbefore, h⟩ := bind_eq_ok.mp h
      obtain ⟨first, hfirst, hrow, hnulls, hspan⟩ :=
        scanImage_complete hr.walks hr.lenenc hr.cols.le hv hbefore
      simp only at h hfirst hrow hnulls hspan
      rw [hrow] at hnulls
      have hnulls₁ : EncodedRow.NullsRendered ⟨first, none⟩
          (EncodedRow.row lib r cols colsAi ⟨first, none⟩) := ⟨hnulls, by simp⟩
      -- A row without an after image, with some bytes behind it.
      have hone {more : List UInt8} (hmore : buf.drop valueAfter = more) :
          EncodedRow.Fits lib rule r cols colsAi ⟨first, none⟩ more :=
        ⟨by simpa [hmore] using hfirst, by simp⟩
      split at h
      case isTrue hempty =>
        cases h
        rw [hempty] at hspan
        exact ⟨[⟨first, none⟩], by simp [EncodedRow.row, hrow],
          ⟨hone (by rw [hempty]; rfl), trivial⟩,
          by simpa using ⟨hnulls₁, .inr (by omega)⟩,
          by simpa [EncodedRow.bytes] using hspan⟩
      split at h
      case isTrue hup =>
        obtain ⟨⟨after, valueNext⟩, hafter, h⟩ := bind_eq_ok.mp h
        obtain ⟨img, himg, hrow₂, hnulls₂, hspan₂⟩ :=
          scanImage_complete hr.walks hr.lenenc hr.colsAi.le hspan.2.1 hafter
        simp only at h himg hrow₂ hnulls₂ hspan₂
        rw [hrow₂] at hnulls₂
        rw [hspan₂.2.2] at hfirst
        have hboth {more : List UInt8} (hmore : buf.drop valueNext = more) :
            EncodedRow.Fits lib rule r cols colsAi ⟨first, some img⟩ more :=
          ⟨by simpa [hmore] using hfirst, by simpa [hmore] using himg⟩
        have hnulls' : EncodedRow.NullsRendered ⟨first, some img⟩
            (EncodedRow.row lib r cols colsAi ⟨first, some img⟩) := ⟨hnulls, by simpa [EncodedRow.row] using hnulls₂⟩
        split at h
        case isTrue hempty =>
          cases h
          rw [hempty] at hspan₂
          exact ⟨[⟨first, some img⟩], by simp [EncodedRow.row, hrow, hrow₂],
            ⟨hboth (by rw [hempty]; rfl), trivial⟩,
            by simpa using ⟨hnulls', hup⟩,
            by simpa [EncodedRow.bytes] using hspan.trans hspan₂⟩
        case isFalse =>
          obtain ⟨⟨more, stop⟩, hmore, h⟩ := bind_eq_ok.mp h
          cases h
          obtain ⟨encoded, rfl, hfits, hall, hrest⟩ := ih hspan₂.2.1 hmore
          exact ⟨⟨first, some img⟩ :: encoded, by simp [EncodedRow.row, hrow, hrow₂],
            ⟨hboth hrest.2.2, hfits⟩,
            List.forall_mem_cons.mpr ⟨⟨hnulls', .inl hup.symm⟩, hall⟩,
            by simpa [EncodedRow.bytes] using hspan.trans (hspan₂.trans hrest)⟩
      case isFalse hup =>
        obtain ⟨⟨more, stop⟩, hmore, h⟩ := bind_eq_ok.mp h
        cases h
        obtain ⟨encoded, rfl, hfits, hall, hrest⟩ := ih hspan.2.1 hmore
        exact ⟨⟨first, none⟩ :: encoded, by simp [EncodedRow.row, hrow],
          ⟨hone hrest.2.2, hfits⟩,
          List.forall_mem_cons.mpr ⟨⟨hnulls₁, .inl (by simpa using hup)⟩, hall⟩,
          by simpa [EncodedRow.bytes] using hspan.trans hrest⟩

theorem scanRows_complete {rows : List Row} (hr : r.Bounded lib rule buf cols colsAi)
    (hv : value ≤ buf.length)
    (h : scanRows lib buf r update cols colsAi fuel value = .ok (rows, buf.length)) :
    ∃ encoded : List EncodedRow, rows = encoded.map (EncodedRow.row lib r cols colsAi) ∧
      RowsFit lib rule r cols colsAi encoded [] ∧
      (∀ e ∈ encoded, e.after.isSome = update ∧ e.NullsRendered (e.row lib r cols colsAi)) ∧
      Spans buf value (encoded.flatMap EncodedRow.bytes) buf.length := by
  obtain ⟨encoded, hrows, hfits, hall, hspan⟩ := scanRows_images hr hv h
  rw [List.drop_length] at hfits
  refine ⟨encoded, hrows, hfits, fun e he => ?_, hspan⟩
  obtain ⟨hnulls, hafter⟩ := hall e he
  exact ⟨hafter.resolve_right (fun h => h.2 rfl), hnulls⟩

theorem scanRows_stop {x : List Row × Nat} (hr : r.Bounded lib rule buf cols colsAi)
    (hcols : true ∈ cols) (hcolsAi : update = true → true ∈ colsAi)
    (hv : value ≤ buf.length) (hfuel : buf.length ≤ value + fuel)
    (h : scanRows lib buf r update cols colsAi fuel value = .ok x) : x.2 = buf.length := by
  induction fuel generalizing value x with
  | zero =>
    cases h
    simp only
    omega
  | succ fuel ih =>
    unfold scanRows at h
    split at h
    case isFalse =>
      cases h
      simp only
      omega
    case isTrue =>
      obtain ⟨⟨before, valueAfter⟩, hbefore, h⟩ := bind_eq_ok.mp h
      obtain ⟨first, hfirst, -, -, hspan⟩ :=
        scanImage_complete hr.walks hr.lenenc hr.cols.le hv hbefore
      have hpos := hfirst.bytes_pos hcols
      obtain ⟨hstop, hin, -⟩ := hspan
      simp only at h hstop hin
      rw [if_neg (by omega)] at h
      split at h
      case isTrue hup =>
        obtain ⟨⟨after, valueNext⟩, hafter, h⟩ := bind_eq_ok.mp h
        obtain ⟨img, himg, -, -, hstop₂, hin₂, -⟩ :=
          scanImage_complete hr.walks hr.lenenc hr.colsAi.le hin hafter
        have hpos₂ := himg.bytes_pos (hcolsAi hup)
        simp only at h hstop₂ hin₂
        rw [if_neg (by omega)] at h
        obtain ⟨⟨more, stop⟩, hmore, h⟩ := bind_eq_ok.mp h
        cases h
        exact @ih valueNext (more, stop) hin₂ (by omega) hmore
      case isFalse =>
        obtain ⟨⟨more, stop⟩, hmore, h⟩ := bind_eq_ok.mp h
        cases h
        exact @ih valueAfter (more, stop) hin (by omega) hmore

/-- The walk over the rows is good, and ends where the event does, when the
reads nobody checks are inside. -/
theorem ends_scanRows (hr : r.Bounded lib rule buf cols colsAi)
    (hexact : ∀ col ∈ r.td.columns, lib.ExactSize col) (hlt : buf.length < 2 ^ 32) (hv : value ≤ buf.length) (hfuel : buf.length ≤ value + fuel) :
    Ends (scanRows lib buf r update cols colsAi fuel value) (fun c => c.2 = buf.length) ↔
      RowsInside lib buf r update cols colsAi fuel value := by
  induction fuel generalizing value with
  | zero =>
    unfold scanRows RowsInside
    simp only [ends_ok, iff_true]
    omega
  | succ fuel ih =>
    unfold scanRows RowsInside
    split
    case isFalse hend =>
      simp only [ends_pure, hend, false_imp_iff, iff_true]
      omega
    case isTrue hlast =>
      simp only [hlast, true_imp_iff]
      rw [← ends_scanImage hexact hlt, ends_bind]
      refine ends_congr ?_
      rintro ⟨before, valueAfter⟩ hbefore
      obtain ⟨_, -, -, -, -, hin, -⟩ := scanImage_complete hr.walks hr.lenenc hr.cols.le hv hbefore
      have hle := scanImage_le hbefore
      simp only at hin hle ⊢
      split
      case isTrue hempty =>
        simp only [ends_pure, hempty, ne_eq, not_true_eq_false, false_and, iff_false]
        omega
      case isFalse hne =>
        simp only [ne_eq, hne, not_false_eq_true, true_and]
        split
        case isTrue =>
          rw [← ends_scanImage hexact hlt, ends_bind]
          refine ends_congr ?_
          rintro ⟨after, valueNext⟩ hafter
          obtain ⟨_, -, -, -, -, hin₂, -⟩ :=
            scanImage_complete hr.walks hr.lenenc hr.colsAi.le hin hafter
          have hle₂ := scanImage_le hafter
          simp only at hin₂ hle₂ ⊢
          split
          · exact ends_pure
          · rw [ends_bind]
            simp only [ends_pure]
            exact ih hin₂ (by omega)
        case isFalse =>
          rw [ends_bind]
          simp only [ends_pure]
          exact ih hin (by omega)

end RplListener
