import RplListener.Lib.Numerals
import RplListener.Rows.Lengths

/-!
# What printed bytes say

A displayed BLOB in hexadecimal, a BIT and a SET are printed digit by digit
into a block that nobody has cleared. The digits are read back: hexadecimal
ones give the payload, those of a BIT its value. A SET is printed in the byte
order of a BIT, which is not its own.
-/

namespace RplListener

open Bytes Refine

variable {lib : Library} {os : Allocator} {buf : List UInt8} {s : CellState}

def ReplLogXValue.text (c : ReplLogXValue) : List UInt8 :=
  match c.val with
  | .block _ bs => cstr bs
  | _ => []

theorem Printed.text_eq {c : ReplLogXValue} {n : Nat} {text : List UInt8} (h : Printed c n text s) :
    s.cell.text = text := by
  obtain ⟨id, bs, hh, -, hc⟩ := h
  rw [ReplLogXValue.text, hc]
  exact hh.cstr_eq

theorem setLenStrlen_printed {c : ReplLogXValue} {n : Nat} {text : List UInt8}
    (h : Printed c n text s) :
    ∃ s', setLenStrlen.run s = .ok () s' ∧ Printed { c with len := int32 text.length } n text s' := by
  have hs := h.strlen
  obtain ⟨id, bs, hh, hn, hc⟩ := h
  refine ⟨_, run_bind_ok hs _, id, bs, hh, hn, ?_⟩
  simp [hc]

-- ---------------------------------------------------------------------------
-- Hexadecimal
-- ---------------------------------------------------------------------------

theorem digit?_hexDigit {d : Nat} (h : d < 16) : digit? 16 (hexDigit d) = some d := by
  have hall : ∀ d : Fin 16, digit? 16 (hexDigit d) = some d.val := by decide
  exact hall ⟨d, h⟩

theorem unhex?_hexBytes (bs : List UInt8) : unhex? (bs.flatMap hexByte) = some bs := by
  induction bs with
  | nil => rfl
  | cons b bs ih =>
    have hb := b.toNat_lt
    have hhigh := digit?_hexDigit (d := b.toNat / 16) (by omega)
    have hlow := digit?_hexDigit (d := b.toNat % 16) (by omega)
    have hsum : 16 * (b.toNat / 16) + b.toNat % 16 = b.toNat := Nat.div_add_mod _ _
    simp only [List.flatMap_cons, hexByte, List.cons_append, List.nil_append, unhex?, hhigh, hlow,
      ih, Option.bind_eq_bind, Option.bind_some, hsum, UInt8.ofNat_toNat]
    rfl

theorem hexBytes_digits {bs : List UInt8} {b : UInt8} (h : b ∈ bs.flatMap hexByte) :
    (digitValue b).isSome := by
  have hdigit : ∀ d : Fin 16, (digitValue (hexDigit d)).isSome := by decide
  obtain ⟨c, -, hb⟩ := List.mem_flatMap.mp h
  have hc := c.toNat_lt
  simp only [hexByte, List.mem_cons, List.not_mem_nil, or_false] at hb
  rcases hb with rfl | rfl
  · exact hdigit ⟨c.toNat / 16, by omega⟩
  · exact hdigit ⟨c.toNat % 16, by omega⟩

/-- A column whose values are displayed in hexadecimal, after a length prefix of
`width` bytes. -/
inductive HexColumn (disp : DisplayBlobs) : Column → Nat → Prop
  | blob {metadata : UInt16} (displayed : disp.blobsDisplay = true) (asHex : disp.blobAsHex = true)
      (packlen : metadata = 1 ∨ metadata = 2 ∨ metadata = 3 ∨ metadata = 4) :
      HexColumn disp ⟨252, metadata⟩ metadata.toNat
  | geometry (displayed : disp.blobsDisplay = true) (asHex : disp.geometryAsHex = true) :
      HexColumn disp ⟨255, 4⟩ 4

structure HexField where
  buf : List UInt8
  ptr : Nat
  col : Column
  disp : DisplayBlobs
  lengthPrefix : List UInt8
  payload : List UInt8
  column : HexColumn disp col lengthPrefix.length
  length_eq : leNat lengthPrefix = payload.length
  read : slice? buf ptr (lengthPrefix.length + payload.length) = some (lengthPrefix ++ payload)
  short : 2 * payload.length + 2 < 2 ^ 31

namespace HexField

variable (f : HexField)

def getValue (lib : Library) (os : Allocator) (isPartial : Bool) (info : ColInfo) : CellM Nat :=
  logEventGetValue2 lib os f.buf (some f.ptr) f.col.type.toNat f.col.metadata.toNat isPartial info
    f.disp

/-- The field is printed as the digits of its payload, in a block of 16 bytes
more than twice its length, or an allocation fails. -/
def Lossless (lib : Library) : Prop :=
  ∀ os isPartial info s, Triple (f.getValue lib os isPartial info) s
    (fun size s' => size = f.lengthPrefix.length + f.payload.length ∧ ∃ digits : List UInt8,
      digits.length = 2 * f.payload.length ∧ (∀ b ∈ digits, (digitValue b).isSome) ∧
      unhex? digits = some f.payload ∧
      Printed { s.cell with len := 2 * f.payload.length + 2, isHex := true }
        (2 * f.payload.length + 16) (ascii "0x" ++ digits) s')
    fun e _ => (rowsHalts os).spare e

end HexField

theorem valueOfType_blob {isUnsigned asHex : Bool} {disp : DisplayBlobs}
    {type length metadata width : Nat}
    (h : layoutOf lib isUnsigned disp type length metadata = some (.blob width asHex)) :
    ∃ name, ∀ os buf ptr isPartial,
      valueOfType lib os buf type length metadata (some ptr) isPartial isUnsigned disp = (do
        let n ← readUint buf ptr width
        displayBlob os buf (ptr + width) n disp asHex name
        pure (uint32 (n + width))) := by
  unfold layoutOf at h
  unfold valueOfType
  generalize FieldType.ofCode type = fieldType at h ⊢
  cases fieldType with
  | none => cases h
  | some t =>
    cases t with
    | blob =>
      simp only at h
      split at h
      case isTrue hm =>
        cases h
        exact ⟨"BLOB", fun _ _ _ _ => if_pos hm⟩
      case isFalse => cases h
    | geometry =>
      simp only at h
      split at h
      case isTrue hm =>
        cases h
        subst hm
        exact ⟨"GEOMETRY", fun _ _ _ _ => if_neg (not_not.mpr rfl)⟩
      case isFalse => cases h
    | enum | json => simp at h <;> split at h <;> simp at h
    | _ => cases h

theorem logEventGetValue2_blob {col : Column} {info : ColInfo} {disp : DisplayBlobs}
    {ptr width : Nat} {asHex : Bool} {lengthPrefix : List UInt8}
    (h : col.layout lib info.isUnsigned disp = some (.blob width asHex))
    (hread : slice? buf ptr width = some lengthPrefix) :
    ∃ name, ∀ os isPartial s, (logEventGetValue2 lib os buf (some ptr) col.type.toNat
        col.metadata.toNat isPartial info disp).run s = (do
      displayBlob os buf (ptr + width) (leNat lengthPrefix) disp asHex name
      pure (uint32 (leNat lengthPrefix + width)) : CellM Nat).run s := by
  unfold Column.layout at h
  unfold logEventGetValue2
  generalize realType col.type.toNat col.metadata.toNat = t at h
  obtain ⟨type, length⟩ := t
  dsimp only at h ⊢
  obtain ⟨name, hvalue⟩ := valueOfType_blob h
  refine ⟨name, fun os isPartial s => ?_⟩
  rw [hvalue]
  exact run_bind_ok (readUint_run hread) _

theorem hexBlob_printed {p : Nat} {payload : List UInt8} {desc : String}
    (hbs : slice? buf p payload.length = some payload) (hlt : payload.length * 2 + 16 < 2 ^ 32) :
    Triple
      (do
        mallocVal os (uint32 (payload.length * 2 + 16)) desc
        sprintAsHex buf p payload.length
        setLenStrlen
        setHex true : CellM Unit) s
      (fun _ s' => Printed { s.cell with len := int32 (hexText payload).length, isHex := true }
        (2 * payload.length + 16) (hexText payload) s')
      fun e _ => (rowsHalts os).spare e := by
  rw [uint32_of_lt hlt, Nat.mul_comm payload.length 2]
  refine Triple.bind (mallocVal_triple _ _) fun _ s₁ ho => ?_
  obtain ⟨s₂, h₂, hp⟩ := sprintAsHex_run hbs ho (by omega)
  obtain ⟨s₃, h₃, id, bs, hh, hn, hc⟩ := setLenStrlen_printed hp
  refine Triple.of_run (by rw [run_bind_ok h₂, run_bind_ok h₃]; rfl) ⟨id, bs, hh, hn, ?_⟩
  simp [hc]

theorem displayBlob_hex {p n : Nat} {disp : DisplayBlobs} {name : String}
    (h : disp.blobsDisplay = true) :
    displayBlob os buf p n disp true name = (do
      mallocVal os (uint32 (n * 2 + 16)) (noMem name)
      sprintAsHex buf p n
      setLenStrlen
      setHex true) := by
  unfold displayBlob
  rw [h]
  rfl

theorem HexColumn.layout {disp : DisplayBlobs} {col : Column} {width : Nat} (isUnsigned : Bool)
    (h : HexColumn disp col width) :
    disp.blobsDisplay = true ∧ col.layout lib isUnsigned disp = some (.blob width true) := by
  cases h with
  | blob hshow hhex hpack =>
    refine ⟨hshow, ?_⟩
    rcases hpack with rfl | rfl | rfl | rfl <;>
      simp [Column.layout, realType, layoutOf, FieldType.ofCode, hhex]
  | geometry hshow hhex =>
    refine ⟨hshow, ?_⟩
    simp [Column.layout, realType, layoutOf, FieldType.ofCode, hhex]

theorem HexColumn.width_le {disp : DisplayBlobs} {col : Column} {width : Nat}
    (h : HexColumn disp col width) : width ≤ 4 := by
  cases h with
  | blob _ _ hpack => rcases hpack with rfl | rfl | rfl | rfl <;> decide
  | geometry => decide

theorem HexField.lossless (lib : Library) (f : HexField) : f.Lossless lib := by
  intro os isPartial info s
  obtain ⟨hshow, hlayout⟩ := @HexColumn.layout lib _ _ _ info.isUnsigned f.column
  have hshort := f.short
  have hwidth := f.column.width_le
  have hpre : slice? f.buf f.ptr f.lengthPrefix.length = some f.lengthPrefix := by
    simpa using slice?_sub f.read (show 0 + f.lengthPrefix.length ≤ _ by omega)
  have hpay : slice? f.buf (f.ptr + f.lengthPrefix.length) f.payload.length = some f.payload := by
    simpa using slice?_sub f.read (show f.lengthPrefix.length + f.payload.length ≤ _ from le_rfl)
  obtain ⟨name, hrun⟩ := logEventGetValue2_blob hlayout hpre
  refine (Triple.congr (hrun os isPartial s)).mpr ?_
  rw [f.length_eq, displayBlob_hex hshow]
  refine Triple.bind (hexBlob_printed hpay (by omega)) fun _ s' hp => Triple.pure ⟨?_, ?_⟩
  · rw [Nat.add_comm]
    exact uint32_of_lt (by omega)
  · have hlen := BlobField.hexText_length f.payload
    have hlen32 : int32 (hexText f.payload).length = 2 * f.payload.length + 2 := by
      rw [hlen, int32_of_lt (by omega)]
      push_cast
      ring
    rw [hlen32] at hp
    refine ⟨f.payload.flatMap hexByte, ?_, fun b => hexBytes_digits, unhex?_hexBytes _, hp⟩
    rw [hexText, List.length_append, show (ascii "0x").length = 2 from rfl] at hlen
    omega

theorem sampleHex_read : slice? [2, 0, 255] 0 (([2] : List UInt8).length + [0, 255].length) =
    some ([2] ++ [0, 255]) := rfl

def sampleHex : HexField where
  buf := [2, 0, 255]
  ptr := 0
  col := ⟨252, 1⟩
  disp := ⟨true, false, true⟩
  lengthPrefix := [2]
  payload := [0, 255]
  column := .blob rfl rfl (.inl rfl)
  length_eq := rfl
  read := sampleHex_read
  short := by decide

theorem HexField.lossless_sample : ∃ digits s', (sampleHex.getValue sampleLibrary sampleAllocator false
    ⟨252, [], false⟩).run ⟨{}, .zero⟩ = .ok 3 s' ∧ unhex? digits = some [0, 255] ∧
      s'.cell.text = ascii "0x" ++ digits := by
  obtain ⟨size, s', hrun, -⟩ := exists_of_returned
    (r := (sampleHex.getValue sampleLibrary sampleAllocator false ⟨252, [], false⟩).run ⟨{}, .zero⟩)
    (p := fun _ _ => true) (by decide +kernel)
  obtain ⟨rfl, digits, -, -, hdigits, hp⟩ :=
    (HexField.lossless sampleLibrary sampleHex sampleAllocator _ _ _).ok hrun
  exact ⟨digits, s', hrun, hdigits, hp.text_eq⟩

-- ---------------------------------------------------------------------------
-- Bits
-- ---------------------------------------------------------------------------

def bitDigits (nbits : Nat) (bs : List UInt8) : List UInt8 :=
  (lastBits nbits bs).map fun b => if b then 49 else 48

theorem bitText_eq {nbits : Nat} {bs : List UInt8} (h : bs.length = (nbits + 7) / 8) :
    bitText nbits bs = 98 :: bitDigits nbits bs := by
  have hbits : (List.range' (8 * bs.length - nbits) nbits).map
      (fun k => bitAt (bs.getD (k / 8) 0) k) = lastBits nbits bs := by
    apply List.ext_getElem?
    intro k
    rw [lastBits, List.getElem?_drop, List.getElem?_map]
    by_cases hk : k < nbits
    · rw [List.getElem?_range' hk, allBits_getElem? (by omega)]
      simp [bitAt]
    · rw [List.getElem?_eq_none (by simpa using hk), List.getElem?_eq_none (by
        rw [allBits_length]
        omega)]
      rfl
  have hdigits : (fun bitnum => binDigit (bitAt (bs.getD (bitnum / 8) 0) bitnum)) =
      fun bitnum => [if bitAt (bs.getD (bitnum / 8) 0) bitnum then 49 else 48] := by
    funext bitnum
    unfold binDigit
    split <;> rfl
  rw [bitText, hdigits, ← List.map_eq_flatMap, bitDigits, ← hbits, List.map_map, ← h,
    Nat.mul_comm]
  rfl

theorem bitDigits_length {nbits : Nat} {bs : List UInt8} (h : bs.length = (nbits + 7) / 8) :
    (bitDigits nbits bs).length = nbits := by
  rw [bitDigits, List.length_map, lastBits_length (by omega)]

theorem digit?_bit (b : Bool) : digit? 2 (if b then 49 else 48) = some b.toNat := by
  cases b <;> rfl

theorem numeral?_bitDigits {nbits : Nat} {bs : List UInt8} (h : bs.length = (nbits + 7) / 8) :
    numeral? 2 (bitDigits nbits bs) = some (beNat bs % 2 ^ nbits) := by
  have hdigits : digits? 2 (bitDigits nbits bs) = some ((lastBits nbits bs).map Bool.toNat) :=
    digits?_map fun b _ => digit?_bit b
  rw [numeral?, hdigits, Option.map_some, lastBits_value (by omega)]

theorem bitDigits_eq_iff {nbits : Nat} {bs cs : List UInt8} (hb : bs.length = (nbits + 7) / 8)
    (hc : cs.length = (nbits + 7) / 8) :
    bitDigits nbits bs = bitDigits nbits cs ↔ beNat bs % 2 ^ nbits = beNat cs % 2 ^ nbits := by
  have hvb := numeral?_bitDigits hb
  have hvc := numeral?_bitDigits hc
  constructor
  · intro h
    rw [h, hvc] at hvb
    exact (Option.some_inj.mp hvb).symm
  · intro h
    rw [← lastBits_value (by omega), ← lastBits_value (by omega)] at h
    have hlt : ∀ ds : List UInt8, ∀ d ∈ ((lastBits nbits ds).map Bool.toNat).reverse, d < 2 := by
      intro ds d hd
      obtain ⟨b, -, rfl⟩ := List.mem_map.mp (List.mem_reverse.mp hd)
      exact Bool.toNat_lt b
    have hlen : ((lastBits nbits bs).map Bool.toNat).reverse.length =
        ((lastBits nbits cs).map Bool.toNat).reverse.length := by
      simp [lastBits_length, hb, hc, show nbits ≤ 8 * ((nbits + 7) / 8) by omega]
    have hrev := Nat.ofDigits_inj_of_len_eq (by decide) hlen (hlt bs) (hlt cs) h
    have hinj : ∀ b c : Bool, b.toNat = c.toNat → b = c := by decide
    have hbits := (List.map_inj_right hinj).mp (List.reverse_inj.mp hrev)
    rw [bitDigits, bitDigits, hbits]

/-- The printed bits, in a block of three bytes more than their number. -/
theorem bitsValue_printed {p nbits : Nat} {bs : List UInt8} {name : String}
    (hbs : slice? buf p ((nbits + 7) / 8) = some bs) (hlt : nbits + 1 < 2 ^ 31) :
    Triple (bitsValue os buf p nbits name) s
      (fun _ s' => Printed { s.cell with len := nbits + 1 } (nbits + 4) (98 :: bitDigits nbits bs) s')
      fun e _ => (rowsHalts os).spare e := by
  have hlen := slice?_length hbs
  unfold bitsValue
  refine Triple.bind (mallocVal_triple _ _) fun _ s₁ ho => ?_
  obtain ⟨s₂, h₂, hp⟩ := snprintf_run 2 (ascii "b") ho (by decide) (by decide)
    (by rw [show (ascii "b").length = 1 from rfl]; omega)
  have hr := @bits_readable buf p _ ((nbits + 7) / 8 * 8 - nbits) nbits _ hbs (by omega)
  obtain ⟨s₃, h₃, hp⟩ := appendLoop_run hr hp (by rw [show (ascii "b").length = 1 from rfl]; omega)
  rw [pieces_of_ne_zero fun k => binDigit_ne_zero _] at hp
  change Printed _ _ (bitText nbits bs) s₃ at hp
  obtain ⟨s₄, h₄, hp⟩ := setLenStrlen_printed hp
  have hprint : (myBWriteBit2 buf p nbits).run s₁ = .ok () s₃ := by
    rw [myBWriteBit2, run_bind_ok h₂, h₃]
  refine Triple.of_run (by rw [run_bind_ok hprint, h₄]) ?_
  rw [bitText_eq hlen, List.length_cons, bitDigits_length hlen, int32_of_lt hlt] at hp
  exact hp

def mysqlTypeBit : Nat := 16
def mysqlTypeSet : Nat := 248

structure BitField where
  buf : List UInt8
  ptr : Nat
  metadata : UInt16
  bs : List UInt8
  read : slice? buf ptr ((bitCount metadata.toNat + 7) / 8) = some bs

namespace BitField

variable (f : BitField)

def nbits : Nat := bitCount f.metadata.toNat

def value : Nat := beNat f.bs % 2 ^ f.nbits

def getValue (lib : Library) (os : Allocator) (isPartial : Bool) (info : ColInfo)
    (disp : DisplayBlobs) : CellM Nat :=
  logEventGetValue2 lib os f.buf (some f.ptr) mysqlTypeBit f.metadata.toNat isPartial info disp

/-- The text of a value: a block of `nbits + 4` bytes with the value's binary
numeral. -/
def Shown (c : ReplLogXValue) (s' : CellState) : Prop :=
  ∃ digits : List UInt8, digits.length = f.nbits ∧ numeral? 2 digits = some f.value ∧
    Printed { c with len := f.nbits + 1 } (f.nbits + 4) (98 :: digits) s'

/-- The field is shown, or an allocation fails; and two fields of one width are
shown alike exactly when they have one value. -/
def Exact (lib : Library) : Prop :=
  (∀ os isPartial info disp s, Triple (f.getValue lib os isPartial info disp) s
    (fun size s' => size = (f.nbits + 7) / 8 ∧ f.Shown s.cell s')
    fun e _ => (rowsHalts os).spare e) ∧
  ∀ (g : BitField) (os os' : Allocator) (isPartial isPartial' : Bool) (info info' : ColInfo)
    (disp disp' : DisplayBlobs) (s s' t t' : CellState) (n n' : Nat), g.nbits = f.nbits →
    (f.getValue lib os isPartial info disp).run s = .ok n t →
    (g.getValue lib os' isPartial' info' disp').run s' = .ok n' t' →
    (t.cell.text = t'.cell.text ↔ f.value = g.value)

theorem bs_length : f.bs.length = (f.nbits + 7) / 8 := slice?_length f.read

theorem nbits_lt : f.nbits + 1 < 2 ^ 31 := by
  have hm := f.metadata.toNat_lt
  unfold nbits bitCount
  omega

theorem getValue_printed (lib : Library) (os : Allocator) (isPartial : Bool) (info : ColInfo)
    (disp : DisplayBlobs) (s : CellState) :
    Triple (f.getValue lib os isPartial info disp) s
      (fun size s' => size = (f.nbits + 7) / 8 ∧
        Printed { s.cell with len := f.nbits + 1 } (f.nbits + 4) (98 :: bitDigits f.nbits f.bs) s')
      fun e _ => (rowsHalts os).spare e :=
  Triple.bind (bitsValue_printed f.read f.nbits_lt) fun _ _ hp => Triple.pure ⟨rfl, hp⟩

theorem exact (lib : Library) : f.Exact lib := by
  refine ⟨fun os isPartial info disp s => ?_, ?_⟩
  · refine (f.getValue_printed lib os isPartial info disp s).mono ?_ fun _ _ he => he
    rintro size s' ⟨hsize, hp⟩
    exact ⟨hsize, _, bitDigits_length f.bs_length, numeral?_bitDigits f.bs_length, hp⟩
  · intro g os os' isPartial isPartial' info info' disp disp' s s' t t' n n' hbits hf hg
    have hpf := ((f.getValue_printed lib os isPartial info disp s).ok hf).2.text_eq
    have hpg := ((g.getValue_printed lib os' isPartial' info' disp' s').ok hg).2.text_eq
    rw [hpf, hpg, List.cons_inj_right, hbits, value, value, hbits]
    exact bitDigits_eq_iff f.bs_length (by rw [← hbits]; exact g.bs_length)

end BitField

theorem tenBits_read (bs : List UInt8) (h : bs.length = 2) :
    slice? bs 0 ((bitCount (0x0102 : UInt16).toNat + 7) / 8) = some bs := by
  have hslice := slice?_of_le (show 0 + (bitCount (0x0102 : UInt16).toNat + 7) / 8 ≤ bs.length by
    rw [h]
    decide)
  rwa [List.drop_zero, List.take_of_length_le (by rw [h]; decide)] at hslice

def tenBits (bs : List UInt8) (h : bs.length = 2) : BitField := ⟨bs, 0, 0x0102, bs, tenBits_read bs h⟩

/-- The bits in front of the ten do not matter. -/
theorem BitField.exact_sample : ∃ t t',
    ((tenBits [2, 5] rfl).getValue sampleLibrary sampleAllocator false ⟨16, [], false⟩
      ⟨true, false, false⟩).run ⟨{}, .zero⟩ = .ok 2 t ∧
    ((tenBits [254, 5] rfl).getValue sampleLibrary sampleAllocator false ⟨16, [], false⟩
      ⟨true, false, false⟩).run ⟨{}, .zero⟩ = .ok 2 t' ∧ t.cell.text = t'.cell.text := by
  have hrun (f : BitField) (h : returned (fun n _ => n == 2) ((f.getValue sampleLibrary sampleAllocator
      false ⟨16, [], false⟩ ⟨true, false, false⟩).run ⟨{}, .zero⟩) = true) :
      ∃ t, (f.getValue sampleLibrary sampleAllocator false ⟨16, [], false⟩
        ⟨true, false, false⟩).run ⟨{}, .zero⟩ = .ok 2 t := by
    obtain ⟨n, t, ht, hn⟩ := exists_of_returned h
    obtain rfl : n = 2 := by simpa using hn
    exact ⟨t, ht⟩
  obtain ⟨t, ht⟩ := hrun (tenBits [2, 5] rfl) (by decide +kernel)
  obtain ⟨t', ht'⟩ := hrun (tenBits [254, 5] rfl) (by decide +kernel)
  have halike := (BitField.exact (tenBits [2, 5] rfl) sampleLibrary).2 (tenBits [254, 5] rfl)
    sampleAllocator sampleAllocator false false ⟨16, [], false⟩ ⟨16, [], false⟩ ⟨true, false, false⟩
    ⟨true, false, false⟩ ⟨{}, .zero⟩ ⟨{}, .zero⟩ t t' 2 2 rfl ht ht'
  exact ⟨t, t', ht, ht', halike.mpr (by decide)⟩

-- ---------------------------------------------------------------------------
-- Sets
-- ---------------------------------------------------------------------------

structure SetField where
  buf : List UInt8
  ptr : Nat
  metadata : UInt16
  bs : List UInt8
  read : slice? buf ptr (metadata.toNat % 256) = some bs

namespace SetField

variable (f : SetField)

def packlen : Nat := f.metadata.toNat % 256

def nbits : Nat := f.packlen * 8

def getValue (lib : Library) (os : Allocator) (isPartial : Bool) (info : ColInfo)
    (disp : DisplayBlobs) : CellM Nat :=
  logEventGetValue2 lib os f.buf (some f.ptr) mysqlTypeSet f.metadata.toNat isPartial info disp

/-- The value is the little-endian number, and bit `k` of it stands for member
`k`. It is shown as its binary numeral, member `k` by the `k`-th digit from the
right, or an allocation fails. -/
def Numeral (lib : Library) : Prop :=
  ∀ os isPartial info disp s, Triple (f.getValue lib os isPartial info disp) s
    (fun size s' => size = f.packlen ∧ ∃ digits : List UInt8, digits.length = f.nbits ∧
      numeral? 2 digits = some (leNat f.bs) ∧
      (∀ k < f.nbits, digits.reverse[k]? = some (if (leNat f.bs).testBit k then 49 else 48)) ∧
      Printed { s.cell with len := f.nbits + 1 } (f.nbits + 4) (98 :: digits) s')
    fun e _ => (rowsHalts os).spare e

theorem bs_length : f.bs.length = (f.nbits + 7) / 8 := by
  have hlen := slice?_length f.read
  unfold nbits packlen
  omega

theorem getValue_printed (lib : Library) (os : Allocator) (isPartial : Bool) (info : ColInfo)
    (disp : DisplayBlobs) (s : CellState) :
    Triple (f.getValue lib os isPartial info disp) s
      (fun size s' => size = f.packlen ∧
        Printed { s.cell with len := f.nbits + 1 } (f.nbits + 4) (98 :: bitDigits f.nbits f.bs) s')
      fun e _ => (rowsHalts os).spare e := by
  have hread : slice? f.buf f.ptr ((f.nbits + 7) / 8) = some f.bs := by
    rw [← f.bs_length, slice?_length f.read]
    exact f.read
  have hlt : f.nbits + 1 < 2 ^ 31 := by
    unfold nbits packlen
    omega
  exact Triple.bind (bitsValue_printed hread hlt) fun _ _ hp => Triple.pure ⟨rfl, hp⟩

/-- What the printer makes of it, the high byte first. -/
theorem numeral?_eq : numeral? 2 (bitDigits f.nbits f.bs) = some (beNat f.bs) := by
  have hlen : f.bs.length = f.packlen := slice?_length f.read
  have hlt := beNat_lt f.bs
  rw [hlen, show 256 = 2 ^ 8 from rfl, ← Nat.pow_mul, Nat.mul_comm] at hlt
  rw [numeral?_bitDigits f.bs_length, nbits, Nat.mod_eq_of_lt hlt]

theorem bitDigits_getElem? {k : Nat} (hk : k < f.nbits) :
    (bitDigits f.nbits f.bs).reverse[k]? = some (if (beNat f.bs).testBit k then 49 else 48) := by
  have hval := numeral?_bitDigits f.bs_length
  rw [f.numeral?_eq] at hval
  have hlen := f.bs_length
  rw [bitDigits, ← List.map_reverse, List.getElem?_map, lastBits_getElem? (by omega) hk,
    ← Option.some_inj.mp hval]
  rfl

/-- A SET is shown as its numeral exactly when its bytes read the same in both
directions; a SET of up to eight members is one byte. -/
theorem numeral_iff (lib : Library) : f.Numeral lib ↔ f.bs.reverse = f.bs := by
  rw [← beNat_eq_leNat_iff]
  constructor
  · intro h
    obtain ⟨os, hos⟩ := Allocator.exists_succeeds
    have hclaim := h os false ⟨0, [], false⟩ ⟨false, false, false⟩ ⟨{}, .zero⟩
    have hprint := f.getValue_printed lib os false ⟨0, [], false⟩ ⟨false, false, false⟩ ⟨{}, .zero⟩
    cases hrun : (f.getValue lib os false ⟨0, [], false⟩ ⟨false, false, false⟩).run ⟨{}, .zero⟩ with
    | error e s' => exact absurd hos (hprint.error hrun).2
    | ok size s' =>
      obtain ⟨-, digits, -, hnum, -, hp⟩ := hclaim.ok hrun
      have htext := hp.text_eq.symm.trans (hprint.ok hrun).2.text_eq
      rw [List.cons_inj_right] at htext
      rw [htext, f.numeral?_eq] at hnum
      exact Option.some_inj.mp hnum
  · intro h os isPartial info disp s
    refine (f.getValue_printed lib os isPartial info disp s).mono ?_ fun _ _ he => he
    rintro size s' ⟨hsize, hp⟩
    refine ⟨hsize, _, bitDigits_length f.bs_length, ?_, fun k hk => ?_, hp⟩
    · rw [f.numeral?_eq, h]
    · rw [f.bitDigits_getElem? hk, h]

end SetField

theorem narrowSet_read : slice? [5] 0 ((0xf801 : UInt16).toNat % 256) = some [5] := rfl

def narrowSet : SetField := ⟨[5], 0, 0xf801, [5], narrowSet_read⟩

theorem SetField.numeral_iff_sample : narrowSet.Numeral sampleLibrary :=
  (SetField.numeral_iff narrowSet sampleLibrary).mpr rfl

theorem wideSet_read : slice? [1, 0] 0 ((0xf802 : UInt16).toNat % 256) = some [1, 0] := rfl

/-- The first of nine members. -/
def wideSet : SetField := ⟨[1, 0], 0, 0xf802, [1, 0], wideSet_read⟩

theorem wideSet_not_numeral : ¬ wideSet.Numeral sampleLibrary := by
  intro h
  obtain ⟨size, s', hrun, hshown⟩ := exists_of_returned
    (r := (wideSet.getValue sampleLibrary sampleAllocator false ⟨0, [], false⟩ ⟨false, false, false⟩).run
      ⟨{}, .zero⟩) (p := fun _ s' => s'.cell.text == ascii "b0000000100000000") (by decide +kernel)
  obtain ⟨-, digits, -, hnum, -, hp⟩ := (h _ _ _ _ _).ok hrun
  rw [beq_iff_eq, hp.text_eq] at hshown
  rw [show digits = ascii "0000000100000000" from (List.cons.inj hshown).2] at hnum
  exact absurd hnum (by decide)

end RplListener
