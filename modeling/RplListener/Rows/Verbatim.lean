import RplListener.Rows.RoundTrip

/-!
# Payloads byte for byte

A raw blob is copied, a string is printed one character after the other at
`strlen` of what is there already. The copy is the payload. The printing loses
every zero byte, and the characters after it move up.
-/

namespace RplListener

open Bytes Refine

variable {lib : Library} {os : Allocator} {buf : List UInt8} {s s' : CellState}

/-- The field is delivered byte for byte: its length, its bytes from the start
of `val`, and the bytes it took of the event. -/
structure Verbatim (width : Nat) (payload : List UInt8) (size : Nat) (c : ReplLogXValue) : Prop where
  size : size = width + payload.length
  len : c.len = payload.length
  val : ∃ id bs, c.val = .block id bs ∧ bs.take payload.length = payload

/-- Behind its first zero byte there are zero bytes only. -/
def ZerosLast (bs : List UInt8) : Prop := ∃ n, bs = cstr bs ++ List.replicate n 0

def zeroFilled (n : Nat) (bs : List UInt8) : List UInt8 := bs ++ List.replicate (n - bs.length) 0

-- ---------------------------------------------------------------------------
-- The characters of a string
-- ---------------------------------------------------------------------------

theorem appendVal_zeroed {c : ReplLogXValue} {id k : Nat} {text : List UInt8} (b : UInt8)
    (hc : s.cell = { c with val := .block id (text ++ List.replicate (k + 2) 0) })
    (hz : (0 : UInt8) ∉ text) :
    ∃ s', (appendVal 2 [b]).run s = .ok () s' ∧
      s'.cell = { c with val := .block id (text ++ b :: List.replicate (k + 1) 0) } := by
  have hv : s.cell.val = .block id (text ++ List.replicate (k + 2) 0) := by rw [hc]
  have hlen : strlenVal.run s = .ok text.length s := by
    have hprinted : Printed c (text ++ List.replicate (k + 2) 0).length text s :=
      ⟨id, _, ⟨hz, List.replicate (k + 1) 0, rfl⟩, rfl, hc⟩
    exact hprinted.strlen
  have hw : snprintf? (text ++ List.replicate (k + 2) 0) text.length 2 [b] =
      some (text ++ b :: List.replicate (k + 1) 0) := by
    simp [snprintf?, List.replicate_succ]
  refine ⟨_, (run_bind_ok hlen _).trans (writeVal_run hv hw), ?_⟩
  simp [hc]

/-- The loop over the characters `bs`, `k` bytes before the end of the block. -/
theorem appendChars_zeroed {c : ReplLogXValue} {p i id : Nat} {bs : List UInt8} (k : Nat)
    (text : List UInt8) (hbs : slice? buf (p + i) bs.length = some bs) (hk : bs.length < k)
    (hc : s.cell = { c with val := .block id (text ++ List.replicate k 0) })
    (hz : (0 : UInt8) ∉ text) :
    ∃ s', (appendLoop 2 (fun i => readBytes buf (p + i) 1) i bs.length).run s = .ok () s' ∧
      s'.cell = { c with val := .block id (text ++ zeroFilled k (bs.filter (· ≠ 0))) } := by
  induction bs generalizing i k text s with
  | nil => exact ⟨s, rfl, by simpa [zeroFilled] using hc⟩
  | cons b bs ih =>
    rw [List.length_cons] at hk
    obtain ⟨k, rfl⟩ : ∃ j, k = j + 2 := ⟨k - 2, by omega⟩
    have hbyte : slice? buf (p + i) 1 = some [b] := by
      simpa using slice?_sub (k := 0) hbs (by simp : 0 + 1 ≤ (b :: bs).length)
    have htail : slice? buf (p + (i + 1)) bs.length = some bs := by
      simpa [Nat.add_assoc] using slice?_sub (k := 1) hbs (by simp [Nat.add_comm] : 1 + bs.length ≤ _)
    obtain ⟨s₁, h₁, hc₁⟩ := appendVal_zeroed b hc hz
    have hrun : ∀ s₂, (appendLoop 2 (fun i => readBytes buf (p + i) 1) (i + 1) bs.length).run s₁ =
        .ok () s₂ → (appendLoop 2 (fun i => readBytes buf (p + i) 1) i (b :: bs).length).run s =
        .ok () s₂ := by
      intro s₂ h₂
      rw [List.length_cons, appendLoop, run_bind_ok (readBytes_run hbyte), run_bind_ok h₁, h₂]
    by_cases hb : b = 0
    · subst hb
      obtain ⟨s₂, h₂, hc₂⟩ := ih (k + 2) text htail (by omega) hc₁ hz
      exact ⟨s₂, hrun s₂ h₂, by simpa using hc₂⟩
    · have hz' : (0 : UInt8) ∉ text ++ [b] := by simp [hz, Ne.symm hb]
      obtain ⟨s₂, h₂, hc₂⟩ := ih (k + 1) (text ++ [b]) htail (by omega)
        (by simpa using hc₁) hz'
      refine ⟨s₂, hrun s₂ h₂, ?_⟩
      rw [hc₂, List.filter_cons_of_pos (by simpa using hb)]
      simp [zeroFilled]

/-- A string: its characters but the zero bytes, in a block of zero bytes. -/
theorem stringValue_run {p length size : Nat} {lengthPrefix payload : List UInt8} {name : String}
    (hpre : slice? buf p (if length < 256 then 1 else 2) = some lengthPrefix)
    (hlen : leNat lengthPrefix = payload.length)
    (hpay : slice? buf (p + if length < 256 then 1 else 2) payload.length = some payload)
    (hrun : (stringValue os buf p length name).run s = .ok size s') :
    size = (if length < 256 then 1 else 2) + payload.length ∧ ∃ id, s'.cell = { s.cell with
      val := .block id (zeroFilled (payload.length + 16) (payload.filter (· ≠ 0)))
      len := int32 payload.length } := by
  unfold stringValue at hrun
  rw [run_bind_ok (readUint_run hpre), hlen] at hrun
  obtain ⟨_, s₁, hmalloc, hrun⟩ := run_bind_inv hrun
  obtain ⟨s₂, id, h₂, hc₂⟩ := memsetVal_run ((mallocVal_triple _ _).ok hmalloc)
  rw [run_bind_ok h₂] at hrun
  have hw : snprintf? (List.replicate (payload.length + 16) (0 : UInt8)) 0 2 [] =
      some (List.replicate (payload.length + 16) 0) := by
    simp [snprintf?, List.replicate_succ]
  obtain ⟨s₃, h₃, hc₃⟩ : ∃ s₃, (snprintfVal 0 2 []).run s₂ = .ok () s₃ ∧ s₃.cell = { s.cell with
      val := .block id (List.replicate (payload.length + 16) 0) } :=
    ⟨_, writeVal_run (by rw [hc₂]) hw, by simp [hc₂]⟩
  have hfirst : slice? buf ((p + if length < 256 then 1 else 2) + 0) payload.length = some payload := hpay
  obtain ⟨s₄, h₄, hc₄⟩ := appendChars_zeroed (payload.length + 16) [] hfirst (by omega) hc₃ (by simp)
  have hchars : (printChars buf p (if length < 256 then 1 else 2)).run s₃ =
      .ok (payload.length + if length < 256 then 1 else 2) s₄ := by
    rw [printChars, run_bind_ok (readUint_run hpre), hlen, run_bind_ok h₄]
    rfl
  have hprint : (myBPrintWithLength2 buf p length).run s₂ =
      .ok (payload.length + if length < 256 then 1 else 2) s₄ := by
    rw [myBPrintWithLength2, run_bind_ok h₃, ← hchars]
    split <;> rfl
  rw [run_bind_ok hprint] at hrun
  cases hrun
  exact ⟨Nat.add_comm _ _, id, by simp [hc₄]⟩

-- ---------------------------------------------------------------------------
-- Zero bytes
-- ---------------------------------------------------------------------------

/-- What is left of a payload and the zero bytes behind it begin with the
payload when its zero bytes are its last. -/
theorem take_zeroFilled_iff {payload : List UInt8} {n : Nat} (hn : payload.length ≤ n) :
    (zeroFilled n (payload.filter (· ≠ 0))).take payload.length = payload ↔ ZerosLast payload := by
  have hle : (payload.filter (· ≠ 0)).length ≤ payload.length := List.length_filter_le _ _
  have htake : (zeroFilled n (payload.filter (· ≠ 0))).take payload.length =
      payload.filter (· ≠ 0) ++
        List.replicate (payload.length - (payload.filter (· ≠ 0)).length) 0 := by
    rw [zeroFilled, List.take_append, List.take_of_length_le hle, List.take_replicate]
    congr 2
    omega
  rw [htake]
  constructor
  · intro h
    refine ⟨payload.length - (payload.filter (· ≠ 0)).length, ?_⟩
    have hcstr : cstr payload = payload.filter (· ≠ 0) := by
      conv_lhs => rw [← h]
      rw [cstr, List.takeWhile_append_of_pos fun b hb => (List.mem_filter.mp hb).2]
      cases payload.length - (payload.filter (· ≠ 0)).length <;> simp [List.replicate_succ]
    rw [hcstr, h]
  · rintro ⟨m, h⟩
    have hfilter : payload.filter (· ≠ 0) = cstr payload := by
      conv_lhs => rw [h]
      rw [List.filter_append, filter_ne_zero (cstr_ne_zero payload)]
      simp
    have hlength := congrArg List.length h
    rw [List.length_append, List.length_replicate] at hlength
    rw [hfilter, show payload.length - (cstr payload).length = m by omega, ← h]

theorem zeroFilled_verbatim_iff {width size id : Nat} {payload : List UInt8} {c : ReplLogXValue}
    (hlt : payload.length < 2 ^ 31) (hsize : size = width + payload.length) :
    Verbatim width payload size { c with
      val := .block id (zeroFilled (payload.length + 16) (payload.filter (· ≠ 0)))
      len := int32 payload.length } ↔ ZerosLast payload := by
  rw [← take_zeroFilled_iff (Nat.le_add_right payload.length 16)]
  constructor
  · rintro ⟨-, -, _, _, hval, htake⟩
    cases hval
    exact htake
  · intro h
    constructor
    · exact hsize
    · simpa using int32_of_lt hlt
    · exact ⟨id, zeroFilled (payload.length + 16) (payload.filter (· ≠ 0)), by simp, h⟩

-- ---------------------------------------------------------------------------
-- The columns
-- ---------------------------------------------------------------------------

/-- How `table_def` keeps the type and the length of a `CHAR(n)`. -/
def charMetadata (n : Nat) : Nat := ((254 ^^^ ((n &&& 0x300) >>> 4)) <<< 8) ||| (n &&& 0xff)

theorem realType_charMetadata {n : Nat} (h : n < 1024) : realType 254 (charMetadata n) = (254, n) := by
  have hall : ∀ k : Fin 1024, realType 254 (charMetadata k) = (254, (k : Nat)) := by decide +kernel
  exact hall ⟨n, h⟩

theorem valueOfType_chars {isUnsigned : Bool} {disp : DisplayBlobs} {type length metadata width : Nat}
    (h : layoutOf lib isUnsigned disp type length metadata = some (.chars width)) :
    ∃ n name, width = (if n < 256 then 1 else 2) ∧ ∀ ptr isPartial,
      valueOfType lib os buf type length metadata (some ptr) isPartial isUnsigned disp =
        stringValue os buf ptr n name := by
  unfold layoutOf at h
  unfold valueOfType
  generalize FieldType.ofCode type = fieldType at h ⊢
  cases fieldType with
  | none => cases h
  | some t =>
    cases t with
    | varchar | varString =>
      cases h
      exact ⟨metadata, "VARCHAR-MYSQL_TYPE_VAR_STRING", rfl, fun _ _ => rfl⟩
    | string =>
      cases h
      exact ⟨length, "STRING", rfl, fun _ _ => rfl⟩
    | enum | blob | json | geometry => simp at h <;> split at h <;> simp at h
    | _ => cases h

theorem layoutOf_blob {isUnsigned asHex : Bool} {disp : DisplayBlobs} {type length metadata width : Nat}
    (h : layoutOf lib isUnsigned disp type length metadata = some (.blob width asHex)) :
    0 < width ∧ width ≤ 4 := by
  unfold layoutOf at h
  generalize FieldType.ofCode type = fieldType at h
  cases fieldType with
  | none => cases h
  | some t =>
    cases t with
    | blob =>
      simp only at h
      split at h
      · cases h
        omega
      · cases h
    | geometry =>
      simp only at h
      split at h
      · cases h
        decide
      · cases h
    | enum | json => simp at h <;> split at h <;> simp at h
    | _ => cases h

/-- The layouts that are shown as their payload: strings, and blobs in raw form. -/
inductive Layout.Raw (disp : DisplayBlobs) : Layout → (width : Nat) → Prop
  | chars (width : Nat) : Layout.Raw disp (.chars width) width
  | blob (width : Nat) (shown : disp.blobsDisplay = true) : Layout.Raw disp (.blob width false) width

section

variable {ev : RowsLogEvent2} {col : Column} {p size width : Nat} {isPartial : Bool} {info : ColInfo}
  {disp : DisplayBlobs} {lengthPrefix payload : List UInt8}

theorem string_verbatim_iff (hl : col.layout lib info.isUnsigned disp = some (.chars width))
    (hwidth : lengthPrefix.length = width) (hlen : leNat lengthPrefix = payload.length)
    (hlt : payload.length < 2 ^ 31)
    (hfield : slice? ev.mRowsBuf p (lengthPrefix ++ payload).length = some (lengthPrefix ++ payload))
    (hrun : (logEventGetValue2 lib os ev.mRowsBuf (some p) col.type.toNat col.metadata.toNat isPartial
      info disp).run s = .ok size s') :
    Verbatim width payload size s'.cell ↔ ZerosLast payload := by
  unfold Column.layout at hl
  unfold logEventGetValue2 at hrun
  generalize realType col.type.toNat col.metadata.toNat = t at hl hrun
  obtain ⟨type, length⟩ := t
  obtain ⟨n, name, rfl, hvalue⟩ := @valueOfType_chars lib os ev.mRowsBuf _ _ _ _ _ _ hl
  have hpre : slice? ev.mRowsBuf p (if n < 256 then 1 else 2) = some lengthPrefix := by
    simpa [hwidth] using slice?_sub (k := 0) hfield
      (by simp [hwidth] : 0 + (if n < 256 then 1 else 2) ≤ (lengthPrefix ++ payload).length)
  have hpay : slice? ev.mRowsBuf (p + if n < 256 then 1 else 2) payload.length = some payload := by
    simpa [← hwidth] using slice?_sub (k := if n < 256 then 1 else 2) hfield
      (by simp [hwidth] : (if n < 256 then 1 else 2) + payload.length ≤ _)
  dsimp only at hrun
  rw [hvalue] at hrun
  obtain ⟨hsize, id, hc⟩ := stringValue_run hpre hlen hpay hrun
  rw [hc]
  exact zeroFilled_verbatim_iff hlt hsize

theorem blob_verbatim (hl : col.layout lib info.isUnsigned disp = some (.blob width false))
    (hshown : disp.blobsDisplay = true) (hwidth : lengthPrefix.length = width)
    (hlen : leNat lengthPrefix = payload.length) (hlt : payload.length < 2 ^ 31)
    (hfield : slice? ev.mRowsBuf p (lengthPrefix ++ payload).length = some (lengthPrefix ++ payload))
    (hrun : (logEventGetValue2 lib os ev.mRowsBuf (some p) col.type.toNat col.metadata.toNat isPartial
      info disp).run s = .ok size s') :
    Verbatim width payload size s'.cell := by
  unfold Column.layout at hl
  unfold logEventGetValue2 at hrun
  generalize realType col.type.toNat col.metadata.toNat = t at hl hrun
  obtain ⟨type, length⟩ := t
  dsimp only at hl hrun
  have hpre : slice? ev.mRowsBuf p width = some lengthPrefix := by
    simpa [hwidth] using slice?_sub (k := 0) hfield
      (by simp [hwidth] : 0 + width ≤ (lengthPrefix ++ payload).length)
  have hpay : slice? ev.mRowsBuf (p + width) payload.length = some payload := by
    simpa [← hwidth] using slice?_sub (k := width) hfield
      (by simp [hwidth] : width + payload.length ≤ (lengthPrefix ++ payload).length)
  have hfollows := @valueOfType_follows lib os ev.mRowsBuf s type length col.metadata.toNat isPartial
    info.isUnsigned disp p
  have hcontents : scanContents lib ev.mRowsBuf disp isPartial p lengthPrefix (.blob width false) =
      .ok (.text payload (int32 payload.length) (some false)) := by
    rw [scanContents, scanBlob, hshown, hlen, if_neg (by decide), if_neg (by decide), scanRaw, takeAt,
      hpay, ok_bind, if_pos (by omega)]
  have hfour := (layoutOf_blob hl).2
  have hadvance : (Layout.blob width false).advance lengthPrefix = width + payload.length := by
    simp only [Layout.advance, Layout.size, Layout.prefixWidth, hlen]
    exact uint32_of_lt (by omega)
  rw [hl, reject, ok_bind, scanField, takeAt, Layout.prefixWidth, hpre, ok_bind, hcontents, ok_bind,
    hadvance] at hfollows
  obtain ⟨_, hr, hsize, hdone⟩ := hfollows.ok hrun
  cases hr
  obtain ⟨id, tail, hcell⟩ := hdone
  constructor
  · simpa [hwidth] using hsize
  · rw [hcell]
    simpa using int32_of_lt hlt
  · exact ⟨id, _, congrArg ReplLogXValue.val hcell, by simp⟩

/-- A field of a string, or of a blob in raw form, that was decoded is delivered
byte for byte, exactly when it is a blob or its zero bytes are its last. -/
theorem logEventGetValue2_verbatim_iff {l : Layout}
    (hl : col.layout lib info.isUnsigned disp = some l) (hraw : l.Raw disp width)
    (hwidth : lengthPrefix.length = width) (hlen : leNat lengthPrefix = payload.length)
    (hlt : payload.length < 2 ^ 31)
    (hfield : slice? ev.mRowsBuf p (lengthPrefix ++ payload).length = some (lengthPrefix ++ payload))
    (hrun : (logEventGetValue2 lib os ev.mRowsBuf (some p) col.type.toNat col.metadata.toNat isPartial
      info disp).run s = .ok size s') :
    Verbatim width payload size s'.cell ↔ (l = .chars width → ZerosLast payload) := by
  cases hraw with
  | chars =>
    rw [string_verbatim_iff hl hwidth hlen hlt hfield hrun]
    exact ⟨fun h _ => h, fun h => h rfl⟩
  | blob _ hshown =>
    have h := blob_verbatim hl hshown hwidth hlen hlt hfield hrun
    exact ⟨fun _ hchars => (nomatch hchars), fun _ => h⟩

end

-- ---------------------------------------------------------------------------
-- A sample field
-- ---------------------------------------------------------------------------

def varcharColumn : Column := ⟨15, 10⟩

def stringsEvent : RowsLogEvent2 where
  typeCode := .writeRows
  when := 0
  tableId := 1
  ndbLength := none
  mCols := []
  mColsAi := []
  mRowsBuf := [2, 97, 98, 3, 97, 0, 98]
  size_lt := by decide

def stringsValue (p : Nat) : CellM Nat :=
  logEventGetValue2 sampleLibrary sampleAllocator stringsEvent.mRowsBuf (some p)
    varcharColumn.type.toNat varcharColumn.metadata.toNat false ⟨15, [], false⟩ ⟨true, false, false⟩

theorem stringsValue_run {p size : Nat}
    (h : returned (fun r _ => r == size) ((stringsValue p).run ⟨{}, .zero⟩) = true) :
    ∃ s', (stringsValue p).run ⟨{}, .zero⟩ = .ok size s' := by
  obtain ⟨r, s', hrun, hr⟩ := exists_of_returned h
  obtain rfl : r = size := by simpa using hr
  exact ⟨s', hrun⟩

theorem logEventGetValue2_verbatim_sample : ∃ s', (stringsValue 0).run ⟨{}, .zero⟩ = .ok 3 s' ∧
    Verbatim 1 [97, 98] 3 s'.cell := by
  obtain ⟨s', hrun⟩ := @stringsValue_run 0 3 (by decide +kernel)
  have hfield : slice? stringsEvent.mRowsBuf 0 ([2] ++ [97, 98]).length = some ([2] ++ [97, 98]) := rfl
  have hwidth : ([2] : List UInt8).length = 1 := rfl
  exact ⟨s', hrun, (logEventGetValue2_verbatim_iff rfl (.chars 1) hwidth rfl (by decide) hfield hrun).mpr
    fun _ => ⟨0, by decide⟩⟩

/-- `a`, a zero byte, `b` is delivered as `ab`. -/
theorem zeroByte_not_verbatim : ∃ s', (stringsValue 3).run ⟨{}, .zero⟩ = .ok 4 s' ∧
    ¬ Verbatim 1 [97, 0, 98] 4 s'.cell := by
  obtain ⟨s', hrun⟩ := @stringsValue_run 3 4 (by decide +kernel)
  have hfield : slice? stringsEvent.mRowsBuf 3 ([3] ++ [97, 0, 98]).length =
      some ([3] ++ [97, 0, 98]) := rfl
  have hwidth : ([3] : List UInt8).length = 1 := rfl
  refine ⟨s', hrun, fun hv => ?_⟩
  obtain ⟨n, h⟩ := (string_verbatim_iff rfl hwidth rfl (by decide) hfield hrun).mp hv
  have hcstr : cstr [97, 0, 98] = [97] := by decide
  rw [hcstr, List.singleton_append] at h
  have hmem : (98 : UInt8) ∈ List.replicate n 0 := by
    rw [← (List.cons.inj h).2]
    decide
  exact absurd (List.eq_of_mem_replicate hmem) (by decide)

end RplListener
