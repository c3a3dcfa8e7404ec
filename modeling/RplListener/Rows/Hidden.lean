import RplListener.Rows.Bounds
import RplListener.Rows.Display

/-!
# Hidden payloads

With the blobs hidden the payloads of blob fields are not read. `payloads` lists
where they are, and two events that differ nowhere else are decoded alike, down
to the text of an error.
-/

namespace RplListener

open Bytes Refine

-- ---------------------------------------------------------------------------
-- Where the payloads are
-- ---------------------------------------------------------------------------

/-- A blob field of an event: its length prefix begins at `start`, its payload at
`payload`, and the cursor moves to `stop`. -/
structure BlobSpan where
  start : Nat
  payload : Nat
  stop : Nat
  deriving DecidableEq, Repr

/-- Byte `k` is in a payload, and in no length prefix. -/
def Hides (spans : List BlobSpan) (k : Nat) : Prop :=
  (∃ f ∈ spans, f.payload ≤ k ∧ k < f.stop) ∧ ∀ f ∈ spans, f.start ≤ k → f.payload ≤ k

section

variable (lib : Library) (buf : List UInt8)

/-- The spans behind a part of the walk, none where the walk ends in it. -/
def Scan.spans {α : Type} (x : Scan α) (K : α → List BlobSpan) : List BlobSpan :=
  match x with
  | .ok a => K a
  | .error _ => []

/-- The field at `value`, when it is that of a blob. -/
def fieldSpans (l : Option Layout) (value width : Nat) : List BlobSpan :=
  match l with
  | some (.blob w _) => [⟨value, value + w, value + width⟩]
  | some .json => [⟨value, value + 4, value + width⟩]
  | _ => []

def columnSpans (a : ImageArgs) (K : Nat → List BlobSpan) :
    List Column → (i nullBit partialBit value : Nat) → List BlobSpan
  | [], _, _, _, value => K value
  | col :: cols, i, nullBit, partialBit, value =>
    (scanPartialBit buf a col partialBit).spans fun isPartial =>
      let partialBit := a.nextPartialBit col partialBit
      if !bitmapIsSet a.bitmap i then columnSpans a K cols (i + 1) nullBit partialBit value
      else
        (scanBit buf a.nullPtr nullBit).spans fun isNull =>
          let own := fun width =>
            if isNull then [] else fieldSpans (col.layout lib (unsignedAt a.colInfo i) a.disp) value width
          match scanColumn lib buf a col i nullBit value isPartial with
          | .ok cell =>
            own cell.2 ++ columnSpans a K cols (i + 1) (nullBit + 1) partialBit (value + cell.2)
          -- What there is of a field that is refused.
          | .error _ => own (buf.length - value)

def imageSpans (r : RowsArgs) (bitmap : List Bool) (after : Bool) (K : Nat → List BlobSpan)
    (value : Nat) : List BlobSpan :=
  (scanOptions lib buf r (after && r.typeCode == .partialUpdateRows) value).spans
    fun (valueOptions, partialPtr, value) =>
      columnSpans lib buf
        { bitmap, valueOptions, partialPtr, nullPtr := value, colInfo := r.colInfo, disp := r.disp }
        K r.td.columns 0 0 0 (value + (bitmapBitsSet bitmap + 7) / 8)

def rowSpans (r : RowsArgs) (update : Bool) (cols colsAi : List Bool) :
    (fuel value : Nat) → List BlobSpan
  | 0, _ => []
  | fuel + 1, value =>
    if value < buf.length then
      imageSpans lib buf r cols false (fun valueAfter =>
        if valueAfter = value then []
        else if update then
          imageSpans lib buf r colsAi true (fun valueNext =>
            if valueNext = valueAfter then [] else rowSpans r update cols colsAi fuel valueNext)
            valueAfter
        else rowSpans r update cols colsAi fuel valueAfter) value
    else []

end

/-- The blob fields that the walk over the event comes to. -/
def RowsCall.payloads (lib : Library) (c : RowsCall) : List BlobSpan :=
  if c.accepted then
    rowSpans lib c.ev.mRowsBuf c.args c.update c.ev.mCols c.ev.mColsAi c.ev.mRowsBuf.length 0
  else []

variable {lib : Library} {os : Allocator} {buf buf' : List UInt8} {spans : List BlobSpan}

-- ---------------------------------------------------------------------------
-- The same bytes
-- ---------------------------------------------------------------------------

theorem readBytes_congr {p n : Nat} (hlen : buf.length = buf'.length) (h : SameAt buf buf' p n) :
    readBytes buf p n = readBytes buf' p n := by
  unfold readBytes
  rw [h.slice? hlen]

/-- From `value` on the events differ in hidden bytes only. -/
def Veiled (buf buf' : List UInt8) (spans : List BlobSpan) (value : Nat) : Prop :=
  ∀ k, value ≤ k → buf[k]? = buf'[k]? ∨ Hides spans k

/-- No span begins in front of `value`. -/
def From (value : Nat) (spans : List BlobSpan) : Prop :=
  ∀ f ∈ spans, value ≤ f.start ∧ f.start ≤ f.payload

theorem From.mono {v v' : Nat} (h : From v spans) (hle : v' ≤ v) : From v' spans := fun f hf =>
  ⟨hle.trans (h f hf).1, (h f hf).2⟩

theorem From.nil (v : Nat) : From v [] := fun _ h => by cases h

theorem From.unless {v : Nat} {c : Prop} [Decidable c] (h : From v spans) :
    From v (if c then [] else spans) := by
  split
  · exact .nil v
  · exact h

theorem Veiled.nil {value n : Nat} (h : Veiled buf buf' [] value) : SameAt buf buf' value n := by
  intro k hk _
  rcases h k hk with heq | ⟨⟨f, hf, -⟩, -⟩
  · exact heq
  · cases hf

theorem Veiled.sameAt {value v n : Nat} (h : Veiled buf buf' spans value) (hfrom : From v spans)
    (hle : value + n ≤ v) : SameAt buf buf' value n := by
  intro k hk hlt
  rcases h k hk with heq | ⟨⟨f, hf, hpayload, -⟩, -⟩
  · exact heq
  · have := hfrom f hf
    omega

theorem Veiled.skip {value v : Nat} (h : Veiled buf buf' spans value) (hle : value ≤ v) :
    Veiled buf buf' spans v := fun k hk => h k (hle.trans hk)

-- ---------------------------------------------------------------------------
-- One field
-- ---------------------------------------------------------------------------

section

variable {p : Nat} {isPartial isUnsigned : Bool} {disp : DisplayBlobs} {l : Layout}

theorem appendLoop_congr {n : Nat} {piece piece' : Nat → CellM (List UInt8)} {i count : Nat}
    (h : ∀ k, i ≤ k → k < i + count → piece k = piece' k) :
    appendLoop n piece i count = appendLoop n piece' i count := by
  induction count generalizing i with
  | zero => rfl
  | succ count ih =>
    unfold appendLoop
    rw [h i (Nat.le_refl i) (by omega), ih fun k hk hlt => h k (by omega) (by omega)]

theorem integerValue_congr {width size : Nat} {name : String} (hlen : buf.length = buf'.length)
    (h : SameAt buf buf' p width) :
    integerValue os buf p width size isUnsigned name =
      integerValue os buf' p width size isUnsigned name := by
  unfold integerValue
  rw [readBytes_congr hlen h]

theorem formattedValue_congr {width size : Nat} {text : Nat → List UInt8} {name : String}
    (hlen : buf.length = buf'.length) (h : SameAt buf buf' p width) :
    formattedValue os buf p width size text name =
      formattedValue os buf' p width size text name := by
  unfold formattedValue readUint
  rw [readBytes_congr hlen h]

theorem copiedValue_congr {width : Nat} {text : List UInt8 → List UInt8} {name : String}
    (hlen : buf.length = buf'.length) (h : SameAt buf buf' p width) :
    copiedValue os buf p width text name = copiedValue os buf' p width text name := by
  unfold copiedValue
  rw [readBytes_congr hlen h]

theorem bitsValue_congr {nbits width : Nat} {name : String} (hlen : buf.length = buf'.length)
    (hw : (nbits + 7) / 8 = width) (h : SameAt buf buf' p width) :
    bitsValue os buf p nbits name = bitsValue os buf' p nbits name := by
  unfold bitsValue myBWriteBit2
  dsimp only
  rw [appendLoop_congr fun k hk hlt => ?_]
  rw [readBytes_congr hlen (h.sub (Nat.le_add_right p (k / 8)) (by omega))]

theorem stringValue_congr {length : Nat} {name : String} (hlen : buf.length = buf'.length)
    (hpre : SameAt buf buf' p (if length < 256 then 1 else 2))
    (h : ∀ pre, slice? buf p (if length < 256 then 1 else 2) = some pre →
      SameAt buf buf' p ((Layout.chars (if length < 256 then 1 else 2)).size pre)) :
    stringValue os buf p length name = stringValue os buf' p length name := by
  unfold stringValue
  rw [myBPrintWithLength2_eq, myBPrintWithLength2_eq]
  unfold printChars readUint
  generalize (if length < 256 then 1 else 2) = width at hpre h
  have hread := readBytes_congr hlen hpre
  cases hslice : slice? buf p width with
  | none =>
    have hthrow : readBytes buf p width = throw .overread := by unfold readBytes; rw [hslice]
    rw [← hread, hthrow]
    rfl
  | some pre =>
    have hsome : readBytes buf p width = pure pre := by unfold readBytes; rw [hslice]
    rw [← hread, hsome]
    simp only [pure_bind]
    rw [appendLoop_congr fun k hk hlt => ?_]
    refine readBytes_congr hlen ((h pre hslice).sub (by omega) ?_)
    have hsize : (Layout.chars width).size pre = width + leNat pre := rfl
    omega

theorem displayBlob_hidden {length : Nat} {asHex : Bool} {name : String}
    (hhide : disp.blobsDisplay = false) : displayBlob os buf p length disp asHex name = hiddenBlob := by
  unfold displayBlob
  rw [hhide]
  rfl

theorem displayJson_hidden {length : Nat} (hhide : disp.blobsDisplay = false) :
    displayJson lib os buf p length isPartial disp = hiddenBlob := by
  unfold displayJson
  rw [hhide]
  rfl

/-- Both events have the same field at `p`, but for the payload of a blob. -/
structure SameField (buf buf' : List UInt8) (p : Nat) (l : Layout) : Prop where
  lengthPrefix : SameAt buf buf' p l.prefixWidth
  field : ¬ l.IsBlob → ∀ pre, slice? buf p l.prefixWidth = some pre → SameAt buf buf' p (l.size pre)

theorem SameField.fixed {width : Nat} {text : List UInt8 → List UInt8}
    (h : SameField buf buf' p (.fixed width text)) : SameAt buf buf' p width :=
  h.field (fun hblob => by cases hblob) [] rfl

theorem valueOfType_congr {type length metadata : Nat} (hlen : buf.length = buf'.length)
    (hhide : disp.blobsDisplay = false)
    (h : ∀ l, layoutOf lib isUnsigned disp type length metadata = some l → SameField buf buf' p l) :
    valueOfType lib os buf type length metadata (some p) isPartial isUnsigned disp =
      valueOfType lib os buf' type length metadata (some p) isPartial isUnsigned disp := by
  unfold valueOfType
  unfold layoutOf at h
  cases hcode : FieldType.ofCode type with
  | none => rfl
  | some t =>
    rw [hcode] at h
    cases t with
    | tiny | short | int24 | long | longlong => exact integerValue_congr hlen (h _ rfl).fixed
    | newdecimal | float | double | timestamp2 | datetime2 | time2 | newdate =>
      exact copiedValue_congr hlen (h _ rfl).fixed
    | timestamp | datetime | time | year => exact formattedValue_congr hlen (h _ rfl).fixed
    | bit =>
      dsimp only
      rw [bitsValue_congr hlen rfl (h _ rfl).fixed]
    | set =>
      dsimp only
      rw [bitsValue_congr hlen (show (metadata % 256 * 8 + 7) / 8 = metadata % 256 by omega) (h _ rfl).fixed]
    | enum =>
      dsimp only at h ⊢
      by_cases h1 : metadata % 256 = 1
      · simp only [if_pos h1] at h ⊢
        exact formattedValue_congr hlen (h _ rfl).fixed
      · by_cases h2 : metadata % 256 = 2
        · simp only [if_neg h1, if_pos h2] at h ⊢
          exact formattedValue_congr hlen (h _ rfl).fixed
        · simp only [if_neg h1, if_neg h2]
    | blob =>
      dsimp only at h ⊢
      by_cases hm : metadata = 1 ∨ metadata = 2 ∨ metadata = 3 ∨ metadata = 4
      · simp only [if_pos hm] at h ⊢
        have hread : readBytes buf p metadata = readBytes buf' p metadata :=
          readBytes_congr hlen (h _ rfl).lengthPrefix
        simp only [readUint, displayBlob_hidden hhide, hread]
      · simp only [if_neg hm]
    | varchar | varString | string =>
      exact stringValue_congr hlen (h _ rfl).lengthPrefix ((h _ rfl).field fun hblob => by cases hblob)
    | json =>
      dsimp only at h ⊢
      by_cases hm : metadata = 4
      · subst hm
        have hread : readBytes buf p 4 = readBytes buf' p 4 := readBytes_congr hlen (h _ rfl).lengthPrefix
        simp only [readUint, displayJson_hidden hhide, hread]
      · simp only [if_pos hm]
    | geometry =>
      dsimp only at h ⊢
      by_cases hm : metadata = 4
      · subst hm
        have hread : readBytes buf p 4 = readBytes buf' p 4 := readBytes_congr hlen (h _ rfl).lengthPrefix
        simp only [readUint, displayBlob_hidden hhide, hread]
      · simp only [if_pos hm]

theorem logEventGetValue2_congr {col : Column} {info : ColInfo} (hlen : buf.length = buf'.length)
    (hhide : disp.blobsDisplay = false)
    (h : ∀ l, col.layout lib info.isUnsigned disp = some l → SameField buf buf' p l) :
    logEventGetValue2 lib os buf (some p) col.type.toNat col.metadata.toNat isPartial info disp =
      logEventGetValue2 lib os buf' (some p) col.type.toNat col.metadata.toNat isPartial info disp :=
  valueOfType_congr hlen hhide h

theorem logEventGetValue2_null_congr {col : Column} {info : ColInfo} :
    logEventGetValue2 lib os buf none col.type.toNat col.metadata.toNat isPartial info disp =
      logEventGetValue2 lib os buf' none col.type.toNat col.metadata.toNat isPartial info disp := by
  unfold logEventGetValue2 valueOfType
  dsimp only
  cases FieldType.ofCode (realType col.type.toNat col.metadata.toNat).1 with
  | none => rfl
  | some t => cases t <;> rfl

end

-- ---------------------------------------------------------------------------
-- One column
-- ---------------------------------------------------------------------------

theorem Veiled.lengthPrefix {value n stop : Nat} (h : Veiled buf buf' spans value)
    (hmem : ⟨value, value + n, stop⟩ ∈ spans) : SameAt buf buf' value n := by
  intro k hk hlt
  rcases h k hk with heq | ⟨-, hpre⟩
  · exact heq
  · have hle : value + n ≤ k := hpre _ hmem hk
    omega

theorem Veiled.tail {own : List BlobSpan} {value v : Nat} (h : Veiled buf buf' (own ++ spans) value)
    (hown : ∀ f ∈ own, f.stop ≤ v) (hle : value ≤ v) : Veiled buf buf' spans v := by
  intro k hk
  rcases h k (hle.trans hk) with heq | ⟨⟨f, hf, hpayload, hstop⟩, hpre⟩
  · exact .inl heq
  · refine .inr ⟨?_, fun f hf => hpre f (List.mem_append_right own hf)⟩
    rcases List.mem_append.mp hf with hmem | hmem
    · have := hown f hmem
      omega
    · exact ⟨f, hmem, hpayload, hstop⟩

theorem fieldSpans_mem {l : Option Layout} {value width : Nat} {f : BlobSpan}
    (h : f ∈ fieldSpans l value width) :
    f.start = value ∧ value ≤ f.payload ∧ f.stop = value + width := by
  unfold fieldSpans at h
  split at h
  case h_1 | h_2 =>
    rw [List.mem_singleton] at h
    subst h
    exact ⟨rfl, Nat.le_add_right _ _, rfl⟩
  case h_3 => cases h

variable {a : ImageArgs} {col : Column} {i nullBit partialBit value : Nat} {isPartial : Bool}

theorem scanValue_ok {x : Rendered × Nat} (h : scanValue lib buf a col i isPartial value = .ok x) :
    ∃ l pre, col.layout lib (unsignedAt a.colInfo i) a.disp = some l ∧
      slice? buf value l.prefixWidth = some pre ∧ x.2 = l.advance pre := by
  obtain ⟨_, -, h⟩ := bind_eq_ok.mp h
  split at h
  · cases h
  obtain ⟨l, hl, h⟩ := bind_eq_ok.mp h
  obtain ⟨pre, hpre, h⟩ := bind_eq_ok.mp h
  obtain ⟨r, -, h⟩ := bind_eq_ok.mp h
  cases h
  refine ⟨l, pre, ?_, takeAt_eq_ok hpre, rfl⟩
  unfold reject at hl
  split at hl
  · cases hl
    assumption
  · cases hl

theorem SameField.of_blob {l : Layout} {width : Nat} (hblob : l.IsBlob)
    (h : Veiled buf buf' (fieldSpans (some l) value width ++ spans) value) :
    SameField buf buf' value l := by
  refine ⟨?_, fun hnot => absurd hblob hnot⟩
  cases hblob with
  | blob w asHex => exact h.lengthPrefix (List.mem_append_left _ (List.mem_singleton_self _))
  | json => exact h.lengthPrefix (List.mem_append_left _ (List.mem_singleton_self _))

theorem fieldSpans_plain {l : Layout} {width : Nat} (h : ¬ l.IsBlob) :
    fieldSpans (some l) value width = [] := by
  cases l with
  | blob w asHex => exact absurd (.blob w asHex) h
  | json => exact absurd .json h
  | fixed | chars => rfl

/-- The column's field at `value` is the same in both events, but for the payload of
a blob. -/
def SameColumn (lib : Library) (buf buf' : List UInt8) (a : ImageArgs) (col : Column)
    (i value : Nat) : Prop :=
  SameAt buf buf' value (lib.calcFieldSizeReads col.type.toNat col.metadata.toNat) ∧
    ∀ l, col.layout lib (unsignedAt a.colInfo i) a.disp = some l → SameField buf buf' value l

theorem SameField.column {l : Layout} (hsize : lib.FieldSize col)
    (hl : col.layout lib (unsignedAt a.colInfo i) a.disp = some l) (h : SameField buf buf' value l) :
    SameColumn lib buf buf' a col i value := by
  refine ⟨by rw [(hsize _ _ l hl).1]; exact h.lengthPrefix, fun l' hl' => ?_⟩
  rw [hl] at hl'
  cases hl'
  exact h

theorem Veiled.sameColumn {x : Rendered × Nat} (hsize : lib.FieldSize col)
    (hx : scanValue lib buf a col i isPartial value = .ok x) (hfrom : From (value + x.2) spans)
    (h : Veiled buf buf'
      (fieldSpans (col.layout lib (unsignedAt a.colInfo i) a.disp) value x.2 ++ spans) value) :
    SameColumn lib buf buf' a col i value := by
  obtain ⟨l, pre, hl, hpre, hwidth⟩ := scanValue_ok hx
  rw [hl] at h
  refine SameField.column hsize hl ?_
  by_cases hblob : l.IsBlob
  · exact .of_blob hblob h
  rw [fieldSpans_plain hblob] at h
  have hall : SameAt buf buf' value x.2 := h.sameAt hfrom (Nat.le_refl _)
  have hadvance : x.2 = l.size pre ∧ l.prefixWidth ≤ l.size pre := by
    cases l with
    | blob width asHex => exact absurd (.blob width asHex) hblob
    | json => exact absurd .json hblob
    | fixed => exact ⟨hwidth, Nat.zero_le _⟩
    | chars => exact ⟨hwidth, Nat.le_add_right _ _⟩
  rw [hadvance.1] at hall
  refine ⟨hall.sub (Nat.le_refl _) (by omega), fun _ pre' hpre' => ?_⟩
  rw [hpre] at hpre'
  cases hpre'
  exact hall

theorem Veiled.sameColumn_refused {width : Nat} (hsize : lib.FieldSize col)
    (h : Veiled buf buf' (fieldSpans (col.layout lib (unsignedAt a.colInfo i) a.disp) value width) value) :
    SameColumn lib buf buf' a col i value := by
  cases hl : col.layout lib (unsignedAt a.colInfo i) a.disp with
  | none =>
    rw [hl] at h
    exact ⟨h.nil, fun l hl' => by rw [hl] at hl'; cases hl'⟩
  | some l =>
    rw [hl] at h
    refine SameField.column hsize hl ?_
    by_cases hblob : l.IsBlob
    · exact .of_blob hblob ((List.append_nil (fieldSpans (some l) value width)).symm ▸ h)
    · rw [fieldSpans_plain hblob] at h
      exact ⟨h.nil, fun _ _ _ => h.nil⟩

theorem bitReaderGet_of_ok {ptr k : Nat} {b : Bool} (h : scanBit buf ptr k = .ok b) :
    bitReaderGet buf ptr k = pure b := by
  obtain ⟨byte, hbyte, hb⟩ := bind_eq_ok.mp h
  cases hb
  have hread : readBytes buf (ptr + k / 8) 1 = pure byte := by
    unfold readBytes
    rw [takeAt_eq_ok hbyte]
  unfold bitReaderGet
  rw [hread]
  rfl

theorem bitReaderGet_of_error {ptr k : Nat} {v : Verdict} (h : scanBit buf ptr k = .error v) :
    bitReaderGet buf ptr k = throw .overread := by
  have hread : readBytes buf (ptr + k / 8) 1 = throw .overread := by
    unfold readBytes
    cases hs : slice? buf (ptr + k / 8) 1 with
    | none => rfl
    | some byte =>
      have htake : takeAt buf (ptr + k / 8) 1 = .ok byte := by
        unfold takeAt
        rw [hs]
      unfold scanBit at h
      rw [htake] at h
      cases h
  unfold bitReaderGet
  rw [hread]
  rfl

theorem rows_throw_bind {α β : Type} (e : Halt) (f : α → RowsM β) :
    ((throw e : RowsM α) >>= f) = throw e := rfl

theorem decodeColumn_congr {xRow : CellRef} (hlen : buf.length = buf'.length)
    (hhide : a.disp.blobsDisplay = false)
    (hbit : bitReaderGet buf a.nullPtr nullBit = bitReaderGet buf' a.nullPtr nullBit)
    (hfield : scanBit buf a.nullPtr nullBit = .ok false → SameColumn lib buf buf' a col i value) :
    decodeColumn lib os buf a xRow col i nullBit value isPartial =
      decodeColumn lib os buf' a xRow col i nullBit value isPartial := by
  unfold decodeColumn
  dsimp only
  rw [← hbit]
  cases hscan : scanBit buf a.nullPtr nullBit with
  | error v => simp only [bitReaderGet_of_error hscan, rows_throw_bind]
  | ok isNull =>
    rw [bitReaderGet_of_ok hscan]
    simp only [pure_bind]
    cases isNull with
    | true =>
      have hnull : ∀ info : ColInfo, logEventGetValue2 lib os buf none col.type.toNat col.metadata.toNat
          isPartial info a.disp = logEventGetValue2 lib os buf' none col.type.toNat col.metadata.toNat
          isPartial info a.disp := fun _ => logEventGetValue2_null_congr
      simp only [if_true, hnull]
      rfl
    | false =>
      obtain ⟨hreads, hfield⟩ := hfield hscan
      have hcheck : checkFieldSize lib buf false col value = checkFieldSize lib buf' false col value := by
        unfold checkFieldSize
        dsimp only
        rw [readBytes_congr hlen hreads, hlen]
      rw [hcheck]
      cases hinfo : a.colInfo[i]? with
      | none => rfl
      | some info =>
        have hsigned : unsignedAt a.colInfo i = info.isUnsigned := by rw [unsignedAt, hinfo]; rfl
        rw [hsigned] at hfield
        simp only [Bool.false_eq_true, if_false, logEventGetValue2_congr hlen hhide hfield]

theorem atCell_ok {α : Type} {x : CellM α} {r : CellRef} {s s' : RowsState} {b : α}
    (h : (atCell r x).run s = .ok b s') : ∃ c c', x.run c = .ok b c' := by
  simp only [EStateM.run, atCell] at h
  split at h
  case h_1 id cells _ =>
    split at h
    case h_1 cell _ =>
      split at h
      case h_1 b' t hx =>
        cases h
        exact ⟨_, _, hx⟩
      case h_2 => cases h
    case h_2 => cases h
  case h_2 => cases h

/-- A column that is decoded is one the walk gets past, by as much. -/
theorem decodeColumn_scans {xRow : CellRef} {s s' : RowsState} {size : Nat}
    (h : (decodeColumn lib os buf a xRow col i nullBit value isPartial).run s = .ok size s') :
    ∃ x, scanColumn lib buf a col i nullBit value isPartial = .ok x ∧ size = x.2 := by
  obtain ⟨_, s₁, -, h⟩ := run_bind_inv h
  obtain ⟨isNull, s₂, hnull, h⟩ := run_bind_inv h
  obtain ⟨_, hscan, rfl, rfl⟩ := (@bitReaderGet_follows os _ _ a.nullPtr nullBit).ok hnull
  obtain ⟨_, s₃, hcheck, h⟩ := run_bind_inv h
  unfold scanColumn
  rw [hscan, ok_bind]
  cases hinfo : a.colInfo[i]? with
  | none =>
    rw [hinfo] at h
    cases h
  | some info =>
    rw [hinfo] at h
    obtain ⟨n, s₄, hvalue, h⟩ := run_bind_inv h
    obtain ⟨c, c', hvalue⟩ := atCell_ok hvalue
    obtain ⟨rfl, rfl⟩ := run_pure_inv h
    cases isNull with
    | true =>
      obtain ⟨x, hx, -⟩ := logEventGetValue2_null_follows.ok hvalue
      obtain ⟨r, hr, hx⟩ := bind_eq_ok.mp hx
      cases hx
      exact ⟨(r, 0), by rw [if_pos rfl, hr]; rfl, rfl⟩
    | false =>
      obtain ⟨x, hx, hsize, -⟩ := logEventGetValue2_follows.ok hvalue
      have hsigned : unsignedAt a.colInfo i = info.isUnsigned := by rw [unsignedAt, hinfo]; rfl
      refine ⟨x, ?_, hsize⟩
      obtain ⟨pre, s₅, hpre, hcheck⟩ := run_bind_inv hcheck
      obtain ⟨_, htake, rfl, rfl, -⟩ := (@atEvent_readBytes_follows os _ _ _ _).ok hpre
      rw [if_neg Bool.false_ne_true]
      unfold scanValue
      dsimp only
      rw [htake, ok_bind, hsigned]
      dsimp only at hcheck
      split at hcheck
      · cases hcheck
      case isFalse hle => rw [if_neg hle, hx]

-- ---------------------------------------------------------------------------
-- All columns
-- ---------------------------------------------------------------------------

variable {K : Nat → List BlobSpan} {cols : List Column} {n : Nat}

theorem From.walk {α : Type} {x : Scan α} {K : α → List BlobSpan}
    (h : ∀ b, x = .ok b → From value (K b)) : From value (x.spans K) := by
  cases x with
  | ok b => exact h b rfl
  | error v => exact .nil value

theorem columnSpans_from (hK : ∀ v, From v (K v)) :
    From value (columnSpans lib buf a K cols i nullBit partialBit value) := by
  induction cols generalizing i nullBit partialBit value with
  | nil => exact hK value
  | cons col cols ih =>
    unfold columnSpans
    refine From.walk fun isPartial _ => ?_
    dsimp only
    split
    case isTrue => exact ih
    case isFalse =>
      refine From.walk fun isNull _ => ?_
      have hown : ∀ width, From value (if isNull then [] else
          fieldSpans (col.layout lib (unsignedAt a.colInfo i) a.disp) value width) := fun width f hf => by
        split at hf
        case isTrue => cases hf
        case isFalse =>
          obtain ⟨hstart, hpayload, -⟩ := fieldSpans_mem hf
          omega
      split
      case h_1 x _ =>
        intro f hf
        rcases List.mem_append.mp hf with hmem | hmem
        · exact hown x.2 f hmem
        · exact ih.mono (Nat.le_add_right value x.2) f hmem
      case h_2 => exact hown _

/-- The bit vectors of an image of a table with `n` JSON columns. -/
structure SameVectors (buf buf' : List UInt8) (a : ImageArgs) (n : Nat) : Prop where
  nullBits : ∀ k < bitmapBitsSet a.bitmap,
    bitReaderGet buf a.nullPtr k = bitReaderGet buf' a.nullPtr k
  partialBits : partialJsonUpdates a.valueOptions = true → ∀ k < n,
    bitReaderGet buf a.partialPtr k = bitReaderGet buf' a.partialPtr k

theorem SameVectors.readPartialBit (h : SameVectors buf buf' a n)
    (hn : partialBit + (col :: cols).countP Column.isJson ≤ n) :
    readPartialBit buf a col partialBit = readPartialBit buf' a col partialBit := by
  unfold RplListener.readPartialBit
  split
  case isTrue hreads =>
    rw [ImageArgs.readsPartial, Bool.and_eq_true] at hreads
    rw [List.countP_cons_of_pos hreads.2] at hn
    exact h.partialBits hreads.1 partialBit (by omega)
  case isFalse => rfl

theorem columnLoop_alike {xRow : CellRef} {s : RowsState} (hlen : buf.length = buf'.length)
    (hhide : a.disp.blobsDisplay = false) (hsizes : ∀ col ∈ cols, lib.FieldSize col)
    (hK : ∀ v, From v (K v)) (hvectors : SameVectors buf buf' a n)
    (hnulls : nullBit + bitsFrom a.bitmap i ≤ bitmapBitsSet a.bitmap)
    (hpartials : partialBit + cols.countP Column.isJson ≤ n)
    (h : Veiled buf buf' (columnSpans lib buf a K cols i nullBit partialBit value) value) :
    Alike (fun v v' => v = v' ∧ value ≤ v ∧ Veiled buf buf' (K v) v)
      (columnLoop lib os buf a xRow cols i nullBit partialBit value)
      (columnLoop lib os buf' a xRow cols i nullBit partialBit value) s := by
  induction cols generalizing i nullBit partialBit value s with
  | nil => exact Alike.pure ⟨rfl, Nat.le_refl _, h⟩
  | cons col cols ih =>
    obtain ⟨hsize, hsizes⟩ := List.forall_mem_cons.mp hsizes
    have hstep := bitsFrom_succ_le a.bitmap i
    have hnext := ImageArgs.nextPartialBit_add_le (a := a) hpartials
    unfold columnSpans at h
    unfold columnLoop
    refine Alike.bind (Alike.same (P := fun b => scanPartialBit buf a col partialBit = .ok b)
      (by rw [hvectors.readPartialBit hpartials]) fun b s' hrun => ?_) ?_
    · obtain ⟨c, hc, rfl, -⟩ := (@readPartialBit_follows os _ _ a col partialBit).ok hrun
      exact hc
    rintro isPartial _ s₁ ⟨rfl, hread⟩
    rw [hread] at h
    dsimp only [Scan.spans] at h ⊢
    refine Alike.ite (fun hunset => ?_) fun hset => ?_
    · rw [if_pos hunset] at h
      exact ih hsizes (by omega) hnext h
    rw [if_neg hset] at h
    have hcount : bitsFrom a.bitmap i = bitsFrom a.bitmap (i + 1) + 1 := bitsFrom_set (by simpa using hset)
    refine Alike.bind (Alike.same
      (P := fun size => ∃ x, scanColumn lib buf a col i nullBit value isPartial = .ok x ∧ size = x.2)
      ?_ fun size s' hrun => decodeColumn_scans hrun) ?_
    · refine congrFun (decodeColumn_congr hlen hhide (hvectors.nullBits nullBit (by omega))
        fun hbit => ?_) s₁
      rw [hbit] at h
      dsimp only [Scan.spans] at h
      cases hx : scanColumn lib buf a col i nullBit value isPartial with
      | error v =>
        -- The walk ends here, so no byte behind the field may differ.
        rw [hx] at h
        exact h.sameColumn_refused hsize
      | ok x =>
        rw [hx] at h
        rw [scanColumn_value hbit] at hx
        exact h.sameColumn hsize hx (columnSpans_from hK)
    · rintro _ _ s₂ ⟨rfl, x, hx, rfl⟩
      obtain ⟨isNull, hbit, -⟩ := bind_eq_ok.mp hx
      rw [hbit, hx] at h
      dsimp only at h
      have htail := h.tail (v := value + x.2) (fun f hf => ?_) (Nat.le_add_right _ _)
      · refine (ih hsizes (by omega) hnext htail).mono ?_
        rintro v v' ⟨rfl, hle, hveiled⟩
        exact ⟨rfl, by omega, hveiled⟩
      · split at hf
        case isTrue => cases hf
        case isFalse => exact (fieldSpans_mem hf).2.2.le

-- ---------------------------------------------------------------------------
-- One image
-- ---------------------------------------------------------------------------

/-- The integer is the same where the bytes are that it takes. -/
theorem Library.LenencLocal.congr (hlaw : lib.LenencLocal) {maxLength : Nat}
    (hvalue : ∀ v taken, lib.netFieldLengthChecked (buf.drop value) maxLength = .value v taken →
      SameAt buf buf' value taken)
    (hnone : (∀ v taken, lib.netFieldLengthChecked (buf.drop value) maxLength ≠ .value v taken) →
      ∀ n, SameAt buf buf' value n) :
    lib.netFieldLengthChecked (buf.drop value) maxLength =
      lib.netFieldLengthChecked (buf'.drop value) maxLength := by
  cases hx : lib.netFieldLengthChecked (buf.drop value) maxLength with
  | value v taken =>
    obtain ⟨-, hmax, -, hlocal⟩ := hlaw _ _ _ _ hx
    have h := hlocal ((buf'.drop value).drop taken) maxLength hmax
    rw [(hvalue v taken hx).take_drop, List.take_append_drop] at h
    exact h.symm
  | failed | outside =>
    rw [← SameAt.drop (hnone (by simp [hx])), hx]

variable {r : RowsArgs} {t : RowImageType} {bitmap : List Bool}

theorem scanOptions_vectors {partialAfter : Bool} {x : Nat × Nat × Nat}
    (h : scanOptions lib buf r partialAfter value = .ok x) : value ≤ x.2.1 ∧
      x.2.2 = x.2.1 + if partialJsonUpdates x.1 then (r.td.jsonColumnCount + 7) / 8 else 0 := by
  unfold scanOptions at h
  split at h
  case isTrue =>
    obtain ⟨⟨valueOptions, taken⟩, -, h⟩ := bind_eq_ok.mp h
    dsimp only at h
    split at h
    case isTrue hbits =>
      cases h
      exact ⟨Nat.le_add_right _ _, by rw [if_pos hbits]⟩
    case isFalse hbits =>
      cases h
      exact ⟨Nat.le_add_right _ _, by rw [if_neg hbits]; rfl⟩
  case isFalse =>
    cases h
    exact ⟨Nat.le_refl _, by simp [partialJsonUpdates]⟩

theorem imageSpans_from {after : Bool} (hK : ∀ v, From v (K v)) :
    From value (imageSpans lib buf r bitmap after K value) :=
  From.walk fun _ hx => (columnSpans_from hK).mono
    (Nat.le_trans (scanOptions_le hx) (Nat.le_add_right _ _))

theorem readValueOptions_congr (hlen : buf.length = buf'.length)
    (hlaw : r.typeCode = .partialUpdateRows → lib.LenencLocal) (hK : ∀ v, From v (K v))
    (h : Veiled buf buf' (imageSpans lib buf r bitmap (decide (t = .updateAI)) K value) value) :
    readValueOptions lib buf r t value = readValueOptions lib buf' r t value := by
  unfold readValueOptions
  split
  case isFalse => rfl
  case isTrue hp =>
    unfold imageSpans scanOptions at h
    rw [if_pos (by simp [hp.1, hp.2])] at h
    unfold scanInt at h
    have hint : lib.netFieldLengthChecked (buf.drop value) (sizeT ((buf.length : Int) - value)) =
        lib.netFieldLengthChecked (buf'.drop value) (sizeT ((buf.length : Int) - value)) := by
      refine (hlaw hp.1).congr (fun v taken hv => ?_) fun hnone => ?_
      · rw [hv] at h
        refine h.sameAt (v := value + taken) (From.walk fun _ hx => (columnSpans_from hK).mono ?_)
          (Nat.le_refl _)
        rw [ok_bind] at hx
        dsimp only at hx
        split at hx <;> cases hx <;> dsimp only <;> omega
      · cases hx : lib.netFieldLengthChecked (buf.drop value) (sizeT ((buf.length : Int) - value)) with
        | value v taken => exact absurd hx (hnone v taken)
        | failed | outside =>
          rw [hx] at h
          exact fun _ => h.nil
    unfold netFieldLengthChecked
    rw [← hlen, ← hint]

theorem bitReaderGet_congr {p m ptr k : Nat} (hlen : buf.length = buf'.length)
    (h : SameAt buf buf' p m) (hp : p ≤ ptr) (hk : ptr + k / 8 < p + m) :
    bitReaderGet buf ptr k = bitReaderGet buf' ptr k := by
  have hle : p ≤ ptr + k / 8 := Nat.le_add_right_of_le hp
  unfold bitReaderGet
  rw [readBytes_congr hlen (h.sub hle (by omega))]

theorem getOneRowValues_alike {s : RowsState} (hlen : buf.length = buf'.length)
    (hhide : r.disp.blobsDisplay = false) (hsizes : ∀ col ∈ r.td.columns, lib.FieldSize col)
    (hlaw : r.typeCode = .partialUpdateRows → lib.LenencLocal) (hK : ∀ v, From v (K v))
    (h : Veiled buf buf' (imageSpans lib buf r bitmap (decide (t = .updateAI)) K value) value) :
    Alike (fun n n' => n = n' ∧ Veiled buf buf' (K (value + n)) (value + n))
      (getOneRowValues lib os buf r bitmap value t) (getOneRowValues lib os buf' r bitmap value t) s := by
  unfold getOneRowValues
  refine Alike.bind (Alike.same (P := fun x => scanOptions lib buf r
    (decide (t = .updateAI) && r.typeCode == .partialUpdateRows) value = .ok x)
    (by rw [readValueOptions_congr hlen hlaw hK h]) fun x s' hrun => ?_) ?_
  · obtain ⟨c, hc, rfl, -⟩ := (@readValueOptions_follows _ os _ _ _ _ _).ok hrun
    exact hc
  rintro ⟨valueOptions, partialPtr, nullPtr⟩ _ s₁ ⟨rfl, hscan⟩
  unfold imageSpans at h
  rw [hscan] at h
  dsimp only [Scan.spans] at h ⊢
  obtain ⟨hle, hnullPtr⟩ := scanOptions_vectors hscan
  dsimp only at hle hnullPtr
  have hnull : value ≤ nullPtr := by omega
  -- What is in front of the first field is the same in both events.
  have hfront := h.sameAt (n := nullPtr + (bitmapBitsSet bitmap + 7) / 8 - value)
    (columnSpans_from hK) (by omega)
  refine Alike.bind (Alike.refl (fun _ => rfl) _ s₁) fun _ _ s₂ _ => ?_
  refine Alike.bind (Alike.refl (R := (· = ·)) (fun _ => rfl) _ s₂) ?_
  rintro set _ s₃ rfl
  refine Alike.bind (columnLoop_alike hlen hhide hsizes hK
    (n := r.td.jsonColumnCount) ⟨fun k hk => ?_, fun hbits k hk => ?_⟩ (by simp [bitsFrom])
    (by simp [TableDef.jsonColumnCount]) (h.skip (by omega))) ?_
  · exact bitReaderGet_congr hlen hfront hnull (by dsimp only at hk ⊢; omega)
  · rw [if_pos hbits] at hnullPtr
    exact bitReaderGet_congr hlen hfront hle (by dsimp only; omega)
  · rintro v _ s₄ ⟨rfl, hv, hveiled⟩
    refine Alike.pure ⟨rfl, ?_⟩
    rw [show value + (v - value) = v by omega]
    exact hveiled

-- ---------------------------------------------------------------------------
-- All images
-- ---------------------------------------------------------------------------

variable {update : Bool} {colsAi : List Bool} {bits : List Bool} {fuel : Nat}

theorem rowSpans_from : From value (rowSpans lib buf r update bits colsAi fuel value) := by
  induction fuel generalizing value with
  | zero => exact .nil value
  | succ fuel ih =>
    unfold rowSpans
    split
    case isFalse => exact .nil value
    case isTrue =>
      refine imageSpans_from fun v => .unless ?_
      split
      · exact imageSpans_from fun v' => .unless ih
      · exact ih

theorem imageLoop_alike {first : RowImageType} {s : RowsState} (hlen : buf.length = buf'.length)
    (hhide : r.disp.blobsDisplay = false) (hsizes : ∀ col ∈ r.td.columns, lib.FieldSize col)
    (hlaw : r.typeCode = .partialUpdateRows → lib.LenencLocal) (hfirst : first ≠ .updateAI)
    (h : Veiled buf buf' (rowSpans lib buf r (first == .updateBI) bits colsAi fuel value) value) :
    Alike (· = ·) (imageLoop lib os buf r first bits colsAi fuel value)
      (imageLoop lib os buf' r first bits colsAi fuel value) s := by
  induction fuel generalizing value s with
  | zero => exact Alike.pure rfl
  | succ fuel ih =>
    unfold rowSpans at h
    unfold imageLoop
    rw [← hlen]
    refine Alike.ite (fun hv => ?_) fun _ => Alike.pure rfl
    rw [if_pos hv, show false = decide (first = .updateAI) from (decide_eq_false hfirst).symm] at h
    refine Alike.bind (getOneRowValues_alike hlen hhide hsizes hlaw (fun v => .unless ?_) h) ?_
    · split
      · exact imageSpans_from fun v' => .unless rowSpans_from
      · exact rowSpans_from
    rintro length _ s₁ ⟨rfl, h₁⟩
    refine Alike.ite (fun hlength => ?_) fun _ => Alike.pure rfl
    rw [if_neg (by omega)] at h₁
    dsimp only
    refine Alike.ite (fun hup => ?_) fun hup => ?_
    · rw [if_pos (by simpa using hup)] at h₁
      refine Alike.bind (getOneRowValues_alike (t := .updateAI) hlen hhide hsizes hlaw
        (fun v => .unless rowSpans_from) h₁) ?_
      rintro length' _ s₂ ⟨rfl, h₂⟩
      refine Alike.ite (fun hlength' => ?_) fun _ => Alike.pure rfl
      rw [if_neg (by omega)] at h₂
      exact ih h₂
    · rw [if_neg (by simpa using hup)] at h₁
      exact ih h₁

-- ---------------------------------------------------------------------------
-- A whole event
-- ---------------------------------------------------------------------------

theorem setTypeCode_ok {t : LogEventType} {first : RowImageType} {s s' : RowsState}
    (h : (setTypeCode t).run s = .ok first s') : t.firstImage = some first := by
  cases hfirst : t.firstImage with
  | none =>
    rw [setTypeCode_run_error hfirst] at h
    cases h
  | some first' =>
    rw [(setTypeCode_run hfirst).1] at h
    cases h
    rfl

theorem failIf_ok {b : Bool} {e : Halt} {s s' : RowsState} {u : Unit}
    (h : (failIf b e).run s = .ok u s') : b = false := by
  cases b with
  | false => rfl
  | true => cases h

/-- The event with other bytes, as many as before. -/
def RowsLogEvent2.withBytes (ev : RowsLogEvent2) (bytes : List UInt8)
    (hlen : ev.mRowsBuf.length = bytes.length) : RowsLogEvent2 :=
  { ev with mRowsBuf := bytes, size_lt := hlen ▸ ev.size_lt }

namespace RowsCall

/-- An event with these bytes has the same lengths, and differs in payloads only. -/
structure SameButPayloads (lib : Library) (c : RowsCall) (bytes : List UInt8) : Prop where
  length : c.ev.mRowsBuf.length = bytes.length
  bytes : ∀ k, c.ev.mRowsBuf[k]? = bytes[k]? ∨ Hides (c.payloads lib) k

variable {c : RowsCall} {bytes : List UInt8}

/-- With the blobs hidden their payloads decide nothing, not the text of an error
either. -/
theorem getRows_withBytes (hhide : c.disp.blobsDisplay = false)
    (hsizes : ∀ col ∈ c.map.columns, lib.FieldSize col)
    (hlaw : c.ev.typeCode = .partialUpdateRows → lib.LenencLocal)
    (h : c.SameButPayloads lib bytes) (os : Allocator) (s : RowsState) :
    (getRows lib os c.ev c.map c.map.mColcnt c.info c.disp).run s =
      (getRows lib os (c.ev.withBytes bytes h.length) c.map c.map.mColcnt c.info c.disp).run s := by
  refine Alike.run_eq ?_
  unfold getRows
  refine Alike.bind (Alike.same (P := fun first => c.ev.typeCode.firstImage = some first) rfl
    fun _ _ hrun => setTypeCode_ok hrun) ?_
  rintro first _ s₁ ⟨rfl, hfirst⟩
  refine Alike.bind (Alike.same (P := fun _ => ndbInfoShort c.ev = false) rfl
    fun _ _ hrun => failIf_ok hrun) ?_
  rintro _ _ s₂ ⟨-, hndb⟩
  refine Alike.bind (Alike.refl (R := (· = ·)) (fun _ => rfl) _ s₂) ?_
  rintro created _ s₃ rfl
  refine Alike.bind (Alike.refl (R := (· = ·)) (fun _ => rfl) _ s₃) ?_
  rintro _ _ s₄ -
  refine Alike.bind (Alike.same (P := fun _ => decide (c.info.1 ≠ c.map.mColcnt) = false) rfl
    fun _ _ hrun => failIf_ok hrun) ?_
  rintro _ _ s₅ ⟨-, hcount⟩
  have haccepted : c.accepted = true := by
    have hcount : c.info.1 = c.map.mColcnt := by simpa using hcount
    rw [accepted, hfirst, hndb, hcount]
    simp
  have hbytes : Veiled c.ev.mRowsBuf bytes (rowSpans lib c.ev.mRowsBuf c.args (first == .updateBI)
      c.ev.mCols c.ev.mColsAi c.ev.mRowsBuf.length 0) 0 := by
    intro k _
    have hk := h.bytes k
    rw [payloads, if_pos haccepted, update, hfirst] at hk
    exact hk
  have hempty : c.ev.mRowsBuf = [] ↔ (c.ev.withBytes bytes h.length).mRowsBuf = [] := by
    rw [← List.length_eq_zero_iff, ← List.length_eq_zero_iff, h.length]
    rfl
  refine Alike.bind (R := (· = ·)) ?_ ?_
  · by_cases hnone : first = .writeAI ∧ c.ev.mRowsBuf = []
    · rw [if_pos hnone, if_pos ⟨hnone.1, hempty.mp hnone.2⟩]
      exact Alike.pure rfl
    · rw [if_neg hnone, if_neg fun hb => hnone ⟨hb.1, hempty.mpr hb.2⟩]
      have hfuel : (c.ev.withBytes bytes h.length).mRowsBuf.length = c.ev.mRowsBuf.length :=
        h.length.symm
      rw [hfuel]
      exact imageLoop_alike (r := c.args) h.length hhide hsizes hlaw (setTypeCode_run (s := s) hfirst).2
        hbytes
  · rintro value _ s₆ rfl
    refine Alike.bind (Alike.refl (R := (· = ·)) (fun _ => rfl) _ s₆) ?_
    rintro _ _ s₇ -
    exact Alike.pure rfl

variable {os os' : Allocator} {s s' t t' : RowsState} {v v' : Nat} {disp' : DisplayBlobs}

/-- Display settings decide nothing but the cells of blob columns, and hidden
payloads decide nothing. -/
theorem display_decides_blobs (hc : c.Cached) :
    (∀ os os' s s' disp' v t, s.set.rowsCount = 0 → s'.set.rowsCount = 0 →
      (getRows lib os c.ev c.map c.map.mColcnt c.info c.disp).run s = .ok v t →
      (disp'.blobsDisplay = false → os'.Succeeds →
        ∃ v' t', (getRows lib os' c.ev c.map c.map.mColcnt c.info disp').run s' = .ok v' t') ∧
      ∀ v' t', (getRows lib os' c.ev c.map c.map.mColcnt c.info disp').run s' = .ok v' t' →
        v = v' ∧ t.set.rowsCount = t'.set.rowsCount ∧
          (t.set.rowsCount * c.map.mColcnt < 2 ^ 32 → c.SameButBlobs t.set t'.set)) ∧
    (c.disp.blobsDisplay = false → (∀ col ∈ c.map.columns, lib.FieldSize col) →
      (c.ev.typeCode = .partialUpdateRows → lib.LenencLocal) →
      ∀ bytes (h : c.SameButPayloads lib bytes) os s,
        (getRows lib os c.ev c.map c.map.mColcnt c.info c.disp).run s =
          (getRows lib os (c.ev.withBytes bytes h.length) c.map c.map.mColcnt c.info c.disp).run s) :=
  ⟨fun _ _ _ _ disp' _ _ hs hs' hrun => getRows_settings hc disp' hs hs' hrun,
    fun hhide hsizes hlaw _ h os s => getRows_withBytes hhide hsizes hlaw h os s⟩

/-- Neither payloads nor display settings decide more than the cells of blob columns. -/
theorem payloads_decide_blobs (hc : c.Cached) (hsizes : ∀ col ∈ c.map.columns, lib.FieldSize col)
    (hlaw : c.ev.typeCode = .partialUpdateRows → lib.LenencLocal) (hhide : c.disp.blobsDisplay = false)
    (h : c.SameButPayloads lib bytes) {disp disp' : DisplayBlobs} (hs : s.set.rowsCount = 0)
    (hs' : s'.set.rowsCount = 0)
    (hrun : (getRows lib os c.ev c.map c.map.mColcnt c.info disp).run s = .ok v t)
    (hrun' : (getRows lib os' (c.ev.withBytes bytes h.length) c.map c.map.mColcnt c.info disp').run s' =
      .ok v' t') :
    v = v' ∧ t.set.rowsCount = t'.set.rowsCount ∧
      (t.set.rowsCount * c.map.mColcnt < 2 ^ 32 → c.SameButBlobs t.set t'.set) := by
  obtain ⟨os₀, hos⟩ := Allocator.exists_succeeds
  have hfirst := @getRows_settings lib { c with disp } os os₀ s ⟨{}, {}⟩ t v hc c.disp hs rfl hrun
  have hsecond := @getRows_settings lib { c with ev := c.ev.withBytes bytes h.length, disp := disp' }
    os' os₀ s' ⟨{}, {}⟩ t' v' hc c.disp hs' rfl hrun'
  obtain ⟨v₀, t₀, hhidden⟩ := hfirst.1 hhide hos
  obtain ⟨rfl, hcount, hcells⟩ := hfirst.2 v₀ t₀ hhidden
  obtain ⟨rfl, hcount', hcells'⟩ := hsecond.2 _ t₀
    ((getRows_withBytes hhide hsizes hlaw h os₀ ⟨{}, {}⟩).symm.trans hhidden)
  refine ⟨rfl, hcount.trans hcount'.symm, fun hlt => ?_⟩
  have hlt' : t'.set.rowsCount * c.map.mColcnt < 2 ^ 32 := by rwa [hcount', ← hcount]
  exact (hcells hlt).trans hcount (SameButBlobs.symm hcount' (hcells' hlt'))

end RowsCall

-- ---------------------------------------------------------------------------
-- A sample
-- ---------------------------------------------------------------------------

theorem RowsCall.Encodes.decoded {c : RowsCall} {rows : List EncodedRow} {os : Allocator}
    {s : RowsState} (h : c.Encodes lib rows) (hr : c.args.Readable lib) (hc : c.Cached)
    (hos : os.Succeeds) (hs : s.set.rowsCount = 0) : ∃ v t,
      (getRows lib os c.ev c.map c.map.mColcnt c.info c.disp).run s = .ok v t ∧
      t.set.rowsCount = rows.length := by
  have hf := getRows_follows lib os hc hs
  rw [h.scan hr] at hf
  obtain ⟨v, t, hrun, -, -, hd⟩ := hf.reaches fun _ _ _ hspare => hspare.2 hos
  exact ⟨v, t, hrun, by simpa using hd.count⟩

/-- The sample event with its documents hidden. -/
def hiddenCall : RowsCall := { sampleCall with disp := ⟨false, false, false⟩ }

theorem hiddenCall_payloads : hiddenCall.payloads sampleLibrary = [⟨1, 5, 8⟩, ⟨15, 19, 28⟩] := by
  decide +kernel

/-- Another document in the before image. -/
def otherBytes : List UInt8 := sampleRow.bytes.set 6 9

theorem otherBytes_same : hiddenCall.SameButPayloads sampleLibrary otherBytes where
  length := (List.length_set ..).symm
  bytes k := by
    by_cases hk : 6 = k
    · subst hk
      rw [hiddenCall_payloads]
      exact .inr (by unfold Hides; decide)
    · exact .inl (List.getElem?_set_ne hk).symm

/-- The documents hidden, and one of them another. -/
theorem display_decides_blobs_sample :
    (∃ v t v' t',
      (getRows sampleLibrary sampleAllocator sampleCall.ev sampleMap 3 sampleCall.info
        sampleCall.disp).run ⟨{}, {}⟩ = .ok v t ∧
      (getRows sampleLibrary sampleAllocator sampleCall.ev sampleMap 3 sampleCall.info
        hiddenCall.disp).run ⟨{}, {}⟩ = .ok v' t' ∧
      ∃ cell cell', t.set.cell? true 0 0 = some cell ∧ t'.set.cell? true 0 0 = some cell' ∧
        cell.Same cell') ∧
    (getRows sampleLibrary sampleAllocator hiddenCall.ev sampleMap 3 sampleCall.info
        hiddenCall.disp).run ⟨{}, {}⟩ =
      (getRows sampleLibrary sampleAllocator
        (hiddenCall.ev.withBytes otherBytes otherBytes_same.length) sampleMap 3 sampleCall.info
        hiddenCall.disp).run ⟨{}, {}⟩ := by
  have hos : sampleAllocator.Succeeds := fun _ => rfl
  obtain ⟨v, t, hrun, hcount⟩ := @sampleCall_encodes.decoded _ _ _ sampleAllocator ⟨{}, {}⟩
    sampleCall_readable sampleCall_cached hos rfl
  have hcount : t.set.rowsCount = 1 := hcount
  obtain ⟨hreaches, hsame⟩ := (@RowsCall.display_decides_blobs sampleLibrary sampleCall
    sampleCall_cached).1 sampleAllocator sampleAllocator ⟨{}, {}⟩ ⟨{}, {}⟩ hiddenCall.disp v t rfl rfl hrun
  obtain ⟨v', t', hrun'⟩ := hreaches rfl hos
  obtain ⟨-, -, hcells⟩ := hsame v' t' hrun'
  have hlt : t.set.rowsCount * sampleCall.map.mColcnt < 2 ^ 32 := by rw [hcount]; decide
  have hhidden := (@RowsCall.display_decides_blobs sampleLibrary hiddenCall sampleCall_cached).2 rfl
    sampleCall_readable.sizes (fun _ => sampleLibrary_lenencLocal) otherBytes otherBytes_same
    sampleAllocator ⟨{}, {}⟩
  exact ⟨⟨v, t, v', t', hrun, hrun',
    hcells hlt 0 (by rw [hcount]; decide) 0 ⟨3, 0⟩ rfl rfl true fun _ => rfl⟩, hhidden⟩

theorem otherBytes_decoded : ∃ v t,
    (getRows sampleLibrary sampleAllocator (hiddenCall.ev.withBytes otherBytes otherBytes_same.length)
      sampleMap 3 sampleCall.info sampleCall.disp).run ⟨{}, {}⟩ = .ok v t := by
  obtain ⟨v, t, hrun, -⟩ := exists_of_returned (p := fun _ t => t.set.rowsCount == 1)
    (r := (getRows sampleLibrary sampleAllocator
      (hiddenCall.ev.withBytes otherBytes otherBytes_same.length) sampleMap 3 sampleCall.info
      sampleCall.disp).run ⟨{}, {}⟩) (by decide +kernel)
  exact ⟨v, t, hrun⟩

/-- Both documents displayed: the number after the update is the same. -/
theorem payloads_decide_blobs_sample : ∃ v t v' t',
    (getRows sampleLibrary sampleAllocator sampleCall.ev sampleMap 3 sampleCall.info
      sampleCall.disp).run ⟨{}, {}⟩ = .ok v t ∧
    (getRows sampleLibrary sampleAllocator
      (hiddenCall.ev.withBytes otherBytes otherBytes_same.length) sampleMap 3 sampleCall.info
      sampleCall.disp).run ⟨{}, {}⟩ = .ok v' t' ∧
    ∃ cell cell', t.set.cell? true 0 0 = some cell ∧ t'.set.cell? true 0 0 = some cell' ∧
      cell.Same cell' := by
  have hos : sampleAllocator.Succeeds := fun _ => rfl
  obtain ⟨v, t, hrun, hcount⟩ := @sampleCall_encodes.decoded _ _ _ sampleAllocator ⟨{}, {}⟩
    sampleCall_readable sampleCall_cached hos rfl
  have hcount : t.set.rowsCount = 1 := hcount
  obtain ⟨v', t', hrun'⟩ := otherBytes_decoded
  obtain ⟨-, -, hcells⟩ := @RowsCall.payloads_decide_blobs sampleLibrary hiddenCall otherBytes
    sampleAllocator sampleAllocator ⟨{}, {}⟩ ⟨{}, {}⟩ t t' v v' sampleCall_cached
    sampleCall_readable.sizes (fun _ => sampleLibrary_lenencLocal) rfl otherBytes_same sampleCall.disp
    sampleCall.disp rfl rfl hrun hrun'
  have hlt : t.set.rowsCount * hiddenCall.map.mColcnt < 2 ^ 32 := by rw [hcount]; decide
  exact ⟨v, t, v', t', hrun, hrun',
    hcells hlt 0 (by rw [hcount]; decide) 0 ⟨3, 0⟩ rfl rfl true fun _ => rfl⟩

end RplListener
