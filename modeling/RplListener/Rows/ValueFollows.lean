import RplListener.Rows.Scan
import RplListener.Rows.Texts

/-!
# The field decoder follows the walk

`valueOfType` on a field that lies inside the event ends as `scanField` says
and leaves the rendered text in the cell. An ordinary failure is spare only
when an allocation was refused.
-/

namespace RplListener

open Bytes Refine

def Halt.verdict : Halt → Verdict
  | .error _ => .rejected
  | .overread => .overread
  | .outOfBlock => .outOfBlock

/-- A failure the walk does not speak of is one of an allocation. -/
def rowsHalts (os : Allocator) : Halts Halt Verdict where
  spare e := e.verdict = .rejected ∧ ¬ os.Succeeds
  agree e n := e.verdict = n

variable {lib : Library} {os : Allocator} {buf : List UInt8} {s : CellState}

-- ---------------------------------------------------------------------------
-- Reads
-- ---------------------------------------------------------------------------

theorem readBytes_follows (p n : Nat) :
    Follows (rowsHalts os) (readBytes buf p n) s (takeAt buf p n)
      fun bs s' c => bs = c ∧ s = s' ∧ slice? buf p n = some bs := by
  unfold readBytes takeAt
  cases h : slice? buf p n with
  | none => exact Follows.throw rfl
  | some bs => exact Follows.pure ⟨rfl, rfl, rfl⟩

theorem takeAt_eq_ok {p n : Nat} {bs : List UInt8} (h : takeAt buf p n = .ok bs) :
    slice? buf p n = some bs := by
  unfold takeAt at h
  split at h
  · cases h; assumption
  · cases h

theorem readBytes_run {p n : Nat} {bs : List UInt8} (h : slice? buf p n = some bs) :
    (readBytes buf p n).run s = .ok bs s := by
  unfold readBytes
  rw [h]
  rfl

theorem readUint_run {p n : Nat} {bs : List UInt8} (h : slice? buf p n = some bs) :
    (readUint buf p n).run s = .ok (leNat bs) s := run_bind_ok (readBytes_run h) _

theorem netFieldLengthChecked_follows (p maxLength : Nat) (desc : String) :
    Follows (rowsHalts os) (netFieldLengthChecked lib buf p maxLength desc) s
      (scanInt lib buf p maxLength) fun r s' c => r = c ∧ s = s' := by
  unfold netFieldLengthChecked scanInt
  cases lib.netFieldLengthChecked (buf.drop p) maxLength with
  | failed => exact Follows.throw rfl
  | outside => exact Follows.throw rfl
  | value v taken => exact Follows.pure ⟨rfl, rfl⟩

theorem parseBinary_follows (p length : Nat) (desc : String) :
    Follows (rowsHalts os) (parseBinary lib buf p length desc) s (scanDoc lib buf p length)
      fun r s' c => r = c ∧ s = s' := by
  unfold parseBinary scanDoc
  cases lib.parseBinary (buf.drop p) length with
  | error => exact Follows.throw rfl
  | throws what => exact Follows.throw rfl
  | outside => exact Follows.throw rfl
  | value text => exact Follows.pure ⟨rfl, rfl⟩

-- ---------------------------------------------------------------------------
-- Writes
-- ---------------------------------------------------------------------------

def CellState.withVal (s : CellState) (p : Ptr (List UInt8)) : CellState :=
  { s with cell := { s.cell with val := p } }

@[simp] theorem CellState.withVal_cell (p : Ptr (List UInt8)) :
    (s.withVal p).cell = { s.cell with val := p } := rfl

@[simp] theorem CellState.withVal_withVal (p q : Ptr (List UInt8)) :
    (s.withVal p).withVal q = s.withVal q := rfl

/-- The cell owns a block of `n` bytes and is `c` otherwise. -/
def Owns (c : ReplLogXValue) (n : Nat) (s : CellState) : Prop :=
  ∃ id bs, bs.length = n ∧ s.cell = { c with val := .block id bs }

theorem mallocVal_triple (n : Nat) (desc : String) :
    Triple (mallocVal os n desc) s (fun _ s' => Owns s.cell n s')
      fun e _ => (rowsHalts os).spare e := by
  unfold mallocVal
  have hm := @Heap.malloc_triple Halt os s.heap (fun _ _ => False) n
  cases h : (Heap.malloc os n : EStateM Halt Heap _).run s.heap with
  | error e h' => exact (hm.error h).elim
  | ok p h' =>
    have hz : (zoom CellState.heapPart (Heap.malloc os n) : CellM _).run s =
        .ok p { s with heap := h' } := by
      rw [run_zoom]
      simp only [CellState.heapPart, h]
    rcases hm.ok h with ⟨rfl, hos⟩ | ⟨id, bs, rfl, hlen⟩
    · exact Triple.of_run_error (by rw [run_bind_ok hz]; rfl) ⟨rfl, hos⟩
    · exact Triple.of_run (by rw [run_bind_ok hz]; rfl) ⟨id, bs, hlen, rfl⟩

theorem writeVal_run {id : Nat} {bs bs' : List UInt8} {write : List UInt8 → Option (List UInt8)}
    (hv : s.cell.val = .block id bs) (hw : write bs = some bs') :
    (writeVal write).run s = .ok () (s.withVal (.block id bs')) := by
  unfold writeVal
  rw [run_bind_ok (EStateM.run_get s)]
  simp only [hv, hw]
  rfl

theorem writeVal_run_error {id : Nat} {bs : List UInt8} (write : List UInt8 → Option (List UInt8))
    (hv : s.cell.val = .block id bs) (hw : write bs = none) :
    (writeVal write).run s = .error .outOfBlock s := by
  unfold writeVal
  rw [run_bind_ok (EStateM.run_get s)]
  simp only [hv, hw]
  rfl

def Printed (c : ReplLogXValue) (n : Nat) (text : List UInt8) (s : CellState) : Prop :=
  ∃ id bs, Holds bs text ∧ bs.length = n ∧ s.cell = { c with val := .block id bs }

theorem Printed.strlen {c : ReplLogXValue} {n : Nat} {text : List UInt8} (h : Printed c n text s) :
    strlenVal.run s = .ok text.length s := by
  obtain ⟨id, bs, hh, -, hc⟩ := h
  unfold strlenVal
  rw [run_bind_ok (EStateM.run_get s)]
  simp only [hc, hh.strlen]
  rfl

theorem snprintf_run {c : ReplLogXValue} {size : Nat} (n : Nat) (text : List UInt8)
    (h : Owns c size s) (hz : (0 : UInt8) ∉ text) (hn : text.length < n) (hd : text.length < size) :
    ∃ s', (snprintfVal 0 n text).run s = .ok () s' ∧ Printed c size text s' := by
  obtain ⟨id, bs, rfl, hc⟩ := h
  obtain ⟨bs', hs, hh, hl⟩ := snprintf?_start hz hn hd
  refine ⟨_, writeVal_run (by rw [hc]) hs, id, bs', hh, hl, ?_⟩
  simp [hc]

theorem setLenStrlen_run {c : ReplLogXValue} {n : Nat} {text : List UInt8} (h : Printed c n text s) :
    ∃ s' id tail, setLenStrlen.run s = .ok () s' ∧
      s'.cell = { c with val := .block id (text ++ 0 :: tail), len := int32 text.length } := by
  have hs := h.strlen
  obtain ⟨id, bs, ⟨hz, tail, rfl⟩, -, hc⟩ := h
  refine ⟨_, id, tail, run_bind_ok hs _, ?_⟩
  simp [hc]

def FieldDone (c : ReplLogXValue) (size : Nat) (s' : CellState) (r : Rendered × Nat) : Prop :=
  size = r.2 ∧ r.1.Applied c s'.cell

theorem print_follows {c : ReplLogXValue} {n size width : Nat} {text : List UInt8}
    (h : Owns c size s) (hz : (0 : UInt8) ∉ text) (hn : text.length < n) (hd : text.length < size) :
    Follows (rowsHalts os) (do snprintfVal 0 n text; setLenStrlen; pure width) s
      (.ok (.ofText text none, width)) (FieldDone c) := by
  obtain ⟨s₁, h₁, hp⟩ := snprintf_run _ _ h hz hn hd
  obtain ⟨s₂, id, tail, h₂, hc⟩ := setLenStrlen_run hp
  refine Follows.of_run (by rw [run_bind_ok h₁, run_bind_ok h₂]; rfl) ⟨rfl, id, tail, hc⟩

-- ---------------------------------------------------------------------------
-- Append loops
-- ---------------------------------------------------------------------------

theorem filter_ne_zero {cs : List UInt8} (h : (0 : UInt8) ∉ cs) : cs.filter (· ≠ 0) = cs := by
  rw [List.filter_eq_self]
  intro b hb
  simp only [ne_eq, decide_eq_true_eq]
  rintro rfl
  exact h hb

/-- One piece: a text without zero bytes, or a lone zero byte, which the next
piece overwrites. -/
theorem appendVal_run {c : ReplLogXValue} {n size : Nat} {text cs : List UInt8}
    (h : Printed c size text s) (hcs : (0 : UInt8) ∉ cs ∨ cs = [0]) (hn : cs.length < n)
    (hd : text.length + cs.length < size) :
    ∃ s', (appendVal n cs).run s = .ok () s' ∧ Printed c size (text ++ cs.filter (· ≠ 0)) s' := by
  have hs := h.strlen
  obtain ⟨id, bs, hh, rfl, hc⟩ := h
  have hv : s.cell.val = .block id bs := by rw [hc]
  unfold appendVal
  rw [run_bind_ok hs]
  rcases hcs with hz | rfl
  · obtain ⟨bs', hw, hh', hl⟩ := hh.append hz hn hd
    rw [filter_ne_zero hz]
    exact ⟨_, writeVal_run hv hw, id, bs', hh', hl, by simp [hc]⟩
  · obtain ⟨bs', hw, hh', hl⟩ := hh.append_zero hn hd
    exact ⟨_, writeVal_run hv hw, id, bs', by simpa using hh', hl, by simp [hc]⟩

def pieces (f : Nat → List UInt8) (i count : Nat) : List UInt8 :=
  (List.range' i count).flatMap fun k => (f k).filter (· ≠ 0)

theorem pieces_zero (f : Nat → List UInt8) (i : Nat) : pieces f i 0 = [] := rfl

theorem pieces_succ (f : Nat → List UInt8) (i count : Nat) :
    pieces f i (count + 1) = (f i).filter (· ≠ 0) ++ pieces f (i + 1) count := by
  simp [pieces, List.range'_succ]

theorem pieces_of_ne_zero {f : Nat → List UInt8} (h : ∀ k, (0 : UInt8) ∉ f k) (i count : Nat) :
    pieces f i count = (List.range' i count).flatMap f := by
  unfold pieces
  exact congrArg (List.range' i count).flatMap (funext fun k => filter_ne_zero (h k))

structure Readable (n : Nat) (piece : Nat → CellM (List UInt8)) (f : Nat → List UInt8)
    (width i count : Nat) : Prop where
  run : ∀ k, i ≤ k → k < i + count → ∀ s : CellState, (piece k).run s = .ok (f k) s
  text : ∀ k, (0 : UInt8) ∉ f k ∨ f k = [0]
  length : ∀ k, (f k).length = width
  width_lt : width < n

theorem Readable.tail {n width i count : Nat} {piece : Nat → CellM (List UInt8)}
    {f : Nat → List UInt8} (h : Readable n piece f width i (count + 1)) :
    Readable n piece f width (i + 1) count :=
  ⟨fun k h1 h2 => h.run k (by omega) (by omega), h.text, h.length, h.width_lt⟩

theorem appendLoop_run {c : ReplLogXValue} {n size width : Nat} {piece : Nat → CellM (List UInt8)}
    {f : Nat → List UInt8} {i count : Nat} {text : List UInt8} {s : CellState}
    (hr : Readable n piece f width i count) (h : Printed c size text s)
    (hd : text.length + width * count < size) :
    ∃ s', (appendLoop n piece i count).run s = .ok () s' ∧
      Printed c size (text ++ pieces f i count) s' := by
  induction count generalizing i text s with
  | zero => exact ⟨s, rfl, by simpa [pieces_zero] using h⟩
  | succ count ih =>
    have hlen := hr.length i
    rw [Nat.mul_succ] at hd
    obtain ⟨s₁, h₁, hp⟩ := appendVal_run h (hr.text i) (hlen ▸ hr.width_lt) (by omega)
    have hle : ((f i).filter (· ≠ 0)).length ≤ width := hlen ▸ List.length_filter_le _ _
    obtain ⟨s₂, h₂, hp₂⟩ := ih hr.tail hp (by rw [List.length_append]; omega)
    refine ⟨s₂, ?_, ?_⟩
    · rw [appendLoop, run_bind_ok (hr.run i (by omega) (by omega) s), run_bind_ok h₁, h₂]
    · rwa [pieces_succ, ← List.append_assoc]

theorem appendLoop_run_error {c : ReplLogXValue} {n size width m : Nat}
    {piece : Nat → CellM (List UInt8)} {f : Nat → List UInt8} {i count : Nat}
    {text : List UInt8} {s : CellState} (hr : Readable n piece f width i m) (hm : m ≤ count)
    (hz : ∀ k, (0 : UInt8) ∉ f k) (h : Printed c size text s)
    (hd : size ≤ text.length + width * m) :
    ∃ s', (appendLoop n piece i count).run s = .error .outOfBlock s' := by
  induction m generalizing i count text s with
  | zero =>
    obtain ⟨id, bs, hh, rfl, -⟩ := h
    have := hh.length_lt
    omega
  | succ m ih =>
    obtain ⟨count, rfl⟩ : ∃ k, count = k + 1 := ⟨count - 1, by omega⟩
    have hlen := hr.length i
    rw [Nat.mul_succ] at hd
    rw [appendLoop, run_bind_ok (hr.run i (by omega) (by omega) s)]
    by_cases hfit : text.length + width < size
    · obtain ⟨s₁, h₁, hp⟩ := appendVal_run h (hr.text i) (hlen ▸ hr.width_lt) (by omega)
      obtain ⟨s₂, h₂⟩ := ih hr.tail (Nat.le_of_succ_le_succ hm) hp (by
        rw [List.length_append, filter_ne_zero (hz i), hlen]; omega)
      exact ⟨s₂, by rw [run_bind_ok h₁, h₂]⟩
    · have hs := h.strlen
      obtain ⟨id, bs, -, hbs, hc⟩ := h
      have hv : s.cell.val = .block id bs := by rw [hc]
      have hw : snprintf? bs text.length n (f i) = none :=
        snprintf?_eq_none (hlen ▸ hr.width_lt) (by omega)
      refine ⟨s, run_bind_error ?_ _⟩
      rw [appendVal, run_bind_ok hs]
      exact writeVal_run_error _ hv hw

theorem appendLoop_run_overread {c : ReplLogXValue} {n size width m : Nat}
    {piece : Nat → CellM (List UInt8)} {f : Nat → List UInt8} {i count : Nat} {text : List UInt8}
    {s : CellState} (hr : Readable n piece f width i m) (hm : m < count)
    (hout : ∀ s : CellState, (piece (i + m)).run s = .error .overread s)
    (h : Printed c size text s) (hd : text.length + width * m < size) :
    ∃ s', (appendLoop n piece i count).run s = .error .overread s' := by
  induction m generalizing i count text s with
  | zero =>
    obtain ⟨count, rfl⟩ : ∃ k, count = k + 1 := ⟨count - 1, by omega⟩
    exact ⟨s, run_bind_error (hout s) _⟩
  | succ m ih =>
    obtain ⟨count, rfl⟩ : ∃ k, count = k + 1 := ⟨count - 1, by omega⟩
    have hlen := hr.length i
    rw [Nat.mul_succ] at hd
    obtain ⟨s₁, h₁, hp⟩ := appendVal_run h (hr.text i) (hlen ▸ hr.width_lt) (by omega)
    have hle : ((f i).filter (· ≠ 0)).length ≤ width := hlen ▸ List.length_filter_le _ _
    have hout : ∀ s : CellState, (piece (i + 1 + m)).run s = .error .overread s := by
      rwa [Nat.add_right_comm]
    obtain ⟨s₂, h₂⟩ := ih hr.tail (Nat.lt_of_succ_lt_succ hm) hout hp
      (by rw [List.length_append]; omega)
    exact ⟨s₂, by rw [appendLoop, run_bind_ok (hr.run i (by omega) (by omega) s), run_bind_ok h₁, h₂]⟩

theorem slice?_rest (p : Nat) : slice? buf p (buf.length - p) = some (buf.drop p) := by
  by_cases h : p ≤ buf.length
  · rw [slice?_of_le (by omega), List.take_of_length_le (by rw [List.length_drop])]
  · rw [Nat.sub_eq_zero_of_le (by omega), List.drop_of_length_le (by omega)]
    rfl

theorem readBytes_behind {p : Nat} (h : buf.length ≤ p) (s : CellState) :
    (readBytes buf p 1).run s = .error .overread s := by
  unfold readBytes
  rw [slice?, if_neg (by decide), if_neg (by omega)]
  rfl

-- ---------------------------------------------------------------------------
-- Fields of a fixed width
-- ---------------------------------------------------------------------------

theorem integerValue_follows {p width size : Nat} {isUnsigned : Bool} {name : String}
    (hfit : ∀ bs : List UInt8, bs.length = width → (integerText isUnsigned bs).length < size) :
    Follows (rowsHalts os) (integerValue os buf p width size isUnsigned name) s
      (do let bs ← takeAt buf p width; pure (.ofText (integerText isUnsigned bs) none, bs.length))
      (FieldDone s.cell) := by
  unfold integerValue
  refine Follows.bind_silent (mallocVal_triple size _) fun _ s₁ ho => ?_
  refine Follows.bind (readBytes_follows p width) ?_
  rintro bs _ _ ⟨rfl, rfl, hbs⟩
  have hlen := slice?_length hbs
  have hlt := hfit bs hlen
  rw [hlen]
  exact print_follows ho (integerText_ne_zero isUnsigned bs) hlt hlt

theorem formattedValue_follows {p width size : Nat} {text : Nat → List UInt8} {name : String}
    (hz : ∀ n, (0 : UInt8) ∉ text n) (hfit : ∀ n, n < 256 ^ width → (text n).length < size) :
    Follows (rowsHalts os) (formattedValue os buf p width size text name) s
      (do let bs ← takeAt buf p width; pure (.ofText (text (leNat bs)) none, bs.length))
      (FieldDone s.cell) := by
  unfold formattedValue readUint
  rw [bind_assoc]
  refine Follows.bind (readBytes_follows p width) ?_
  rintro bs _ _ ⟨rfl, rfl, hbs⟩
  have hlen := slice?_length hbs
  have hlt := hfit _ (hlen ▸ leNat_lt bs)
  rw [pure_bind, hlen]
  refine Follows.bind_silent (mallocVal_triple size _) fun _ s₁ ho => ?_
  exact print_follows ho (hz _) hlt hlt

theorem copiedValue_follows {p width : Nat} {text : List UInt8 → List UInt8} {name : String} :
    Follows (rowsHalts os) (copiedValue os buf p width text name) s
      (do let bs ← takeAt buf p width; pure (.ofText (cstr (text bs)) none, bs.length))
      (FieldDone s.cell) := by
  unfold copiedValue
  refine Follows.bind (readBytes_follows p width) ?_
  rintro bs _ _ ⟨rfl, rfl, hbs⟩
  rw [slice?_length hbs]
  refine Follows.bind_silent (mallocVal_triple _ _) fun _ s₁ ho => ?_
  exact print_follows ho (cstr_ne_zero _) (Nat.lt_succ_self _) (Nat.lt_succ_self _)

theorem bits_readable {p n i m : Nat} {bs : List UInt8} (hbs : slice? buf p n = some bs)
    (hm : m = 0 ∨ i + m ≤ n * 8) :
    Readable 2 (fun bitnum => do
        let byte ← readBytes buf (p + bitnum / 8) 1
        pure (binDigit (bitAt (byte.headD 0) bitnum)))
      (fun bitnum => binDigit (bitAt (bs.getD (bitnum / 8) 0) bitnum)) 1 i m where
  run k h1 h2 s := run_bind_ok (readBytes_run (slice?_byte hbs (by omega))) _
  text k := .inl (binDigit_ne_zero _)
  length k := by cases bitAt (bs.getD (k / 8) 0) k <;> rfl
  width_lt := by decide

theorem myBWriteBit2_overread {c : ReplLogXValue} {p nbits size : Nat}
    (hout : slice? buf p ((nbits + 7) / 8) = none) (ho : Owns c (nbits + size + 3) s) :
    ∃ s', (myBWriteBit2 buf p nbits).run s = .error .overread s' := by
  have hlen : (ascii "b").length = 1 := rfl
  have hlt := slice?_none hout
  have hpos : (nbits + 7) / 8 ≠ 0 := by
    intro h
    rw [h] at hout
    cases hout
  obtain ⟨s₁, h₁, hp⟩ := snprintf_run 2 (ascii "b") ho (by decide) (by decide) (by omega)
  -- The bits of the bytes that are there.
  have hr := @bits_readable buf p _ ((nbits + 7) / 8 * 8 - nbits)
    ((buf.length - p) * 8 - ((nbits + 7) / 8 * 8 - nbits)) _ (@slice?_rest buf p) (by omega)
  obtain ⟨s₂, h₂⟩ := appendLoop_run_overread hr (show _ < nbits by omega)
    (fun s => run_bind_error (readBytes_behind (by omega) s) _) hp (by omega)
  exact ⟨s₂, by rw [myBWriteBit2, run_bind_ok h₁, h₂]⟩

theorem bitsValue_follows {p nbits width : Nat} {name : String} (hw : (nbits + 7) / 8 = width) :
    Follows (rowsHalts os) (do bitsValue os buf p nbits name; pure width) s
      (do let bs ← takeAt buf p width; pure (.ofText (bitText nbits bs) none, bs.length))
      (FieldDone s.cell) := by
  subst hw
  have hlen : (ascii "b").length = 1 := rfl
  unfold bitsValue takeAt
  rw [bind_assoc]
  refine Follows.bind_silent (mallocVal_triple _ _) fun _ s₁ ho => ?_
  rw [bind_assoc]
  cases hbs : slice? buf p ((nbits + 7) / 8) with
  | none =>
    obtain ⟨s₂, h₂⟩ := @myBWriteBit2_overread buf s₁ s.cell p nbits 1 hbs ho
    exact Follows.bind_error h₂ rfl
  | some bs =>
    obtain ⟨s₂, h₂, hp⟩ := snprintf_run 2 (ascii "b") ho (by decide) (by decide) (by omega)
    have hr := @bits_readable buf p _ ((nbits + 7) / 8 * 8 - nbits) nbits _ hbs (by omega)
    obtain ⟨s₃, h₃, hp⟩ := appendLoop_run hr hp (by omega)
    rw [pieces_of_ne_zero fun k => binDigit_ne_zero _] at hp
    obtain ⟨s₄, id, tail, h₄, hc⟩ := setLenStrlen_run hp
    have h₂₃ : (myBWriteBit2 buf p nbits).run s₁ = .ok () s₃ := by
      rw [myBWriteBit2, run_bind_ok h₂, h₃]
    exact Follows.of_run (by rw [run_bind_ok h₂₃, run_bind_ok h₄]; rfl)
      ⟨(slice?_length hbs).symm, id, tail, hc⟩

-- ---------------------------------------------------------------------------
-- Strings
-- ---------------------------------------------------------------------------

theorem memsetVal_run {c : ReplLogXValue} {n : Nat} (ho : Owns c n s) :
    ∃ s' id, (memsetVal n).run s = .ok () s' ∧
      s'.cell = { c with val := .block id (List.replicate n 0) } := by
  obtain ⟨id, bs, rfl, hc⟩ := ho
  refine ⟨_, id, @writeVal_run _ id bs _ _ (by rw [hc]) (if_pos le_rfl), ?_⟩
  simp [hc]

theorem chars_readable {p : Nat} {payload : List UInt8}
    (hbs : slice? buf p payload.length = some payload) :
    Readable 2 (fun i => readBytes buf (p + i) 1) (fun i => [payload.getD i 0]) 1 0
      payload.length where
  run k _ h2 s := readBytes_run (slice?_byte hbs (by omega))
  text k := by
    by_cases h : payload.getD k 0 = 0
    · exact .inr (by rw [h])
    · exact .inl (by simpa using Ne.symm h)
  length k := rfl
  width_lt := by decide

theorem pieces_chars (payload : List UInt8) :
    pieces (fun i => [payload.getD i 0]) 0 payload.length = payload.filter (· ≠ 0) := by
  unfold pieces
  rw [flatMap_range_getD fun b => [b].filter (· ≠ 0)]
  induction payload with
  | nil => rfl
  | cons b bs ih => rw [List.flatMap_cons, ih, List.filter_cons, List.filter_cons]; split <;> simp

theorem printChars_run {c : ReplLogXValue} {p width size : Nat} {lengthPrefix payload : List UInt8}
    (hpre : slice? buf p width = some lengthPrefix) (hlen : leNat lengthPrefix = payload.length)
    (hbs : slice? buf (p + width) payload.length = some payload) (hp : Printed c size [] s)
    (hd : payload.length < size) :
    ∃ s', (printChars buf p width).run s = .ok (payload.length + width) s' ∧
      Printed c size (payload.filter (· ≠ 0)) s' := by
  obtain ⟨s₁, h₁, hp₁⟩ := appendLoop_run (chars_readable hbs) hp (by simpa using hd)
  rw [pieces_chars, List.nil_append] at hp₁
  refine ⟨s₁, ?_, hp₁⟩
  rw [printChars, run_bind_ok (readUint_run hpre), hlen, run_bind_ok h₁]
  rfl

theorem printChars_overread {c : ReplLogXValue} {p width size : Nat} {lengthPrefix : List UInt8}
    (hpre : slice? buf p width = some lengthPrefix)
    (hout : slice? buf (p + width) (leNat lengthPrefix) = none) (hp : Printed c size [] s)
    (hd : leNat lengthPrefix < size) :
    ∃ s', (printChars buf p width).run s = .error .overread s' := by
  have hlt := slice?_none hout
  have hpos : leNat lengthPrefix ≠ 0 := by
    intro h
    rw [h] at hout
    cases hout
  have hrest := @slice?_rest buf (p + width)
  rw [← List.length_drop] at hrest
  have hlen : (buf.drop (p + width)).length = buf.length - (p + width) := List.length_drop
  obtain ⟨s₁, h₁⟩ := appendLoop_run_overread (chars_readable hrest) (show _ < leNat lengthPrefix by omega)
    (fun s => readBytes_behind (by omega) s) hp (by simp only [List.length_nil]; omega)
  refine ⟨s₁, ?_⟩
  rw [printChars, run_bind_ok (readUint_run hpre), run_bind_error h₁]

theorem myBPrintWithLength2_eq (p length : Nat) : myBPrintWithLength2 buf p length =
    (do snprintfVal 0 2 []; printChars buf p (if length < 256 then 1 else 2)) := by
  unfold myBPrintWithLength2
  split <;> rfl

theorem stringValue_follows {p length : Nat} {name : String} {disp : DisplayBlobs} {isPartial : Bool} :
    Follows (rowsHalts os) (stringValue os buf p length name) s
      (scanField lib buf disp isPartial p (.chars (if length < 256 then 1 else 2)))
      (FieldDone s.cell) := by
  unfold stringValue scanField readUint
  rw [bind_assoc, myBPrintWithLength2_eq]
  generalize (if length < 256 then 1 else 2) = width
  refine Follows.bind (readBytes_follows p width) ?_
  rintro lengthPrefix _ _ ⟨rfl, rfl, hpre⟩
  rw [pure_bind]
  refine Follows.bind_silent (mallocVal_triple _ _) fun _ s₁ ho => ?_
  obtain ⟨s₂, id, h₂, hc₂⟩ := memsetVal_run ho
  refine Follows.bind_run h₂ ?_
  obtain ⟨s₃, h₃, hp₃⟩ := snprintf_run 2 [] ⟨id, _, List.length_replicate, hc₂⟩
    (by simp) (by decide) (by simp)
  rw [bind_assoc]
  refine Follows.bind_run h₃ ?_
  unfold scanContents takeAt
  dsimp only
  cases hbs : slice? buf (p + width) (leNat lengthPrefix) with
  | none =>
    obtain ⟨s₄, h₄⟩ := printChars_overread hpre hbs hp₃ (by omega)
    exact Follows.bind_error h₄ rfl
  | some payload =>
    have hlen := slice?_length hbs
    rw [← hlen] at hbs
    obtain ⟨s₄, h₄, id', bs', ⟨hz, tail, rfl⟩, -, hc₄⟩ :=
      printChars_run hpre hlen.symm hbs hp₃ (by omega)
    have hmoved : payload.length + width = (Layout.chars width).advance lengthPrefix := by
      rw [hlen, Nat.add_comm]
      rfl
    refine Follows.of_run (by rw [run_bind_ok h₄]; rfl) ⟨hmoved, id', tail, ?_⟩
    simp [hc₄]

-- ---------------------------------------------------------------------------
-- Blobs
-- ---------------------------------------------------------------------------

theorem nullBlob_run (disp : DisplayBlobs) (isHex : Bool) :
    ∃ s', (nullBlob disp isHex).run s = .ok 0 s' ∧
      s'.cell = { val := .null, len := if disp.blobsDisplay then 0 else -1, isHex } := ⟨_, rfl, rfl⟩

theorem memcpyVal_run {c : ReplLogXValue} {id : Nat} {payload : List UInt8}
    (hc : s.cell = { c with val := .block id (List.replicate (payload.length + 16) 0) }) :
    ∃ s' tail, (memcpyVal payload).run s = .ok () s' ∧
      s'.cell = { c with val := .block id (payload ++ 0 :: tail) } := by
  have hw : (if payload.length ≤ (List.replicate (payload.length + 16) (0 : UInt8)).length then
      some (payload ++ (List.replicate (payload.length + 16) 0).drop payload.length) else none) =
      some (payload ++ 0 :: List.replicate 15 0) := by
    rw [if_pos (by simp), List.drop_replicate, Nat.add_sub_cancel_left]
    rfl
  refine ⟨_, List.replicate 15 0, writeVal_run (by rw [hc]) hw, ?_⟩
  simp [hc]

theorem hex_readable {p : Nat} {payload : List UInt8}
    (hbs : slice? buf p payload.length = some payload) :
    Readable 3 (fun i => do pure (hexByte ((← readBytes buf (p + i) 1).headD 0)))
      (fun i => hexByte (payload.getD i 0)) 2 0 payload.length where
  run k _ h2 s := run_bind_ok (readBytes_run (slice?_byte hbs (by omega))) _
  text k := .inl (hexByte_ne_zero _)
  length k := rfl
  width_lt := by decide

theorem sprintAsHex_run {c : ReplLogXValue} {p size : Nat} {payload : List UInt8}
    (hbs : slice? buf p payload.length = some payload) (ho : Owns c size s)
    (hd : 2 + 2 * payload.length < size) :
    ∃ s', (sprintAsHex buf p payload.length).run s = .ok () s' ∧
      Printed c size (hexText payload) s' := by
  obtain ⟨s₁, h₁, hp⟩ := snprintf_run 3 (ascii "0x") ho (by decide) (by decide)
    (by rw [show (ascii "0x").length = 2 from rfl]; omega)
  obtain ⟨s₂, h₂, hp⟩ := appendLoop_run (hex_readable hbs) hp
    (by rw [show (ascii "0x").length = 2 from rfl]; omega)
  rw [pieces_of_ne_zero fun k => hexByte_ne_zero _, flatMap_range_getD hexByte] at hp
  exact ⟨s₂, by rw [sprintAsHex, run_bind_ok h₁, h₂], hp⟩

theorem sprintAsHex_run_error {c : ReplLogXValue} {p length size : Nat} {payload : List UInt8}
    (hbs : slice? buf p payload.length = some payload) (hlen : payload.length ≤ length)
    (ho : Owns c size s) (hd : size ≤ 2 + 2 * payload.length) :
    ∃ s', (sprintAsHex buf p length).run s = .error .outOfBlock s' := by
  have hhead : (ascii "0x").length = 2 := rfl
  by_cases hs : 2 < size
  · obtain ⟨s₁, h₁, hp⟩ := snprintf_run 3 (ascii "0x") ho (by decide) (by decide)
      (by omega)
    obtain ⟨s₂, h₂⟩ := appendLoop_run_error (hex_readable hbs) hlen (fun k => hexByte_ne_zero _) hp
      (by omega)
    exact ⟨s₂, by rw [sprintAsHex, run_bind_ok h₁, h₂]⟩
  · obtain ⟨id, bs, rfl, hc⟩ := ho
    have hw : snprintf? bs 0 3 (ascii "0x") = none := snprintf?_eq_none (by decide) (by omega)
    have hv : s.cell.val = .block id bs := by rw [hc]
    exact ⟨s, run_bind_error (writeVal_run_error _ hv hw) _⟩

/-- A payload that the block has room for, up to the end of the event. -/
theorem sprintAsHex_overread {c : ReplLogXValue} {p length size : Nat}
    (hlt : buf.length < p + length) (hpos : 0 < length) (ho : Owns c size s)
    (hd : 2 + 2 * (buf.length - p) < size) :
    ∃ s', (sprintAsHex buf p length).run s = .error .overread s' := by
  have hhead : (ascii "0x").length = 2 := rfl
  have hrest := @slice?_rest buf p
  rw [← List.length_drop] at hrest
  have hlen : (buf.drop p).length = buf.length - p := List.length_drop
  obtain ⟨s₁, h₁, hp⟩ := snprintf_run 3 (ascii "0x") ho (by decide) (by decide) (by omega)
  obtain ⟨s₂, h₂⟩ := appendLoop_run_overread (hex_readable hrest) (show _ < length by omega)
    (fun s => run_bind_error (readBytes_behind (by omega) s) _) hp (by omega)
  exact ⟨s₂, by rw [sprintAsHex, run_bind_ok h₁, h₂]⟩

theorem setLenHex_run (len : Int) (isHex : Bool) :
    ∃ s', (do setLen len; setHex isHex : CellM Unit).run s = .ok () s' ∧
      s'.cell = { s.cell with len, isHex } := ⟨_, rfl, rfl⟩

/-- The raw form. A size that wraps leaves less room than the payload needs. -/
theorem rawBlob_follows {p length : Nat} {desc : String} (hlt : length < 2 ^ 32) :
    Follows (rowsHalts os)
      (do
        mallocVal os (uint32 (length + 16)) desc
        memsetVal (uint32 (length + 16))
        memcpyVal (← readBytes buf p length)
        setLen (int32 length)
        setHex false) s
      (scanRaw buf p length) fun _ s' r => r.Applied s.cell s'.cell := by
  refine Follows.bind_silent (mallocVal_triple _ _) fun _ s₁ ho => ?_
  obtain ⟨s₂, id, h₂, hc⟩ := memsetVal_run ho
  refine Follows.bind_run h₂ ?_
  unfold scanRaw
  refine Follows.bind (readBytes_follows p length) ?_
  rintro payload _ _ ⟨rfl, rfl, hbs⟩
  obtain rfl := slice?_length hbs
  split
  case isTrue hfit =>
    rw [uint32_of_lt hfit] at hc
    obtain ⟨s₃, tail, h₃, hc₃⟩ := memcpyVal_run hc
    obtain ⟨s₄, h₄, hc₄⟩ := setLenHex_run (s := s₃) (int32 payload.length) false
    rw [hc₃] at hc₄
    exact Follows.of_run (by rw [run_bind_ok h₃, h₄]) ⟨id, tail, hc₄⟩
  case isFalse hwrap =>
    have hlong : ¬ payload.length ≤ (List.replicate (uint32 (payload.length + 16)) (0 : UInt8)).length := by
      rw [List.length_replicate, uint32]
      omega
    have hv : s₂.cell.val = .block id (List.replicate (uint32 (payload.length + 16)) 0) := by rw [hc]
    have h₃ := writeVal_run_error (s := s₂) (fun bs =>
      if payload.length ≤ bs.length then some (payload ++ bs.drop payload.length) else none) hv
      (if_neg hlong)
    exact Follows.bind_error h₃ rfl

theorem hexBlob_follows {p length : Nat} {desc : String} (hlt : length < 2 ^ 32) :
    Follows (rowsHalts os)
      (do
        mallocVal os (uint32 (length * 2 + 16)) desc
        sprintAsHex buf p length
        setLenStrlen
        setHex true) s
      (scanHex buf p length) fun _ s' r => r.Applied s.cell s'.cell := by
  refine Follows.bind_silent (mallocVal_triple _ _) fun _ s₁ ho => ?_
  unfold scanHex
  cases hbs : slice? buf p length with
  | some payload =>
    obtain rfl := slice?_length hbs
    dsimp only
    split
    case isTrue hfit =>
      rw [uint32_of_lt hfit] at ho
      obtain ⟨s₂, h₂, hp⟩ := sprintAsHex_run hbs ho (by omega)
      obtain ⟨s₃, id, tail, h₃, hc⟩ := setLenStrlen_run hp
      refine Follows.of_run (by rw [run_bind_ok h₂, run_bind_ok h₃]; rfl) ⟨id, tail, ?_⟩
      simp [hc]
    case isFalse hwrap =>
      obtain ⟨s₂, h₂⟩ := sprintAsHex_run_error hbs le_rfl ho (by rw [uint32]; omega)
      exact Follows.bind_error h₂ rfl
  | none =>
    have hout := slice?_none hbs
    have hpos : length ≠ 0 := by
      rintro rfl
      cases hbs
    dsimp only
    split
    case isTrue hroom =>
      obtain ⟨s₂, h₂⟩ := sprintAsHex_overread hout (Nat.pos_of_ne_zero hpos) ho hroom
      exact Follows.bind_error h₂ rfl
    case isFalse hroom =>
      -- The block is full before the loop comes to the end of the event.
      have hrest := @slice?_rest buf p
      rw [← List.length_drop] at hrest
      have hlen : (buf.drop p).length = buf.length - p := List.length_drop
      obtain ⟨s₂, h₂⟩ := sprintAsHex_run_error hrest (show (buf.drop p).length ≤ length by omega) ho
        (by omega)
      exact Follows.bind_error h₂ rfl

theorem displayBlob_follows {p length : Nat} {disp : DisplayBlobs} {asHex : Bool} {name : String}
    (hlt : length < 2 ^ 32) :
    Follows (rowsHalts os) (displayBlob os buf p length disp asHex name) s
      (scanBlob buf disp asHex p length) fun _ s' r => r.Applied s.cell s'.cell := by
  unfold displayBlob scanBlob
  cases disp.blobsDisplay with
  | false => exact Follows.of_run rfl rfl
  | true =>
    cases asHex with
    | false => exact rawBlob_follows hlt
    | true => exact hexBlob_follows hlt

-- ---------------------------------------------------------------------------
-- JSON
-- ---------------------------------------------------------------------------

theorem appendBuf_triple (acc text : List UInt8) :
    Triple (appendBuf os acc text) s (fun r s' => r = acc ++ text ∧ s'.cell = s.cell)
      fun e _ => (rowsHalts os).spare e := by
  unfold appendBuf
  have hz : (zoom CellState.heapPart (Heap.attempt os) : CellM Bool).run s =
      .ok (os.grant s.heap.asked) { s with heap := { s.heap with asked := s.heap.asked + 1 } } := rfl
  cases hg : os.grant s.heap.asked with
  | true =>
    rw [hg] at hz
    exact Triple.of_run (run_bind_ok hz _) ⟨rfl, rfl⟩
  | false =>
    rw [hg] at hz
    refine Triple.of_run_error (run_bind_ok hz _) ⟨rfl, fun hs => ?_⟩
    rw [hs] at hg
    cases hg

theorem endDiff_triple (lengthX : Nat) (acc : List UInt8) :
    Triple (endDiff os lengthX acc) s
      (fun r s' => r = (if lengthX ≠ 0 then acc ++ ascii "\n" else acc) ∧ s'.cell = s.cell)
      fun e _ => (rowsHalts os).spare e := by
  unfold endDiff
  split
  · exact appendBuf_triple _ _
  · exact Triple.pure ⟨rfl, rfl⟩

theorem diffLoop_follows {fuel p lengthX : Nat} {acc : List UInt8} :
    Follows (rowsHalts os) (diffLoop lib os buf fuel p lengthX acc) s
      (scanDiffs lib buf fuel p lengthX acc) fun r s' c => r = c ∧ s'.cell = s.cell := by
  induction fuel generalizing p lengthX acc s with
  | zero =>
    unfold diffLoop scanDiffs
    split
    · exact Follows.pure ⟨rfl, rfl⟩
    · exact Follows.throw rfl
  | succ fuel ih =>
    unfold diffLoop scanDiffs
    split
    · exact Follows.pure ⟨rfl, rfl⟩
    refine Follows.bind (readBytes_follows p 1) ?_
    rintro byte _ _ ⟨rfl, rfl, -⟩
    cases JsonDiffOperation.ofByte (byte.headD 0) with
    | none => exact Follows.throw rfl
    | some operation =>
      refine Follows.bind_silent (appendBuf_triple _ _) ?_
      rintro _ s₁ ⟨rfl, h₁⟩
      refine Follows.bind (netFieldLengthChecked_follows _ _ _) ?_
      rintro ⟨pathLength, taken⟩ _ _ ⟨rfl, rfl⟩
      refine Follows.bind_silent (appendBuf_triple _ _) ?_
      rintro _ s₂ ⟨rfl, h₂⟩
      refine Follows.bind (readBytes_follows _ _) ?_
      rintro path _ _ ⟨rfl, rfl, -⟩
      refine Follows.bind_silent (appendBuf_triple _ _) ?_
      rintro _ s₃ ⟨rfl, h₃⟩
      simp only [List.append_nil]
      have hcell : s₃.cell = s.cell := by rw [h₃, h₂, h₁]
      split
      · refine Follows.bind (netFieldLengthChecked_follows _ _ _) ?_
        rintro ⟨valueLength, taken'⟩ _ _ ⟨rfl, rfl⟩
        refine Follows.bind (parseBinary_follows _ _ _) ?_
        rintro text _ _ ⟨rfl, rfl⟩
        refine Follows.bind_silent (appendBuf_triple _ _) ?_
        rintro _ s₄ ⟨rfl, h₄⟩
        refine Follows.bind_silent (endDiff_triple _ _) ?_
        rintro _ s₅ ⟨rfl, h₅⟩
        refine ih.mono ?_
        rintro r s' c ⟨rfl, hc⟩
        exact ⟨rfl, by rw [hc, h₅, h₄, hcell]⟩
      · refine Follows.bind_silent (endDiff_triple _ _) ?_
        rintro _ s₅ ⟨rfl, h₅⟩
        refine ih.mono ?_
        rintro r s' c ⟨rfl, hc⟩
        exact ⟨rfl, by rw [hc, h₅, hcell]⟩

theorem jsonText_follows {c : ReplLogXValue} {text : List UInt8} {desc : String}
    (hs : s.cell = c) :
    Follows (rowsHalts os) (jsonText os text desc) s
      (.ok (Rendered.ofText (cstr text) (some false))) fun _ s' r => r.Applied c s'.cell := by
  subst hs
  unfold jsonText
  refine Follows.bind_silent (mallocVal_triple _ _) fun _ s₁ ho => ?_
  obtain ⟨s₂, id, h₂, hc₂⟩ := memsetVal_run ho
  refine Follows.bind_run h₂ ?_
  obtain ⟨s₃, h₃, hp⟩ := snprintf_run ((cstr text).length + 1) (cstr text)
    ⟨id, _, List.length_replicate, hc₂⟩ (cstr_ne_zero text) (by omega) (by omega)
  obtain ⟨s₄, id', tail, h₄, hc₄⟩ := setLenStrlen_run hp
  refine Follows.of_run (by rw [run_bind_ok h₃, run_bind_ok h₄]; rfl) ⟨id', tail, ?_⟩
  simp [hc₄]

theorem displayJson_follows {p length : Nat} {isPartial : Bool} {disp : DisplayBlobs} :
    Follows (rowsHalts os) (displayJson lib os buf p length isPartial disp) s
      (scanJson lib buf disp isPartial p length) fun _ s' r => r.Applied s.cell s'.cell := by
  unfold displayJson scanJson
  cases disp.blobsDisplay with
  | false => exact Follows.of_run rfl rfl
  | true =>
    simp only [Bool.not_true, Bool.false_eq_true, if_false]
    cases isPartial with
    | true =>
      refine Follows.bind diffLoop_follows ?_
      rintro doc s' _ ⟨rfl, hs⟩
      exact jsonText_follows hs
    | false =>
      refine Follows.bind (parseBinary_follows _ _ _) ?_
      rintro doc s' _ ⟨rfl, rfl⟩
      exact jsonText_follows rfl

-- ---------------------------------------------------------------------------
-- Every type
-- ---------------------------------------------------------------------------

theorem scanField_fixed {p width : Nat} {text : List UInt8 → List UInt8} {disp : DisplayBlobs}
    {isPartial : Bool} : scanField lib buf disp isPartial p (.fixed width text) =
      (do let bs ← takeAt buf p width; pure (.ofText (text bs) none, bs.length)) := by
  have hnone : takeAt buf p (Layout.fixed width text).prefixWidth = .ok [] := rfl
  rw [scanField, hnone, ok_bind, scanContents]
  cases h : takeAt buf p width with
  | error v => rfl
  | ok bs =>
    obtain rfl := slice?_length (takeAt_eq_ok h)
    rfl

theorem leNat_slice_lt {p width : Nat} {lengthPrefix : List UInt8}
    (h : slice? buf p width = some lengthPrefix) (hw : width ≤ 4) : leNat lengthPrefix < 2 ^ 32 := by
  have hlt := leNat_lt lengthPrefix
  rw [slice?_length h] at hlt
  exact Nat.lt_of_lt_of_le hlt (Nat.pow_le_pow_right (by decide) hw)

theorem blobField_follows {p width : Nat} {asHex isPartial : Bool} {disp : DisplayBlobs} {name : String}
    (hw : width ≤ 4) :
    Follows (rowsHalts os)
      (do
        let length ← readUint buf p width
        displayBlob os buf (p + width) length disp asHex name
        pure (uint32 (length + width))) s
      (scanField lib buf disp isPartial p (.blob width asHex)) (FieldDone s.cell) := by
  unfold scanField readUint
  rw [bind_assoc]
  refine Follows.bind (readBytes_follows p width) ?_
  rintro lengthPrefix _ _ ⟨rfl, rfl, hpre⟩
  rw [pure_bind]
  refine Follows.bind (displayBlob_follows (leNat_slice_lt hpre hw)) fun _ _ _ h => ?_
  exact Follows.of_run rfl ⟨congrArg uint32 (Nat.add_comm _ _), h⟩

theorem jsonField_follows {p : Nat} {isPartial : Bool} {disp : DisplayBlobs} :
    Follows (rowsHalts os)
      (do
        let length ← readUint buf p 4
        displayJson lib os buf (p + 4) length isPartial disp
        pure (uint32 (length + 4))) s
      (scanField lib buf disp isPartial p .json) (FieldDone s.cell) := by
  unfold scanField readUint
  rw [bind_assoc]
  refine Follows.bind (readBytes_follows p 4) ?_
  rintro lengthPrefix _ _ ⟨rfl, rfl, hpre⟩
  rw [pure_bind]
  refine Follows.bind displayJson_follows fun _ _ _ h => ?_
  exact Follows.of_run rfl ⟨congrArg uint32 (Nat.add_comm _ _), h⟩

section

variable {type length metadata : Nat} {isPartial isUnsigned : Bool} {disp : DisplayBlobs}

theorem valueOfType_null_follows :
    Follows (rowsHalts os)
      (valueOfType lib os buf type length metadata none isPartial isUnsigned disp) s
      (do pure (← reject (nullRendered disp type metadata), 0)) (FieldDone s.cell) := by
  unfold valueOfType nullRendered
  cases FieldType.ofCode type with
  | none => exact Follows.throw rfl
  | some t =>
    cases t with
    | enum =>
      by_cases h1 : metadata % 256 = 1
      · simp only [if_pos h1, if_pos (Or.inl h1)]
        exact Follows.of_run rfl ⟨rfl, rfl⟩
      · by_cases h2 : metadata % 256 = 2
        · simp only [if_neg h1, if_pos h2, if_pos (Or.inr h2)]
          exact Follows.of_run rfl ⟨rfl, rfl⟩
        · simp only [if_neg h1, if_neg h2, if_neg (not_or.mpr ⟨h1, h2⟩)]
          exact Follows.throw rfl
    | blob =>
      obtain ⟨s', h, hc⟩ := nullBlob_run disp disp.blobAsHex
      exact Follows.of_run h ⟨rfl, hc⟩
    | json =>
      obtain ⟨s', h, hc⟩ := nullBlob_run disp false
      by_cases hm : metadata = 4
      · simp only [if_pos hm, if_neg (not_not.mpr hm)]
        exact Follows.of_run h ⟨rfl, hc⟩
      · simp only [if_neg hm, if_pos hm]
        exact Follows.throw rfl
    | geometry =>
      obtain ⟨s', h, hc⟩ := nullBlob_run disp disp.geometryAsHex
      by_cases hm : metadata = 4
      · simp only [if_pos hm, if_neg (not_not.mpr hm)]
        exact Follows.of_run h ⟨rfl, hc⟩
      · simp only [if_neg hm, if_pos hm]
        exact Follows.throw rfl
    | _ => exact Follows.pure ⟨rfl, rfl⟩

theorem valueOfType_follows {p : Nat} :
    Follows (rowsHalts os)
      (valueOfType lib os buf type length metadata (some p) isPartial isUnsigned disp) s
      (do
        let l ← reject (layoutOf lib isUnsigned disp type length metadata)
        scanField lib buf disp isPartial p l) (FieldDone s.cell) := by
  have hfixed {x : CellM Nat} {width : Nat} {text : List UInt8 → List UInt8}
      (h : Follows (rowsHalts os) x s
        (do let bs ← takeAt buf p width; pure (.ofText (text bs) none, bs.length)) (FieldDone s.cell)) :
      Follows (rowsHalts os) x s (do
        let l ← reject (some (.fixed width text))
        scanField lib buf disp isPartial p l) (FieldDone s.cell) := by
    rwa [reject, ok_bind, scanField_fixed]
  unfold valueOfType layoutOf
  cases FieldType.ofCode type with
  | none => exact Follows.throw rfl
  | some t =>
    cases t with
    | tiny => exact hfixed (integerValue_follows fun bs h =>
        Nat.lt_of_le_of_lt (integerText_length_le (k := 3) (by decide) (by omega) (by rw [h]; decide)) (by decide))
    | short => exact hfixed (integerValue_follows fun bs h =>
        Nat.lt_of_le_of_lt (integerText_length_le (k := 5) (by decide) (by omega) (by rw [h]; decide)) (by decide))
    | int24 => exact hfixed (integerValue_follows fun bs h =>
        Nat.lt_of_le_of_lt (integerText_length_le (k := 8) (by decide) (by omega) (by rw [h]; decide)) (by decide))
    | long => exact hfixed (integerValue_follows fun bs h =>
        Nat.lt_of_le_of_lt (integerText_length_le (k := 10) (by decide) (by omega) (by rw [h]; decide)) (by decide))
    | longlong => exact hfixed (integerValue_follows fun bs h =>
        Nat.lt_of_le_of_lt (integerText_length_le (k := 20) (by decide) (by omega) (by rw [h]; decide)) (by decide))
    | newdecimal | float | double | timestamp2 | datetime2 | time2 | newdate =>
      exact hfixed copiedValue_follows
    | timestamp => exact hfixed (formattedValue_follows (fun n => decimal_ne_zero) fun n h =>
        Nat.lt_of_le_of_lt (decimal_length_le (k := 10) (by decide) (by omega)) (by decide))
    | datetime => exact hfixed (formattedValue_follows datetimeText_ne_zero fun n => datetimeText_length_lt)
    | time => exact hfixed (formattedValue_follows timeText_ne_zero fun n => timeText_length_lt)
    | year => exact hfixed (formattedValue_follows (fun n => decimalPad_ne_zero) fun n => yearText_length_lt)
    | bit => exact hfixed (bitsValue_follows rfl)
    | set => exact hfixed (bitsValue_follows (by omega))
    | enum =>
      by_cases h1 : metadata % 256 = 1
      · simp only [if_pos h1]
        exact hfixed (formattedValue_follows (fun n => decimal_ne_zero) fun n h =>
          Nat.lt_of_le_of_lt (decimal_length_le (k := 3) (by decide) (by omega)) (by decide))
      · by_cases h2 : metadata % 256 = 2
        · simp only [if_neg h1, if_pos h2]
          exact hfixed (formattedValue_follows (fun n => decimal_ne_zero) fun n h =>
            Nat.lt_of_le_of_lt (decimal_length_le (k := 5) (by decide) (by omega)) (by decide))
        · simp only [if_neg h1, if_neg h2]
          exact Follows.throw rfl
    | blob =>
      by_cases hm : metadata = 1 ∨ metadata = 2 ∨ metadata = 3 ∨ metadata = 4
      · simp only [if_pos hm]
        exact blobField_follows (by omega)
      · simp only [if_neg hm]
        exact Follows.throw rfl
    | varchar | varString | string => exact stringValue_follows
    | json =>
      by_cases hm : metadata = 4
      · subst hm
        exact jsonField_follows
      · simp only [if_neg hm, if_pos hm]
        exact Follows.throw rfl
    | geometry =>
      by_cases hm : metadata = 4
      · subst hm
        exact blobField_follows (by decide)
      · simp only [if_neg hm, if_pos hm]
        exact Follows.throw rfl

end

end RplListener
