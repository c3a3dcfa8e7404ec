import Mathlib.Data.Nat.Digits.Defs
import Mathlib.Data.List.TakeWhile

/-!
# Bytes, numerals and C strings

Little-endian numbers, bit vectors and decimal numerals as byte lists, and the
C string functions on a buffer of fixed size: `strlen?` finds the terminator
and `snprintf?` writes a text and its terminator at an offset. Both are partial:
`none` is an access outside the buffer.
-/

namespace Bytes

variable {bs cs dst text : List UInt8} {pos n k off : Nat}

-- ---------------------------------------------------------------------------
-- Slices
-- ---------------------------------------------------------------------------

/-- The `n` bytes from `pos`, when all of them are inside. -/
def slice? (bs : List UInt8) (pos n : Nat) : Option (List UInt8) :=
  if n = 0 then some [] else if pos + n ≤ bs.length then some ((bs.drop pos).take n) else none

theorem slice?_of_le (h : pos + n ≤ bs.length) : slice? bs pos n = some ((bs.drop pos).take n) := by
  unfold slice?
  split
  · subst n; simp
  · simp

theorem slice?_length (h : slice? bs pos n = some cs) : cs.length = n := by
  unfold slice? at h
  split at h
  · cases h; simp_all
  · split at h
    · cases h; simp; omega
    · cases h

theorem slice?_inside (h : slice? bs pos n = some cs) (hn : 0 < n) :
    pos + n ≤ bs.length ∧ cs = (bs.drop pos).take n := by
  unfold slice? at h
  rw [if_neg (by omega)] at h
  split at h
  · cases h; exact ⟨by assumption, rfl⟩
  · cases h

theorem slice?_none (h : slice? bs pos n = none) : bs.length < pos + n := by
  by_contra hn
  rw [slice?_of_le (by omega)] at h
  cases h

theorem slice?_take (h : slice? bs pos n = some cs) :
    (bs.drop pos).take n = cs ∧ n ≤ (bs.drop pos).length := by
  rcases Nat.eq_zero_or_pos n with rfl | hn
  · exact ⟨(List.length_eq_zero_iff.mp (slice?_length h)).symm, Nat.zero_le _⟩
  · obtain ⟨hin, rfl⟩ := slice?_inside h hn
    exact ⟨rfl, by rw [List.length_drop]; omega⟩

theorem slice?_sub (h : slice? bs pos n = some cs) (hk : k + off ≤ n) :
    slice? bs (pos + k) off = some ((cs.drop k).take off) := by
  by_cases hn : n = 0
  · obtain rfl : off = 0 := by omega
    simp [slice?]
  · obtain ⟨hin, rfl⟩ := slice?_inside h (by omega)
    rw [slice?_of_le (by omega), List.drop_take, List.drop_drop, List.take_take]
    congr 2
    omega

theorem slice?_byte (h : slice? bs pos n = some cs) (hk : k < n) :
    slice? bs (pos + k) 1 = some [cs.getD k 0] := by
  have hlen := slice?_length h
  have hlt : k < cs.length := by omega
  rw [slice?_sub h (by omega), List.drop_eq_getElem_cons hlt, List.take_succ_cons, List.take_zero,
    List.getD_eq_getElem?_getD, List.getElem?_eq_getElem hlt, Option.getD_some]

/-- Both byte strings have the same `n` bytes at `pos`. -/
def SameAt (bs cs : List UInt8) (pos n : Nat) : Prop :=
  ∀ k, pos ≤ k → k < pos + n → bs[k]? = cs[k]?

theorem SameAt.sub {p m : Nat} (h : SameAt bs cs pos n) (hp : pos ≤ p) (hm : p + m ≤ pos + n) :
    SameAt bs cs p m := fun k hk hlt => h k (by omega) (by omega)

theorem SameAt.take_drop (h : SameAt bs cs pos n) :
    (bs.drop pos).take n = (cs.drop pos).take n := by
  refine List.ext_getElem? fun k => ?_
  rw [List.getElem?_take, List.getElem?_take, List.getElem?_drop, List.getElem?_drop]
  split
  case isTrue hk => exact h (pos + k) (by omega) (by omega)
  case isFalse => rfl

theorem SameAt.drop (h : ∀ n, SameAt bs cs pos n) : bs.drop pos = cs.drop pos := by
  refine List.ext_getElem? fun k => ?_
  rw [List.getElem?_drop, List.getElem?_drop]
  exact h (k + 1) _ (by omega) (by omega)

theorem SameAt.slice? (hlen : bs.length = cs.length) (h : SameAt bs cs pos n) :
    slice? bs pos n = slice? cs pos n := by
  unfold Bytes.slice?
  rw [hlen, h.take_drop]

theorem flatMap_range_getD {α : Type} (g : UInt8 → List α) (bs : List UInt8) :
    (List.range' 0 bs.length).flatMap (fun k => g (bs.getD k 0)) = bs.flatMap g := by
  rw [List.flatMap_def, List.flatMap_def]
  congr 1
  apply List.ext_getElem (by simp)
  intro k h1 h2
  simp [List.getD_eq_getElem?_getD, show k < bs.length by simpa using h2]

theorem length_le_flatMap {α β : Type} {f : α → List β} {xs : List α} (h : ∀ x ∈ xs, f x ≠ []) :
    xs.length ≤ (xs.flatMap f).length := by
  induction xs with
  | nil => exact Nat.zero_le _
  | cons x xs ih =>
    obtain ⟨hx, hxs⟩ := List.forall_mem_cons.mp h
    have hpos := List.length_pos_iff.mpr hx
    have hle := ih hxs
    rw [List.flatMap_cons, List.length_append, List.length_cons]
    omega

/-- The cursor is inside, and these bytes are all that is ahead of it. -/
def Ahead (bs : List UInt8) (pos : Nat) (rest : List UInt8) : Prop :=
  pos ≤ bs.length ∧ bs.drop pos = rest

namespace Ahead

variable {rest : List UInt8}

theorem start (bs : List UInt8) : Ahead bs 0 bs := ⟨Nat.zero_le _, rfl⟩

theorem length_eq (h : Ahead bs pos rest) : pos + rest.length = bs.length := by
  obtain ⟨hpos, rfl⟩ := h
  rw [List.length_drop]
  omega

theorem skip (h : Ahead bs pos (cs ++ rest)) : Ahead bs (pos + cs.length) rest := by
  have hlen := h.length_eq
  rw [List.length_append] at hlen
  refine ⟨by omega, ?_⟩
  rw [← List.drop_drop, h.2, List.drop_left]

theorem drop (h : Ahead bs pos (cs ++ rest)) (hk : k ≤ cs.length) :
    Ahead bs (pos + k) (cs.drop k ++ rest) := by
  rw [← List.take_append_drop k cs, List.append_assoc] at h
  have hskip := h.skip
  rwa [List.length_take_of_le hk] at hskip

theorem slice (h : Ahead bs pos (cs ++ rest)) : slice? bs pos cs.length = some cs := by
  have hlen := h.length_eq
  rw [List.length_append] at hlen
  rw [slice?_of_le (by omega), h.2, List.take_left]

theorem head {b : UInt8} (h : Ahead bs pos (b :: rest)) : slice? bs pos 1 = some [b] := by
  have hone : Ahead bs pos ([b] ++ rest) := h
  exact hone.slice

end Ahead

/-- These bytes lie between two cursors that are inside. -/
def Spans (bs : List UInt8) (pos : Nat) (cs : List UInt8) (stop : Nat) : Prop :=
  pos + cs.length = stop ∧ stop ≤ bs.length ∧ bs.drop pos = cs ++ bs.drop stop

namespace Spans

variable {stop last : Nat} {ds : List UInt8}

theorem refl (h : pos ≤ bs.length) : Spans bs pos [] pos := ⟨rfl, h, rfl⟩

theorem trans (h : Spans bs pos cs stop) (h' : Spans bs stop ds last) :
    Spans bs pos (cs ++ ds) last := by
  refine ⟨?_, h'.2.1, ?_⟩
  · rw [List.length_append, ← h'.1, ← h.1]
    omega
  · rw [h.2.2, h'.2.2, List.append_assoc]

theorem of_slice (h : slice? bs pos n = some cs) (hin : pos + n ≤ bs.length) :
    Spans bs pos cs (pos + n) := by
  rw [slice?_of_le hin] at h
  cases h
  refine ⟨?_, hin, ?_⟩
  · rw [List.length_take_of_le (by rw [List.length_drop]; omega)]
  · rw [← List.drop_drop, List.take_append_drop]

theorem begins (h : Spans bs 0 cs stop) : bs = cs ++ bs.drop stop := by
  simpa using h.2.2

theorem whole (h : Spans bs 0 cs bs.length) : bs = cs := by
  simpa using h.2.2

theorem slice (h : Spans bs pos cs stop) : slice? bs pos cs.length = some cs := by
  obtain ⟨hlen, hin, hdrop⟩ := h
  rw [slice?_of_le (by omega), hdrop, List.take_left]

end Spans

-- ---------------------------------------------------------------------------
-- Numbers
-- ---------------------------------------------------------------------------

def leNat (bs : List UInt8) : Nat := Nat.ofDigits 256 (bs.map UInt8.toNat)

def leInt (bs : List UInt8) : Int := Int.bmod (leNat bs) (256 ^ bs.length)

/-- Bit `k` of a bit vector, counted from the low end of the first byte. -/
def bit (bs : List UInt8) (k : Nat) : Bool := (bs.getD (k / 8) 0).toNat.testBit (k % 8)

theorem leNat_lt (bs : List UInt8) : leNat bs < 256 ^ bs.length := by
  have h := Nat.ofDigits_lt_base_pow_length (b := 256) (l := bs.map UInt8.toNat) (by decide)
    (by intro x hx; obtain ⟨b, -, rfl⟩ := List.mem_map.mp hx; exact b.toNat_lt)
  simpa [leNat] using h

theorem leInt_bounds (h : 0 < bs.length) :
    -(256 ^ bs.length / 2 : Nat) ≤ leInt bs ∧ leInt bs < (256 ^ bs.length / 2 : Nat) := by
  obtain ⟨k, hk⟩ : ∃ k, 256 ^ bs.length = 2 * k := by
    refine ⟨128 * 256 ^ (bs.length - 1), ?_⟩
    conv_lhs => rw [show bs.length = bs.length - 1 + 1 by omega, Nat.pow_succ]
    omega
  have hpos : 0 < 2 * k := by rw [← hk]; positivity
  have h1 := Int.le_bmod (x := (leNat bs : Int)) hpos
  have h2 := Int.bmod_lt (x := (leNat bs : Int)) hpos
  unfold leInt
  rw [hk]
  omega

/-- A length stored in a signed 32-bit field. -/
def int32 (n : Nat) : Int := Int.bmod n (2 ^ 32)

theorem int32_of_lt (h : n < 2 ^ 31) : int32 n = n := by
  unfold int32
  rw [Int.bmod_def, if_pos (by omega)]
  omega

theorem int32_nonneg_iff (h : n < 2 ^ 32) : 0 ≤ int32 n ↔ n < 2 ^ 31 := by
  unfold int32
  rw [Int.bmod_def]
  split <;> omega

def uint32 (n : Nat) : Nat := n % 2 ^ 32

theorem uint32_of_lt (h : n < 2 ^ 32) : uint32 n = n := Nat.mod_eq_of_lt h

/-- A pointer difference converted to `size_t`. -/
def sizeT (i : Int) : Nat := (i % 2 ^ 64).toNat

theorem sizeT_sub (hn : n < 2 ^ 32) (hk : k ≤ n) : sizeT ((n : Int) - k) = n - k := by
  unfold sizeT
  omega

-- ---------------------------------------------------------------------------
-- Numerals
-- ---------------------------------------------------------------------------

def ascii (s : String) : List UInt8 := s.toList.map Char.toUInt8

def decimal (n : Nat) : List UInt8 := (Nat.toDigits 10 n).map Char.toUInt8

def decimalInt : Int → List UInt8
  | .ofNat n => decimal n
  | .negSucc n => 45 :: decimal (n + 1)

/-- `%0wd` of a number that is not negative. -/
def decimalPad (w n : Nat) : List UInt8 :=
  List.replicate (w - (decimal n).length) 48 ++ decimal n

theorem digit_ne_zero {c : Char} (h : c.isDigit = true) : c.toUInt8 ≠ 0 := by
  intro h0
  simp only [Char.isDigit, Bool.and_eq_true, decide_eq_true_eq] at h
  have h1 : 48 ≤ c.val.toNat := by simpa [UInt32.le_iff_toNat_le] using h.1
  have h2 : c.val.toNat ≤ 57 := by simpa [UInt32.le_iff_toNat_le] using h.2
  have h3 : c.val.toNat % 2 ^ 8 = 0 := by
    have := congrArg UInt8.toNat h0
    rwa [Char.toUInt8, UInt32.toNat_toUInt8] at this
  omega

theorem decimal_ne_zero : (0 : UInt8) ∉ decimal n := by
  intro h
  obtain ⟨c, hc, h0⟩ := List.mem_map.mp h
  exact digit_ne_zero (Nat.isDigit_of_mem_toDigits (by decide) (by decide) hc) h0

theorem decimal_length_le (hk : 0 < k) (h : n < 10 ^ k) : (decimal n).length ≤ k := by
  simpa [decimal] using Nat.toDigits_length 10 n k hk h

theorem decimalInt_ne_zero (i : Int) : (0 : UInt8) ∉ decimalInt i := by
  cases i with
  | ofNat n => exact decimal_ne_zero
  | negSucc n => simp [decimalInt, decimal_ne_zero]

theorem decimalInt_length_le {i : Int} (hk : 0 < k) (h1 : -(10 ^ k : Nat) < i)
    (h2 : i < (10 ^ k : Nat)) : (decimalInt i).length ≤ k + 1 := by
  cases i with
  | ofNat n =>
    have := decimal_length_le (n := n) hk (Int.ofNat_lt.mp h2)
    simp only [decimalInt]
    omega
  | negSucc n =>
    have := decimal_length_le (n := n + 1) hk (by
      have : ((n + 1 : Nat) : Int) < (10 ^ k : Nat) := by rw [Int.negSucc_eq] at h1; push_cast at h1 ⊢; omega
      exact_mod_cast this)
    simp only [decimalInt, List.length_cons]
    omega

theorem decimalPad_ne_zero {w : Nat} : (0 : UInt8) ∉ decimalPad w n := by
  simp only [decimalPad, List.mem_append, List.mem_replicate]
  rintro (⟨-, h⟩ | h)
  · exact absurd h (by decide)
  · exact decimal_ne_zero h

-- ---------------------------------------------------------------------------
-- C strings
-- ---------------------------------------------------------------------------

/-- The text a C string pointer shows: the bytes before the first zero. -/
def cstr (bs : List UInt8) : List UInt8 := bs.takeWhile (· ≠ 0)

theorem cstr_ne_zero (bs : List UInt8) : (0 : UInt8) ∉ cstr bs := by
  intro h
  simpa using List.mem_takeWhile_imp h

theorem cstr_of_ne_zero (h : (0 : UInt8) ∉ bs) : cstr bs = bs := by
  rw [cstr, List.takeWhile_eq_self_iff]
  intro b hb
  simp only [decide_eq_true_eq, ne_eq]
  rintro rfl
  exact h hb

def strlen? (bs : List UInt8) : Option Nat := bs.findIdx? (· == 0)

/-- `snprintf(dst + off, n, ...)` of a formatted text, with `0 < n`. -/
def snprintf? (dst : List UInt8) (off n : Nat) (text : List UInt8) : Option (List UInt8) :=
  let out := text.take (n - 1) ++ [0]
  if off + out.length ≤ dst.length then
    some (dst.take off ++ out ++ dst.drop (off + out.length))
  else none

/-- The buffer holds the text: its bytes, none of them zero, and a terminator. -/
def Holds (dst text : List UInt8) : Prop := (0 : UInt8) ∉ text ∧ ∃ tail, dst = text ++ 0 :: tail

theorem Holds.strlen (h : Holds dst text) : strlen? dst = some text.length := by
  obtain ⟨hz, tail, rfl⟩ := h
  have hnone : List.findIdx? (fun b : UInt8 => b == 0) text = none := by
    rw [List.findIdx?_eq_none_iff]
    intro b hb
    simp only [beq_eq_false_iff_ne, ne_eq]
    rintro rfl
    exact hz hb
  simp [strlen?, List.findIdx?_append, hnone, List.findIdx?_cons]

theorem Holds.length_lt (h : Holds dst text) : text.length < dst.length := by
  obtain ⟨-, tail, rfl⟩ := h
  simp

theorem Holds.cstr_eq (h : Holds dst text) : cstr dst = text := by
  obtain ⟨hz, tail, rfl⟩ := h
  rw [cstr, List.takeWhile_append_of_pos]
  · simp
  · intro b hb
    simp only [decide_eq_true_eq, ne_eq]
    rintro rfl
    exact hz hb

theorem snprintf?_length (h : snprintf? dst off n text = some cs) : cs.length = dst.length := by
  unfold snprintf? at h
  simp only at h
  split at h
  · cases h; simp_all; omega
  · cases h

theorem snprintf?_start (hz : (0 : UInt8) ∉ text) (hn : text.length < n) (hd : text.length < dst.length) :
    ∃ dst', snprintf? dst 0 n text = some dst' ∧ Holds dst' text ∧ dst'.length = dst.length := by
  have ht : text.take (n - 1) = text := List.take_of_length_le (by omega)
  have hs : snprintf? dst 0 n text = some (text ++ 0 :: dst.drop (text.length + 1)) := by
    rw [snprintf?, ht]
    simp only [List.length_append, List.length_singleton, List.take_zero, List.nil_append,
      Nat.zero_add, List.append_assoc, List.singleton_append]
    rw [if_pos (by omega)]
  exact ⟨_, hs, ⟨hz, _, rfl⟩, snprintf?_length hs⟩

theorem snprintf?_eq_none (hn : text.length < n) (hd : dst.length ≤ off + text.length) :
    snprintf? dst off n text = none := by
  have ht : text.take (n - 1) = text := List.take_of_length_le (by omega)
  rw [snprintf?, ht, if_neg (by simp; omega)]

theorem Holds.append (h : Holds dst text) (hz : (0 : UInt8) ∉ cs) (hn : cs.length < n)
    (hd : text.length + cs.length < dst.length) :
    ∃ dst', snprintf? dst text.length n cs = some dst' ∧ Holds dst' (text ++ cs) ∧
      dst'.length = dst.length := by
  obtain ⟨ht, tail, rfl⟩ := h
  have htake : cs.take (n - 1) = cs := List.take_of_length_le (by omega)
  have hs : snprintf? (text ++ 0 :: tail) text.length n cs =
      some ((text ++ cs) ++ 0 :: (text ++ 0 :: tail).drop (text.length + (cs.length + 1))) := by
    rw [snprintf?, htake]
    simp only [List.length_append, List.length_singleton] at hd ⊢
    rw [if_pos (by omega)]
    simp
  exact ⟨_, hs, ⟨by simp [ht, hz], _, rfl⟩, snprintf?_length hs⟩

theorem Holds.append_zero (h : Holds dst text) (hn : 2 ≤ n) (hd : text.length + 1 < dst.length) :
    ∃ dst', snprintf? dst text.length n [0] = some dst' ∧ Holds dst' text ∧
      dst'.length = dst.length := by
  obtain ⟨ht, tail, rfl⟩ := h
  have htake : [(0 : UInt8)].take (n - 1) = [0] := List.take_of_length_le (by simp; omega)
  have hs : snprintf? (text ++ 0 :: tail) text.length n [0] =
      some (text ++ 0 :: 0 :: (text ++ 0 :: tail).drop (text.length + 2)) := by
    rw [snprintf?, htake]
    simp only [List.length_append, List.length_singleton] at hd ⊢
    rw [if_pos (by omega)]
    simp
  exact ⟨_, hs, ⟨ht, _, rfl⟩, snprintf?_length hs⟩

end Bytes
