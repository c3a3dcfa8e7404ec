import RplListener.Lib.Bytes

/-!
# Reading numerals back

What a text of digits says: `numeral?` reads a number in a base, the highest
digit first, `integer?` a decimal number that may have a sign, and `unhex?`
bytes of two hexadecimal digits each. A text is read back to what it was made
from, so no two of them look the same.
-/

namespace Bytes

variable {bs cs text : List UInt8} {base n k : Nat}

-- ---------------------------------------------------------------------------
-- Digits
-- ---------------------------------------------------------------------------

def digitValue (b : UInt8) : Option Nat :=
  if 48 ≤ b.toNat ∧ b.toNat ≤ 57 then some (b.toNat - 48)
  else if 97 ≤ b.toNat ∧ b.toNat ≤ 102 then some (b.toNat - 87)
  else none

def digit? (base : Nat) (b : UInt8) : Option Nat := (digitValue b).filter (· < base)

def digits? (base : Nat) : List UInt8 → Option (List Nat)
  | [] => some []
  | b :: bs => do
    let d ← digit? base b
    let ds ← digits? base bs
    pure (d :: ds)

/-- The number that is written with these digits, the highest first. -/
def numeral? (base : Nat) (text : List UInt8) : Option Nat :=
  (digits? base text).map fun ds => Nat.ofDigits base ds.reverse

def unhex? : List UInt8 → Option (List UInt8)
  | [] => some []
  | [_] => none
  | high :: low :: rest => do
    let h ← digit? 16 high
    let l ← digit? 16 low
    let bs ← unhex? rest
    pure (UInt8.ofNat (16 * h + l) :: bs)

theorem digits?_map {α : Type} {f : α → UInt8} {v : α → Nat} {xs : List α}
    (h : ∀ x ∈ xs, digit? base (f x) = some (v x)) : digits? base (xs.map f) = some (xs.map v) := by
  induction xs with
  | nil => rfl
  | cons x xs ih =>
    obtain ⟨hx, hxs⟩ := List.forall_mem_cons.mp h
    simp only [List.map_cons, digits?, hx, ih hxs]
    rfl

-- ---------------------------------------------------------------------------
-- Decimal numerals
-- ---------------------------------------------------------------------------

def beNat (bs : List UInt8) : Nat := leNat bs.reverse

theorem beNat_cons (b : UInt8) (bs : List UInt8) :
    beNat (b :: bs) = beNat bs + 256 ^ bs.length * b.toNat := by
  simp [beNat, leNat, Nat.ofDigits_append]

theorem beNat_lt (bs : List UInt8) : beNat bs < 256 ^ bs.length := by
  simpa [beNat] using leNat_lt bs.reverse

theorem leNat_injective (hlen : bs.length = cs.length) (h : leNat bs = leNat cs) : bs = cs := by
  have hlt : ∀ ds : List UInt8, ∀ x ∈ ds.map UInt8.toNat, x < 256 := by
    intro ds x hx
    obtain ⟨b, -, rfl⟩ := List.mem_map.mp hx
    exact b.toNat_lt
  have hmap := Nat.ofDigits_inj_of_len_eq (by decide) (by simpa using hlen) (hlt bs) (hlt cs) h
  exact List.map_inj_right (fun _ _ => UInt8.toNat_inj.mp) |>.mp hmap

theorem beNat_eq_leNat_iff : beNat bs = leNat bs ↔ bs.reverse = bs := by
  constructor
  · exact leNat_injective List.length_reverse
  · intro h
    rw [beNat, h]

-- ---------------------------------------------------------------------------
-- Binary numerals
-- ---------------------------------------------------------------------------

def byteBits (b : UInt8) : List Bool := (List.range 8).map fun k => b.toNat.testBit (7 - k)

@[simp] theorem byteBits_length (b : UInt8) : (byteBits b).length = 8 := by simp [byteBits]

theorem byteBits_value (b : UInt8) : Nat.ofDigits 2 ((byteBits b).reverse.map Bool.toNat) = b.toNat := by
  have hall : ∀ n : Fin 256, Nat.ofDigits 2
      (((List.range 8).map fun k => n.val.testBit (7 - k)).reverse.map Bool.toNat) = n.val := by
    decide +kernel
  exact hall ⟨b.toNat, b.toNat_lt⟩

/-- The bits of all bytes in a row. -/
def allBits (bs : List UInt8) : List Bool := bs.flatMap byteBits

theorem allBits_cons (b : UInt8) (bs : List UInt8) : allBits (b :: bs) = byteBits b ++ allBits bs :=
  List.flatMap_cons

theorem allBits_length (bs : List UInt8) : (allBits bs).length = 8 * bs.length := by
  induction bs with
  | nil => rfl
  | cons b bs ih =>
    rw [allBits_cons, List.length_append, ih, byteBits_length, List.length_cons]
    omega

theorem allBits_value (bs : List UInt8) :
    Nat.ofDigits 2 ((allBits bs).reverse.map Bool.toNat) = beNat bs := by
  induction bs with
  | nil => rfl
  | cons b bs ih =>
    rw [allBits_cons, List.reverse_append, List.map_append, Nat.ofDigits_append, ih,
      byteBits_value, beNat_cons, List.length_map, List.length_reverse, allBits_length,
      Nat.pow_mul]

theorem allBits_getElem? (h : k < 8 * bs.length) :
    (allBits bs)[k]? = some ((bs.getD (k / 8) 0).toNat.testBit (7 - k % 8)) := by
  induction bs generalizing k with
  | nil => simp at h
  | cons b bs ih =>
    rw [allBits_cons]
    by_cases hk : k < 8
    · rw [List.getElem?_append_left (by simpa using hk), Nat.div_eq_of_lt hk, Nat.mod_eq_of_lt hk]
      simp [byteBits, hk]
    · rw [List.length_cons] at h
      rw [List.getElem?_append_right (by simpa using Nat.le_of_not_lt hk), byteBits_length,
        ih (by omega), show k / 8 = (k - 8) / 8 + 1 by omega, show k % 8 = (k - 8) % 8 by omega]
      rfl

/-- The last `n` bits of the bytes. -/
def lastBits (n : Nat) (bs : List UInt8) : List Bool := (allBits bs).drop (8 * bs.length - n)

theorem lastBits_length (h : n ≤ 8 * bs.length) : (lastBits n bs).length = n := by
  rw [lastBits, List.length_drop, allBits_length]
  omega

theorem lastBits_value (h : n ≤ 8 * bs.length) :
    Nat.ofDigits 2 ((lastBits n bs).map Bool.toNat).reverse = beNat bs % 2 ^ n := by
  have hsmall : ∀ d ∈ (allBits bs).reverse.map Bool.toNat, d < 2 := by
    intro d hd
    obtain ⟨b, -, rfl⟩ := List.mem_map.mp hd
    exact Bool.toNat_lt b
  rw [← allBits_value, Nat.ofDigits_mod_pow_eq_ofDigits_take n (by decide) _ hsmall,
    lastBits, ← List.map_reverse, List.reverse_drop, allBits_length, List.map_take]
  congr 3
  omega

theorem ofDigits_testBit (bits : List Bool) (k : Nat) :
    (Nat.ofDigits 2 (bits.map Bool.toNat)).testBit k = bits.getD k false := by
  induction bits generalizing k with
  | nil => simp
  | cons b bits ih =>
    rw [List.map_cons, Nat.ofDigits_cons]
    cases k with
    | zero => cases b <;> simp [Nat.testBit_zero, Nat.add_mod]
    | succ k =>
      have hhalf : (b.toNat + 2 * Nat.ofDigits 2 (bits.map Bool.toNat)) / 2 =
          Nat.ofDigits 2 (bits.map Bool.toNat) := by
        have hb := Bool.toNat_lt b
        omega
      rw [Nat.testBit_succ, hhalf, ih, List.getD_cons_succ]

theorem lastBits_getElem? (h : n ≤ 8 * bs.length) (hk : k < n) :
    (lastBits n bs).reverse[k]? = some ((beNat bs % 2 ^ n).testBit k) := by
  have hlt : k < (lastBits n bs).reverse.length := by rwa [List.length_reverse, lastBits_length h]
  rw [← lastBits_value h, ← List.map_reverse, ofDigits_testBit, List.getD_eq_getElem?_getD,
    List.getElem?_eq_getElem hlt, Option.getD_some]

end Bytes
