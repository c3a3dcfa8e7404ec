import RplListener.Rows.Image

/-!
# Texts of fields

No text the decoder prints by its own formats has a zero byte, and each fits
the block that is allocated for it.
-/

namespace RplListener

open Bytes

theorem integerText_ne_zero (isUnsigned : Bool) (bs : List UInt8) :
    (0 : UInt8) ∉ integerText isUnsigned bs := by
  unfold integerText
  split
  · exact decimal_ne_zero
  · exact decimalInt_ne_zero _

theorem integerText_length_le {isUnsigned : Bool} {bs : List UInt8} {k : Nat} (hk : 0 < k)
    (hbs : 0 < bs.length) (h : 256 ^ bs.length ≤ 10 ^ k) :
    (integerText isUnsigned bs).length ≤ k + 1 := by
  have hlt := leNat_lt bs
  unfold integerText
  split
  · have := decimal_length_le hk (show leNat bs < 10 ^ k by omega)
    omega
  · have hb := leInt_bounds hbs
    have hpos : 0 < 256 ^ bs.length := by positivity
    refine decimalInt_length_le hk ?_ ?_ <;>
      generalize 256 ^ bs.length = b at h hb hpos <;> generalize 10 ^ k = t at h ⊢ <;> omega

theorem datetimeText_ne_zero (n : Nat) : (0 : UInt8) ∉ datetimeText n := by
  simp only [datetimeText, List.mem_append, decimalPad_ne_zero, false_or, or_false]
  decide

theorem timeText_ne_zero (n : Nat) : (0 : UInt8) ∉ timeText n := by
  simp only [timeText, List.mem_append, decimalPad_ne_zero, false_or, or_false]
  decide

theorem decimalPad_length_le_max {w n k : Nat} (hk : 0 < k) (h : n < 10 ^ k) :
    (decimalPad w n).length ≤ max w k := by
  have := decimal_length_le hk h
  simp only [decimalPad, List.length_append, List.length_replicate]
  omega

theorem datetimeText_length_lt {n : Nat} (h : n < 256 ^ 8) : (datetimeText n).length < 32 := by
  have h1 := decimalPad_length_le_max (w := 4) (n := n / 1000000 / 10000) (k := 10) (by decide) (by omega)
  have h2 := decimalPad_length_le_max (w := 2) (n := n / 1000000 % 10000 / 100) (k := 2) (by decide) (by omega)
  have h3 := decimalPad_length_le_max (w := 2) (n := n / 1000000 % 100) (k := 2) (by decide) (by omega)
  have h4 := decimalPad_length_le_max (w := 2) (n := n % 1000000 / 10000) (k := 2) (by decide) (by omega)
  have h5 := decimalPad_length_le_max (w := 2) (n := n % 1000000 % 10000 / 100) (k := 2) (by decide) (by omega)
  have h6 := decimalPad_length_le_max (w := 2) (n := n % 1000000 % 100) (k := 2) (by decide) (by omega)
  have h7 : (ascii "-").length = 1 ∧ (ascii " ").length = 1 ∧ (ascii ":").length = 1 := by decide
  simp only [datetimeText, List.length_append]
  omega

theorem timeText_length_lt {n : Nat} (h : n < 256 ^ 3) : (timeText n).length < 16 := by
  have h1 := decimalPad_length_le_max (w := 2) (n := n / 10000) (k := 4) (by decide) (by omega)
  have h2 := decimalPad_length_le_max (w := 2) (n := n % 10000 / 100) (k := 2) (by decide) (by omega)
  have h3 := decimalPad_length_le_max (w := 2) (n := n % 100) (k := 2) (by decide) (by omega)
  have h4 : (ascii ":").length = 1 := by decide
  simp only [timeText, List.length_append]
  omega

theorem yearText_length_lt {n : Nat} (h : n < 256) : (yearText n).length < 16 := by
  have := decimalPad_length_le_max (w := 4) (n := n + 1900) (k := 4) (by decide) (by omega)
  simp only [yearText]
  omega

theorem binDigit_ne_zero (b : Bool) : (0 : UInt8) ∉ binDigit b := by cases b <;> decide

theorem hexDigit_ne_zero {n : Nat} (h : n < 16) : hexDigit n ≠ 0 := by
  have : ∀ k : Fin 16, hexDigit k ≠ 0 := by decide
  exact this ⟨n, h⟩

theorem hexByte_ne_zero (b : UInt8) : (0 : UInt8) ∉ hexByte b := by
  have hb := b.toNat_lt
  simp only [hexByte, List.mem_cons, List.not_mem_nil, or_false, not_or]
  exact ⟨(hexDigit_ne_zero (by omega)).symm, (hexDigit_ne_zero (by omega)).symm⟩

end RplListener
