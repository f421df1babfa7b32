import Mathlib

/-!
# Masks

Bit vectors as sets of small numbers: one bit (`1#w <<< i`), adding it and taking it away.
-/

namespace GvsocPulp.Lib

open BitVec

variable {w i j : Nat} {mask : BitVec w}

theorem getLsbD_bit (hi : i < w) : (1#w <<< i).getLsbD j = decide (i = j) := by
  rw [← twoPow_eq, getLsbD_twoPow]
  simp [hi]

theorem bit_ne_zero (hi : i < w) : 1#w <<< i ≠ 0#w := by
  intro h
  have hbit := getLsbD_bit (j := i) hi
  rw [h] at hbit
  simp at hbit

theorem getLsbD_or_bit (hi : i < w) : (mask ||| 1#w <<< i).getLsbD j = (mask.getLsbD j || decide (i = j)) := by
  rw [getLsbD_or, getLsbD_bit hi]

theorem getLsbD_or_bit_of_ne (hne : j ≠ i) : (mask ||| 1#w <<< i).getLsbD j = mask.getLsbD j := by
  rw [getLsbD_or, ← twoPow_eq, getLsbD_twoPow]
  simp [hne.symm]

theorem getLsbD_andNot (hj : j < w) {gone : BitVec w} :
    (mask &&& ~~~gone).getLsbD j = (mask.getLsbD j && !gone.getLsbD j) := by
  simp [hj]

theorem getLsbD_andNot_bit (hi : i < w) : (mask &&& ~~~(1#w <<< i)).getLsbD j = (mask.getLsbD j && decide (i ≠ j)) := by
  by_cases hj : j < w
  · rw [getLsbD_andNot hj, getLsbD_bit hi]
    simp
  · rw [getLsbD_of_ge _ _ (not_lt.1 hj), getLsbD_of_ge mask _ (not_lt.1 hj)]
    rfl

theorem getLsbD_andNot_bit_self (hi : i < w) : (mask &&& ~~~(1#w <<< i)).getLsbD i = false := by
  simp [getLsbD_andNot_bit hi]

theorem getLsbD_andNot_bit_of_ne (hi : i < w) (hne : j ≠ i) :
    (mask &&& ~~~(1#w <<< i)).getLsbD j = mask.getLsbD j := by
  simp [getLsbD_andNot_bit hi, hne.symm]

/-- The mask of the numbers below `n`. -/
theorem getLsbD_below {n : Nat} (hn : n < w) : ((1#w <<< n) - 1#w).getLsbD j = decide (j < n) := by
  have hpow : 1 ≤ 2 ^ n := Nat.one_le_two_pow
  have hlt : 2 ^ n < 2 ^ w := Nat.pow_lt_pow_right (by decide) hn
  have hone : 1 % 2 ^ w = 1 := Nat.mod_eq_of_lt (by omega)
  have hval : ((1#w <<< n) - 1#w).toNat = 2 ^ n - 1 := by
    rw [← twoPow_eq, toNat_sub_of_le, toNat_twoPow, toNat_ofNat, hone,
      Nat.mod_eq_of_lt hlt]
    rw [le_def, toNat_twoPow, toNat_ofNat, hone, Nat.mod_eq_of_lt hlt]
    exact hpow
  rw [BitVec.getLsbD, hval, Nat.testBit_two_pow_sub_one]

theorem eq_zero_iff_getLsbD : mask = 0#w ↔ ∀ j, mask.getLsbD j = false :=
  ⟨fun h j => by rw [h]; simp, fun h => eq_of_getLsbD_eq fun j _ => by rw [h j]; simp⟩

theorem exists_getLsbD (h : mask ≠ 0#w) : ∃ j, mask.getLsbD j = true := by
  by_contra hall
  exact h (eq_zero_iff_getLsbD.2 fun j => Bool.eq_false_iff.2 fun hj => hall ⟨j, hj⟩)

theorem ctz_le (hj : mask.getLsbD j = true) : mask.ctz.toNat ≤ j := by
  by_contra hlt
  rw [getLsbD_false_of_lt_ctz (not_le.1 hlt)] at hj
  cases hj

end GvsocPulp.Lib
