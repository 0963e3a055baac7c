import Mathlib.Algebra.Ring.Nat
import Mathlib.Data.Nat.Init

/-!
# The lowest set bit of a word

Subtracting one flips the lowest set bit and everything below it, so a word and its
predecessor agree exactly above that bit.
-/

namespace TrainKernel.Library.LowestBit

theorem eq_of_lowest {n i : Nat} (hLow : ∀ j < i, n.testBit j = false) (hi : n.testBit i = true) :
    n = 2 ^ (i + 1) * (n / 2 ^ (i + 1)) + 2 ^ i := by
  apply Nat.eq_of_testBit_eq
  intro j
  have hLt : 2 ^ i < 2 ^ (i + 1) := Nat.pow_lt_pow_right (by decide) (Nat.lt_succ_self i)
  rw [Nat.testBit_two_pow_mul_add _ hLt, Nat.testBit_two_pow, Nat.testBit_div_two_pow]
  rcases Nat.lt_trichotomy j i with hj | rfl | hj
  · rw [hLow j hj, if_pos (by omega)]
    simp [Nat.ne_of_gt hj]
  · simp [hi]
  · rw [if_neg (by omega), Nat.sub_add_cancel (by omega)]

theorem testBit_and_pred {n i : Nat} (hLow : ∀ j < i, n.testBit j = false)
    (hi : n.testBit i = true) (j : Nat) :
    (n &&& (n - 1)).testBit j = (n.testBit j && decide (j ≠ i)) := by
  have hn := eq_of_lowest hLow hi
  have hPos : 0 < 2 ^ i := Nat.two_pow_pos i
  have hLt : 2 ^ i < 2 ^ (i + 1) := Nat.pow_lt_pow_right (by decide) (Nat.lt_succ_self i)
  have hPred : n - 1 = 2 ^ (i + 1) * (n / 2 ^ (i + 1)) + (2 ^ i - 1) := by omega
  rw [Nat.testBit_and, hPred, Nat.testBit_two_pow_mul_add _ (by omega : 2 ^ i - 1 < 2 ^ (i + 1)),
    Nat.testBit_two_pow_sub_one, Nat.testBit_div_two_pow]
  rcases Nat.lt_trichotomy j i with hj | rfl | hj
  · simp [hLow j hj]
  · simp
  · rw [if_neg (by omega), Nat.sub_add_cancel (by omega)]
    simp [Nat.ne_of_gt hj]

theorem xor_and_pred {w : Nat} {x : BitVec w} (hx : x ≠ 0) :
    x ^^^ (x &&& (x - 1)) = BitVec.twoPow w x.ctz.toNat := by
  have hLow : ∀ j < x.ctz.toNat, x.toNat.testBit j = false := fun j hj =>
    BitVec.getLsbD_false_of_lt_ctz hj
  have hBit : x.toNat.testBit x.ctz.toNat = true := BitVec.getLsbD_true_ctz_of_ne_zero hx
  have hPos : 0 < x.toNat :=
    Nat.pos_of_ne_zero fun h => hx (BitVec.eq_of_toNat_eq (by simpa using h))
  have hw : 0 < w := by
    rcases Nat.eq_zero_or_pos w with rfl | hw
    · exact absurd (BitVec.eq_nil x) hx
    · exact hw
  have hOne : (x - 1).toNat = x.toNat - 1 := by
    have hUnit : (1 : BitVec w).toNat = 1 := BitVec.toNat_one hw
    rw [BitVec.toNat_sub_of_le (BitVec.le_def.mpr (by omega)), hUnit]
  apply BitVec.eq_of_getLsbD_eq
  intro j hj
  rw [BitVec.getLsbD_xor, ← BitVec.testBit_toNat (x &&& (x - 1)), BitVec.toNat_and, hOne,
    testBit_and_pred hLow hBit, BitVec.getLsbD_twoPow, BitVec.testBit_toNat]
  by_cases h : j = x.ctz.toNat
  · rw [h] at hj ⊢
    simp [hj, BitVec.getLsbD_true_ctz_of_ne_zero hx]
  · simp [h, Ne.symm h]

end TrainKernel.Library.LowestBit
