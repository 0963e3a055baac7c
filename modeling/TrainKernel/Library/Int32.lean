import Mathlib.Algebra.Ring.Int.Defs
import Mathlib.Algebra.Ring.Nat

/-!
# Machine integers

Arithmetic on integers of 32 bits is exact arithmetic followed by a reduction to the range of such
integers. Sums, differences and products can be reduced at any time.
-/

namespace TrainKernel.Library.Int32

variable {a b n : Int}

/-- The integer of 32 bits with the same low bits. -/
def wrap32 (n : Int) : Int := n.bmod (2 ^ 32)

def FitsInt (n : Int) : Prop := -2 ^ 31 ≤ n ∧ n < 2 ^ 31

instance : DecidablePred FitsInt := fun _ => inferInstanceAs (Decidable (_ ∧ _))

theorem fits_wrap32 (n : Int) : FitsInt (wrap32 n) :=
  ⟨Int.le_bmod (by decide), Int.bmod_lt (by decide)⟩

theorem wrap32_of_fits (h : FitsInt n) : wrap32 n = n := Int.bmod_eq_of_le h.1 h.2

theorem wrap32_eq_self_iff : wrap32 n = n ↔ FitsInt n := by
  constructor
  · intro h
    rw [← h]
    exact fits_wrap32 n
  · exact wrap32_of_fits

/-- A sum of two machine integers that is too large comes out negative. -/
theorem wrap32_neg (hLow : 2 ^ 31 ≤ n) (hHigh : n < 2 ^ 32) : wrap32 n < 0 := by
  rw [wrap32, Int.bmod_eq_emod, Int.emod_eq_of_lt (by omega) (by omega)]
  split_ifs <;> omega

theorem wrap32_wrap32_add (a b : Int) : wrap32 (wrap32 a + b) = wrap32 (a + b) := Int.bmod_add_bmod

theorem wrap32_mul_wrap32 (a b : Int) : wrap32 (a * wrap32 b) = wrap32 (a * b) := Int.mul_bmod_bmod

end TrainKernel.Library.Int32
