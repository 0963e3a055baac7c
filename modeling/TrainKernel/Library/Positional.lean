import Mathlib.Data.Nat.Digits.Lemmas

/-!
# Positional numerals

A numeral can be written from its first digit on, by division through falling powers of the base.
The first place is the one whose power of the base is the last that is not above the number; the
number 0 has a numeral of one digit.
-/

namespace TrainKernel.Library.Positional

variable {b k n : Nat}

/-- The digits of a number, the most significant first. -/
def numeral (b n : Nat) : List Nat := if n = 0 then [0] else (Nat.digits b n).reverse

/-- The digits from place `k` down to place 0. -/
def fromPlace (b : Nat) : Nat → Nat → List Nat
  | 0, n => [n]
  | k + 1, n => n / b ^ (k + 1) :: fromPlace b k (n % b ^ (k + 1))

/-- Place `k` is the first one of the numeral. -/
structure FirstPlace (b k n : Nat) : Prop where
  lt : n < b ^ (k + 1)
  le : k = 0 ∨ b ^ k ≤ n

theorem length_fromPlace (b k n : Nat) : (fromPlace b k n).length = k + 1 := by
  induction k generalizing n with
  | zero => rfl
  | succ k ih => rw [fromPlace, List.length_cons, ih]

/-- The last digit can be taken off instead of the first one. -/
theorem fromPlace_succ (b k n : Nat) :
    fromPlace b (k + 1) n = fromPlace b k (n / b) ++ [n % b] := by
  induction k generalizing n with
  | zero => rw [fromPlace, fromPlace, fromPlace, Nat.zero_add, Nat.pow_one, List.singleton_append]
  | succ k ih =>
    have hPow : b ^ (k + 2) = b * b ^ (k + 1) := Nat.pow_succ'
    have hFirst : n / b ^ (k + 2) = n / b / b ^ (k + 1) := by rw [hPow, Nat.div_div_eq_div_mul]
    have hRest : n % b ^ (k + 2) / b = n / b % b ^ (k + 1) := by
      rw [hPow, Nat.mod_mul_right_div_self]
    have hLast : n % b ^ (k + 2) % b = n % b := by rw [hPow, Nat.mod_mul_right_mod]
    rw [fromPlace, ih, hFirst, hRest, hLast, fromPlace, List.cons_append]

theorem FirstPlace.fromPlace_eq (h : FirstPlace b k n) (hBase : 1 < b) :
    fromPlace b k n = numeral b n := by
  rw [numeral]
  induction k generalizing n with
  | zero =>
    have hDigit : n < b := by simpa using h.lt
    split_ifs with hZero
    · rw [hZero]
      rfl
    · rw [Nat.digits_of_lt b n hZero hDigit]
      rfl
  | succ k ih =>
    have hLow : b ^ (k + 1) ≤ n := h.le.resolve_left (Nat.succ_ne_zero k)
    have hPos : 0 < n := (Nat.pow_pos (Nat.zero_lt_of_lt hBase)).trans_le hLow
    have hQuotient : b ^ k ≤ n / b := by
      rw [Nat.le_div_iff_mul_le (Nat.zero_lt_of_lt hBase), ← Nat.pow_succ]
      exact hLow
    have hPlace : FirstPlace b k (n / b) := by
      refine ⟨?_, .inr hQuotient⟩
      rw [Nat.div_lt_iff_lt_mul (Nat.zero_lt_of_lt hBase), ← Nat.pow_succ]
      exact h.lt
    have hSome : n / b ≠ 0 :=
      Nat.ne_zero_of_lt ((Nat.pow_pos (Nat.zero_lt_of_lt hBase)).trans_le hQuotient)
    rw [fromPlace_succ, ih hPlace, if_neg hSome, if_neg hPos.ne', Nat.digits_def' hBase hPos,
      List.reverse_cons]

theorem FirstPlace.length_numeral (h : FirstPlace b k n) (hBase : 1 < b) :
    (numeral b n).length = k + 1 := by
  rw [← h.fromPlace_eq hBase, length_fromPlace]

/-- A number below a power of the base has no more digits than the power has factors. -/
theorem FirstPlace.lt_of_lt_pow {m : Nat} (h : FirstPlace b k n) (hBase : 1 < b) (hm : 0 < m)
    (hn : n < b ^ m) : k < m := by
  cases h.le with
  | inl hZero => omega
  | inr hLow => exact (Nat.pow_lt_pow_iff_right hBase).mp (hLow.trans_lt hn)

theorem mem_numeral_lt (hBase : 1 < b) {d : Nat} (hd : d ∈ numeral b n) : d < b := by
  rw [numeral] at hd
  split_ifs at hd with hZero
  · rw [List.mem_singleton.mp hd]
    exact Nat.zero_lt_of_lt hBase
  · exact Nat.digits_lt_base hBase (List.mem_reverse.mp hd)

/-- A reader that multiplies by the base and adds the next digit gets the number back. -/
theorem foldl_numeral (b n : Nat) : (numeral b n).foldl (fun m d => m * b + d) 0 = n := by
  rw [numeral]
  split_ifs with hZero
  · rw [hZero]
    exact Nat.zero_mul b
  · rw [List.foldl_reverse]
    have hFold (l : List Nat) : l.foldr (fun d m => m * b + d) 0 = Nat.ofDigits b l := by
      induction l with
      | nil => rfl
      | cons d l ih =>
        rw [List.foldr_cons, ih, Nat.ofDigits_cons, Nat.mul_comm, Nat.add_comm]
    rw [hFold, Nat.ofDigits_digits]

/-- Only the numeral of 0 starts with the digit 0. -/
theorem exists_numeral_cons (b : Nat) (hn : 0 < n) :
    ∃ d l, numeral b n = d :: l ∧ 0 < d := by
  rw [numeral, if_neg hn.ne']
  have hSome : Nat.digits b n ≠ [] := Nat.digits_ne_nil_iff_ne_zero.mpr hn.ne'
  have hLast := Nat.getLast_digit_ne_zero b hn.ne'
  refine ⟨(Nat.digits b n).getLast hSome, (Nat.digits b n).dropLast.reverse, ?_, by omega⟩
  conv_lhs => rw [← List.dropLast_append_getLast hSome]
  rw [List.reverse_append]
  rfl

end TrainKernel.Library.Positional
