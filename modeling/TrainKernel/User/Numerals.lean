import TrainKernel.Library.Positional
import TrainKernel.User.Strings

/-!
# Numbers in strings

A number is written from its first digit on. The divisor for that digit is built up first; it
cannot overflow, since it never becomes larger than the number.
-/

namespace TrainKernel.User

open Function
open Library.Positional

/-- More rounds than a loop needs for a number of 32 bits. -/
def maxRounds : Nat := 33

/-- The first loop: the divisor is multiplied until the quotient is a digit. -/
def divisorLoop (base num : BitVec 32) : Nat → BitVec 32 → Except StringFault (BitVec 32)
  | 0, _ => .error .endless
  | rounds + 1, d =>
    if base ≤ num / d then divisorLoop base num rounds (d * base) else .ok d

def sputDigit (dgt : BitVec 32) : Byte :=
  if dgt.toInt < 10 then (dgt + 48).setWidth 8 else (dgt - 10 + 97).setWidth 8

/-- The second loop, down to the last digit. -/
def sputuintLoop (base : BitVec 32) :
    Nat → BitVec 32 → BitVec 32 → StringBuf → Except StringFault StringBuf
  | 0, _, _, _ => .error .endless
  | rounds + 1, d, num, s =>
    if d = 0 then .ok s
    else do
      let s ← sputc s (sputDigit (num / d))
      sputuintLoop base rounds (d / base) (num % d) s

/-- The number is an `int`, but every operation on it is one of unsigned numbers. -/
def sputuint (s : StringBuf) (num : BitVec 32) (base : BitVec 16) :
    Except StringFault StringBuf := do
  let base := base.setWidth 32
  let d ← divisorLoop base num maxRounds 1
  sputuintLoop base maxRounds d num s

def sputint (s : StringBuf) (num : BitVec 32) (base : BitVec 16) :
    Except StringFault StringBuf :=
  if num.toInt < 0 then do
    let s ← sputc s 45
    sputuint s (-num) base
  else sputuint s num base

def bfSize : Nat := 12

def storeChar (bf : Nat → Byte) (i : Nat) (c : Byte) : Except StringFault (Nat → Byte) :=
  if i < bfSize then .ok (update bf i c) else .error .outsideBuffer

def sui2aDigit (dgt : BitVec 32) : Byte :=
  (dgt + if dgt.toInt < 10 then 48 else 97 - 10).setWidth 8

/-- With the number `n` of digits so far and the index `i` of the next one. -/
def sui2aLoop (base : BitVec 32) :
    Nat → BitVec 32 → BitVec 32 → Nat → Nat → (Nat → Byte) →
      Except StringFault ((Nat → Byte) × Nat)
  | 0, _, _, _, _, _ => .error .endless
  | rounds + 1, d, num, n, i, bf =>
    if d = 0 then .ok (bf, i)
    else
      let dgt := num / d
      let num := num % d
      let d := d / base
      if n ≠ 0 ∨ 0 < dgt.toInt ∨ d = 0 then do
        let bf ← storeChar bf i (sui2aDigit dgt)
        sui2aLoop base rounds d num (n + 1) (i + 1) bf
      else sui2aLoop base rounds d num n i bf

def sui2a (num base : BitVec 32) (bf : Nat → Byte) (i : Nat) :
    Except StringFault (Nat → Byte) := do
  let d ← divisorLoop base num maxRounds 1
  let (bf, i) ← sui2aLoop base maxRounds d num 0 i bf
  storeChar bf i 0

def si2a (num : BitVec 32) (bf : Nat → Byte) : Except StringFault (Nat → Byte) :=
  if num.toInt < 0 then do
    let bf ← storeChar bf 0 45
    sui2a (-num) 10 bf 1
  else sui2a num 10 bf 0

/-- The character of a digit. -/
def digitChar (d : Nat) : Byte :=
  if d < 10 then BitVec.ofNat 8 (48 + d) else BitVec.ofNat 8 (97 + (d - 10))

def numeralOf (base n : Nat) : List Byte := (numeral base n).map digitChar

/-- A minus sign stands in front of a negative number. -/
def signedNumeral (base : Nat) (z : Int) : List Byte :=
  if z < 0 then 45 :: numeralOf base z.natAbs else numeralOf base z.natAbs

variable {base num d : BitVec 32} {k rounds : Nat}

/-- The divisor stays a power of the base that is not above the number, so that it does not
overflow and the rounds are enough. -/
theorem divisorLoop_ok (hBase : 2 ≤ base.toNat) (hPower : d.toNat = base.toNat ^ k)
    (hLow : k = 0 ∨ base.toNat ^ k ≤ num.toNat) (hRounds : 32 < k + rounds) :
    ∃ d' k', divisorLoop base num rounds d = .ok d' ∧ d'.toNat = base.toNat ^ k' ∧
      FirstPlace base.toNat k' num.toNat := by
  have hWord := num.isLt
  induction rounds generalizing d k with
  | zero =>
    have hPow : 2 ^ 32 ≤ base.toNat ^ k :=
      (Nat.pow_le_pow_left hBase 32).trans (Nat.pow_le_pow_right (by omega) (by omega))
    omega
  | succ rounds ih =>
    have hPos : 0 < d.toNat := hPower ▸ Nat.pow_pos (by omega)
    rw [divisorLoop]
    split_ifs with hMore
    · have hQuotient : base.toNat ≤ num.toNat / d.toNat := by
        rw [← BitVec.toNat_udiv]
        exact hMore
      have hNext : base.toNat ^ (k + 1) ≤ num.toNat := by
        rw [Nat.le_div_iff_mul_le hPos, Nat.mul_comm, hPower, ← Nat.pow_succ] at hQuotient
        exact hQuotient
      apply ih (k := k + 1)
      · rw [BitVec.toNat_mul, hPower, ← Nat.pow_succ]
        exact Nat.mod_eq_of_lt (hNext.trans_lt hWord)
      · exact .inr hNext
      · omega
    · refine ⟨d, k, rfl, hPower, ?_, hLow⟩
      have hQuotient : num.toNat / d.toNat < base.toNat := by
        rw [← BitVec.toNat_udiv]
        exact Nat.lt_of_not_le hMore
      rw [Nat.div_lt_iff_lt_mul hPos, hPower, ← Nat.pow_succ'] at hQuotient
      exact hQuotient

/-- The numbers that are divided in a round: the divisor is that of place `k`. -/
structure AtPlace (base d num : BitVec 32) (k : Nat) : Prop where
  base_le : 2 ≤ base.toNat ∧ base.toNat ≤ 36
  divisor_eq : d.toNat = base.toNat ^ k
  lt : num.toNat < base.toNat ^ (k + 1)

namespace AtPlace

theorem divisor_ne (h : AtPlace base d num k) : d ≠ 0 := by
  rintro rfl
  have hZero : 0 = base.toNat ^ k := h.divisor_eq
  exact (Nat.pow_pos (Nat.zero_lt_of_lt h.base_le.1)).ne hZero

theorem toNat_quotient (h : AtPlace base d num k) :
    (num / d).toNat = num.toNat / base.toNat ^ k := by
  rw [BitVec.toNat_udiv, h.divisor_eq]

theorem quotient_lt (h : AtPlace base d num k) : (num / d).toNat < 36 := by
  rw [h.toNat_quotient]
  have hLess := h.lt
  rw [Nat.pow_succ'] at hLess
  exact (Nat.div_lt_of_lt_mul (Nat.mul_comm .. ▸ hLess)).trans_le h.base_le.2

theorem toInt_quotient (h : AtPlace base d num k) :
    (num / d).toInt = (num.toNat / base.toNat ^ k : Nat) := by
  rw [← h.toNat_quotient]
  have hLess := h.quotient_lt
  exact BitVec.toInt_eq_toNat_of_lt (by omega)

theorem next (h : AtPlace base d num (k + 1)) : AtPlace base (d / base) (num % d) k := by
  refine ⟨h.base_le, ?_, ?_⟩
  · rw [BitVec.toNat_udiv, h.divisor_eq, Nat.pow_succ,
      Nat.mul_div_cancel _ (Nat.zero_lt_of_lt h.base_le.1)]
  · rw [BitVec.toNat_umod, h.divisor_eq]
    exact Nat.mod_lt _ (Nat.pow_pos (Nat.zero_lt_of_lt h.base_le.1))

theorem last (h : AtPlace base d num 0) : d / base = 0 := by
  apply BitVec.eq_of_toNat_eq
  rw [BitVec.toNat_udiv, h.divisor_eq, Nat.pow_zero]
  exact Nat.div_eq_of_lt h.base_le.1

end AtPlace

/-- The first loop ends, with the divisor for the first digit. -/
theorem firstDivisor_ok (num : BitVec 32) (hBase : 2 ≤ base.toNat ∧ base.toNat ≤ 36) :
    ∃ d k, divisorLoop base num maxRounds 1 = .ok d ∧ AtPlace base d num k ∧
      FirstPlace base.toNat k num.toNat := by
  have hOne : (1 : BitVec 32).toNat = base.toNat ^ 0 := rfl
  have hRounds : 32 < 0 + maxRounds := by decide
  obtain ⟨d, k, hDivisor, hPower, hPlace⟩ := divisorLoop_ok hBase.1 hOne (.inl rfl) hRounds
  exact ⟨d, k, hDivisor, ⟨hBase, hPower, hPlace.lt⟩, hPlace⟩

theorem setWidth_digit (x : BitVec 32) {n : Nat} (h : x.toNat = n) :
    x.setWidth 8 = BitVec.ofNat 8 n := by
  apply BitVec.eq_of_toNat_eq
  rw [BitVec.toNat_setWidth, h, BitVec.toNat_ofNat]

theorem sputDigit_eq {dgt : BitVec 32} (h : dgt.toNat < 36) :
    sputDigit dgt = digitChar dgt.toNat := by
  have hInt : dgt.toInt = dgt.toNat := BitVec.toInt_eq_toNat_of_lt (by omega)
  rw [sputDigit, digitChar, hInt]
  split_ifs with hSmall hDigit hDigit
  · exact setWidth_digit _ (by bv_omega)
  · omega
  · omega
  · exact setWidth_digit _ (by bv_omega)

theorem sui2aDigit_eq_sputDigit (dgt : BitVec 32) : sui2aDigit dgt = sputDigit dgt := by
  rw [sui2aDigit, sputDigit]
  split_ifs
  · rfl
  · have hSame : dgt + (97 - 10) = dgt - 10 + 97 := by
      bv_omega
    rw [hSame]

theorem sui2aDigit_eq {dgt : BitVec 32} (h : dgt.toNat < 36) :
    sui2aDigit dgt = digitChar dgt.toNat :=
  (sui2aDigit_eq_sputDigit dgt).trans (sputDigit_eq h)

/-! ## The digits -/

open StringBuf

variable {s : StringBuf} {l : List Byte} {bf : Nat → Byte} {n i : Nat}

theorem sputuintLoop_ok (h : AtPlace base d num k) (hHolds : s.Holds l)
    (hRoom : l.length + (k + 1) ≤ strMaxLen) (hRounds : k + 2 ≤ rounds) :
    ∃ s', sputuintLoop base rounds d num s = .ok s' ∧
      s'.Holds (l ++ (fromPlace base.toNat k num.toNat).map digitChar) := by
  induction k generalizing d num s l rounds with
  | zero =>
    obtain ⟨rounds, rfl⟩ := Nat.exists_eq_add_of_le' hRounds
    obtain ⟨s', hPut, hHolds'⟩ := hHolds.sputc (by omega) (sputDigit (num / d))
    rw [sputDigit_eq h.quotient_lt, h.toNat_quotient, Nat.pow_zero, Nat.div_one] at hHolds'
    refine ⟨s', ?_, hHolds'⟩
    rw [sputuintLoop, if_neg h.divisor_ne, hPut, h.last]
    rfl
  | succ k ih =>
    obtain ⟨rounds, rfl⟩ := Nat.exists_eq_add_of_le' (show 1 ≤ rounds by omega)
    obtain ⟨s₁, hPut, hFirst⟩ := hHolds.sputc (by omega) (sputDigit (num / d))
    rw [sputDigit_eq h.quotient_lt, h.toNat_quotient] at hFirst
    obtain ⟨s', hRest, hHolds'⟩ := ih h.next hFirst (by
      rw [List.length_append, List.length_singleton]
      omega) (show k + 2 ≤ rounds by omega)
    rw [BitVec.toNat_umod, h.divisor_eq, List.append_assoc] at hHolds'
    refine ⟨s', ?_, hHolds'⟩
    rw [sputuintLoop, if_neg h.divisor_ne, hPut]
    exact hRest

theorem places_lt_maxRounds (hPlace : FirstPlace base.toNat k num.toNat)
    (hBase : 2 ≤ base.toNat) : k + 2 ≤ maxRounds := by
  have hLess : num.toNat < base.toNat ^ 32 :=
    num.isLt.trans_le (Nat.pow_le_pow_left hBase 32)
  have hPlaces := hPlace.lt_of_lt_pow hBase (by decide) hLess
  rw [maxRounds]
  omega

theorem sputuint_ok (base : BitVec 16) (num : BitVec 32) (hHolds : s.Holds l)
    (hBase : 2 ≤ base.toNat ∧ base.toNat ≤ 36)
    (hRoom : l.length + (numeralOf base.toNat num.toNat).length ≤ strMaxLen) :
    ∃ s', sputuint s num base = .ok s' ∧ s'.Holds (l ++ numeralOf base.toNat num.toNat) := by
  have hWide : (base.setWidth 32).toNat = base.toNat := by
    rw [BitVec.toNat_setWidth]
    exact Nat.mod_eq_of_lt (base.isLt.trans (by decide))
  rw [← hWide] at hBase hRoom ⊢
  obtain ⟨d, k, hDivisor, hAt, hPlace⟩ := firstDivisor_ok num hBase
  rw [numeralOf, List.length_map, hPlace.length_numeral hBase.1] at hRoom
  obtain ⟨s', hLoop, hHolds'⟩ :=
    sputuintLoop_ok hAt hHolds hRoom (places_lt_maxRounds hPlace hBase.1)
  rw [hPlace.fromPlace_eq hBase.1] at hHolds'
  refine ⟨s', ?_, hHolds'⟩
  rw [sputuint, hDivisor]
  exact hLoop

theorem natAbs_neg {num : BitVec 32} (h : num.toInt < 0) : (-num).toNat = num.toInt.natAbs := by
  have hNat := BitVec.toInt_eq_toNat_cond num
  have hLess := num.isLt
  rw [BitVec.toNat_neg]
  split_ifs at hNat
  · omega
  · omega

theorem natAbs_nonneg {num : BitVec 32} (h : ¬num.toInt < 0) : num.toNat = num.toInt.natAbs := by
  have hNat := BitVec.toInt_eq_toNat_cond num
  have hLess := num.isLt
  split_ifs at hNat
  · omega
  · omega

theorem sputint_ok (base : BitVec 16) (num : BitVec 32) (hHolds : s.Holds l)
    (hBase : 2 ≤ base.toNat ∧ base.toNat ≤ 36)
    (hRoom : l.length + (signedNumeral base.toNat num.toInt).length ≤ strMaxLen) :
    ∃ s', sputint s num base = .ok s' ∧ s'.Holds (l ++ signedNumeral base.toNat num.toInt) := by
  rw [sputint]
  rw [signedNumeral] at hRoom ⊢
  split_ifs at hRoom ⊢ with hSign
  · rw [← natAbs_neg hSign] at hRoom ⊢
    rw [List.length_cons] at hRoom
    obtain ⟨s₁, hPut, hMinus⟩ := hHolds.sputc (by omega) 45
    obtain ⟨s', hDigits, hHolds'⟩ := sputuint_ok base (-num) hMinus hBase (by
      rw [List.length_append, List.length_singleton]
      omega)
    rw [List.append_assoc] at hHolds'
    refine ⟨s', ?_, hHolds'⟩
    rw [hPut]
    exact hDigits
  · rw [← natAbs_nonneg hSign] at hRoom ⊢
    exact sputuint_ok base num hHolds hBase hRoom

/-- The characters stand from index `i` on, and nothing is changed before them. -/
structure Written (bf bf' : Nat → Byte) (i : Nat) (l : List Byte) : Prop where
  cells : ∀ j, ∀ c ∈ l[j]?, bf' (i + j) = c
  before : ∀ j < i, bf' j = bf j

theorem Written.cons {bf' : Nat → Byte} {c : Byte} (h : Written (update bf i c) bf' (i + 1) l) :
    Written bf bf' i (c :: l) := by
  constructor
  · intro j c' hc'
    cases j with
    | zero =>
      rw [List.getElem?_cons_zero, Option.mem_some_iff] at hc'
      rw [Nat.add_zero, h.before i (Nat.lt_succ_self i), update_self, hc']
    | succ j =>
      rw [List.getElem?_cons_succ] at hc'
      rw [← h.cells j c' hc', Nat.add_assoc, Nat.add_comm 1 j]
  · intro j hj
    rw [h.before j (Nat.lt_succ_of_lt hj), update_of_ne (Nat.ne_of_lt hj)]

theorem Written.nil (bf : Nat → Byte) (i : Nat) : Written bf bf i [] := by
  refine ⟨?_, fun _ _ => rfl⟩
  rintro j c ⟨⟩

theorem storeChar_ok (h : i < bfSize) (c : Byte) : storeChar bf i c = .ok (update bf i c) :=
  if_pos h

theorem AtPlace.writes (h : AtPlace base d num k)
    (hFirst : n ≠ 0 ∨ k = 0 ∨ base.toNat ^ k ≤ num.toNat) :
    n ≠ 0 ∨ 0 < (num / d).toInt ∨ d / base = 0 := by
  rcases hFirst with hSome | rfl | hLow
  · exact .inl hSome
  · exact .inr (.inr h.last)
  · refine .inr (.inl ?_)
    rw [h.toInt_quotient]
    exact Int.natCast_pos.mpr
      (Nat.div_pos hLow (Nat.pow_pos (Nat.zero_lt_of_lt h.base_le.1)))

theorem sui2aLoop_ok (bf : Nat → Byte) (n : Nat) (h : AtPlace base d num k)
    (hFirst : n ≠ 0 ∨ k = 0 ∨ base.toNat ^ k ≤ num.toNat) (hRoom : i + (k + 1) < bfSize)
    (hRounds : k + 2 ≤ rounds) :
    ∃ bf', (sui2aLoop base rounds d num n i bf >>= fun r => storeChar r.1 r.2 0) = .ok bf' ∧
      Written bf bf' i ((fromPlace base.toNat k num.toNat).map digitChar ++ [0]) := by
  induction k generalizing d num n i bf rounds with
  | zero =>
    obtain ⟨rounds, rfl⟩ := Nat.exists_eq_add_of_le' hRounds
    have hDigit : sui2aDigit (num / d) = digitChar num.toNat := by
      rw [sui2aDigit_eq h.quotient_lt, h.toNat_quotient, Nat.pow_zero, Nat.div_one]
    refine ⟨_, ?_, (Written.nil _ _).cons.cons⟩
    rw [sui2aLoop, if_neg h.divisor_ne]
    dsimp only
    rw [if_pos (h.writes hFirst), storeChar_ok (by omega), h.last, hDigit]
    exact storeChar_ok hRoom 0
  | succ k ih =>
    obtain ⟨rounds, rfl⟩ := Nat.exists_eq_add_of_le' (show 1 ≤ rounds by omega)
    have hDigit := sui2aDigit_eq h.quotient_lt
    rw [h.toNat_quotient] at hDigit
    obtain ⟨bf', hLoop, hWritten⟩ :=
      ih (update bf i (sui2aDigit (num / d))) (n + 1) h.next (.inl (by omega))
        (show i + 1 + (k + 1) < bfSize by omega) (show k + 2 ≤ rounds by omega)
    rw [BitVec.toNat_umod, h.divisor_eq, hDigit] at hWritten
    refine ⟨bf', ?_, hWritten.cons⟩
    rw [sui2aLoop, if_neg h.divisor_ne]
    dsimp only
    rw [if_pos (h.writes hFirst), storeChar_ok (by omega)]
    exact hLoop

/-- Ten places are enough from base 10 on. -/
theorem length_numeralOf_le (hBase : 10 ≤ base.toNat)
    (hPlace : FirstPlace base.toNat k num.toNat) : k < 10 := by
  apply hPlace.lt_of_lt_pow (by omega) (by decide)
  calc num.toNat
    _ < 2 ^ 32 := num.isLt
    _ ≤ 10 ^ 10 := by decide
    _ ≤ base.toNat ^ 10 := Nat.pow_le_pow_left hBase 10

theorem sui2a_ok (num : BitVec 32) (bf : Nat → Byte)
    (hBase : 10 ≤ base.toNat ∧ base.toNat ≤ 36) (hIndex : i ≤ 1) :
    i + (numeralOf base.toNat num.toNat).length < bfSize ∧
      ∃ bf', sui2a num base bf i = .ok bf' ∧
        Written bf bf' i (numeralOf base.toNat num.toNat ++ [0]) := by
  have hTwo : 2 ≤ base.toNat := by omega
  obtain ⟨d, k, hDivisor, hAt, hPlace⟩ := firstDivisor_ok num ⟨hTwo, hBase.2⟩
  have hPlaces := length_numeralOf_le hBase.1 hPlace
  have hRoom : i + (k + 1) < bfSize := by
    rw [bfSize]
    omega
  obtain ⟨bf', hLoop, hWritten⟩ :=
    sui2aLoop_ok bf 0 hAt (.inr hPlace.le) hRoom (places_lt_maxRounds hPlace hTwo)
  rw [hPlace.fromPlace_eq hTwo] at hWritten
  rw [numeralOf, List.length_map, hPlace.length_numeral hTwo]
  refine ⟨hRoom, bf', ?_, hWritten⟩
  rw [sui2a, hDivisor]
  exact hLoop

theorem si2a_ok (num : BitVec 32) (bf : Nat → Byte) :
    (signedNumeral 10 num.toInt).length < bfSize ∧
      ∃ bf', si2a num bf = .ok bf' ∧ Written bf bf' 0 (signedNumeral 10 num.toInt ++ [0]) := by
  have hTen : 10 ≤ (10 : BitVec 32).toNat ∧ (10 : BitVec 32).toNat ≤ 36 := by decide
  rw [si2a, signedNumeral]
  split_ifs with hSign
  · obtain ⟨hLength, bf', hDigits, hWritten⟩ := sui2a_ok (-num) (update bf 0 45) hTen le_rfl
    rw [natAbs_neg hSign] at hLength hWritten
    refine ⟨?_, bf', ?_, hWritten.cons⟩
    · rw [List.length_cons, Nat.add_comm]
      exact hLength
    · rw [storeChar_ok (by decide)]
      exact hDigits
  · obtain ⟨hLength, hDigits⟩ := sui2a_ok num bf hTen (Nat.zero_le 1)
    rw [natAbs_nonneg hSign, Nat.zero_add] at hLength
    rw [natAbs_nonneg hSign] at hDigits
    exact ⟨hLength, hDigits⟩

theorem numbers_are_numerals :
    (∀ (s : StringBuf) (l : List Byte) (num : BitVec 32) (base : BitVec 16), s.Holds l →
      2 ≤ base.toNat ∧ base.toNat ≤ 36 →
      (l.length + (numeralOf base.toNat num.toNat).length ≤ strMaxLen →
        ∃ s', sputuint s num base = .ok s' ∧
          s'.Holds (l ++ numeralOf base.toNat num.toNat)) ∧
      (l.length + (signedNumeral base.toNat num.toInt).length ≤ strMaxLen →
        ∃ s', sputint s num base = .ok s' ∧
          s'.Holds (l ++ signedNumeral base.toNat num.toInt))) ∧
    (∀ (num : BitVec 32) (bf : Nat → Byte) (base : BitVec 32), base = 10 ∨ base = 16 →
      (numeralOf base.toNat num.toNat).length < bfSize ∧
        ∃ bf', sui2a num base bf 0 = .ok bf' ∧
          Written bf bf' 0 (numeralOf base.toNat num.toNat ++ [0])) ∧
    ∀ (num : BitVec 32) (bf : Nat → Byte),
      (signedNumeral 10 num.toInt).length < bfSize ∧
        ∃ bf', si2a num bf = .ok bf' ∧
          Written bf bf' 0 (signedNumeral 10 num.toInt ++ [0]) := by
  refine ⟨?_, ?_, si2a_ok⟩
  · intro s l num base hHolds hBase
    exact ⟨sputuint_ok base num hHolds hBase, sputint_ok base num hHolds hBase⟩
  · intro num bf base hBase
    have hSome : 10 ≤ base.toNat ∧ base.toNat ≤ 36 := by
      rcases hBase with rfl | rfl
      · decide
      · decide
    obtain ⟨hLength, hDigits⟩ := sui2a_ok num bf hSome (Nat.zero_le 1)
    rw [Nat.zero_add] at hLength
    exact ⟨hLength, hDigits⟩

/-- A string with nothing in it. -/
def emptyString : StringBuf := sinit ⟨0, fun _ => 0⟩

/-- `"x="` and behind it the least `int`, `"-2147483648"`. -/
theorem numbers_are_numerals_least : ∃ s s', s.Holds [120, 61] ∧
    sputint s 0x80000000 10 = .ok s' ∧
    s'.Holds [120, 61, 45, 50, 49, 52, 55, 52, 56, 51, 54, 52, 56] := by
  obtain ⟨s₁, -, hFirst⟩ := (Holds.sinit ⟨0, fun _ => 0⟩).sputc (by decide) 120
  obtain ⟨s, -, hHolds⟩ := hFirst.sputc (by decide) 61
  have hText : [120, 61] ++ signedNumeral 10 (BitVec.toInt 0x80000000#32) =
      [120, 61, 45, 50, 49, 52, 55, 52, 56, 51, 54, 52, 56] := by decide
  obtain ⟨s', hPut, hHolds'⟩ :=
    (numbers_are_numerals.1 s [120, 61] 0x80000000 10 hHolds (by decide)).2 (by decide)
  exact ⟨s, s', hHolds, hPut, hText ▸ hHolds'⟩

end TrainKernel.User
