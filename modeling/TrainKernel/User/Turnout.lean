import Mathlib.Data.Fin.VecNotation
import TrainKernel.User.Track

/-!
# Turnouts

The bitmap keeps a bit for each turnout, which is set while the turnout is curved. A failed
assertion on the number or the direction of a turnout is `none`.
-/

namespace TrainKernel.User

abbrev TrackBitmap := BitVec 32

def toBitAddress (turnoutNumber : Int) : Option Nat :=
  if turnoutNumber ≥ 153 ∧ turnoutNumber ≤ 156 then some (turnoutNumber - 135).toNat
  else if 1 ≤ turnoutNumber ∧ turnoutNumber ≤ 18 then some (turnoutNumber - 1).toNat
  else none

def setBitmap (trackBitmap : TrackBitmap) (turnoutNumber : Int) (direction : Char) :
    Option TrackBitmap := do
  let bitAddress ← toBitAddress turnoutNumber
  if direction = 'c' then return trackBitmap ||| (1#32 <<< bitAddress)
  else if direction = 's' then return trackBitmap &&& ~~~(1#32 <<< bitAddress)
  else none

def turnoutIsCurved (trackBitmap : TrackBitmap) (turnoutNumber : Int) : Option Bool := do
  let bitAddress ← toBitAddress turnoutNumber
  return (trackBitmap.sshiftRight bitAddress) &&& 1#32 ≠ 0#32

/-- The numbers of the turnouts. -/
def IsTurnout (turnoutNumber : Int) : Prop :=
  (1 ≤ turnoutNumber ∧ turnoutNumber ≤ 18) ∨ (153 ≤ turnoutNumber ∧ turnoutNumber ≤ 156)

section Bits

variable {trackBitmap : TrackBitmap} {turnoutNumber : Int} {a b : Nat}

theorem toBitAddress_lt (h : toBitAddress turnoutNumber = some a) : a < 32 := by
  rw [toBitAddress] at h
  split_ifs at h with hHigh hLow
  · rw [← Option.some.inj h]
    omega
  · rw [← Option.some.inj h]
    omega

theorem toBitAddress_eq_none : toBitAddress turnoutNumber = none ↔ ¬IsTurnout turnoutNumber := by
  rw [toBitAddress]
  split_ifs with hHigh hLow
  · exact iff_of_false not_false (not_not_intro (Or.inr hHigh))
  · exact iff_of_false not_false (not_not_intro (Or.inl hLow))
  · exact iff_of_true rfl (not_or.mpr ⟨hLow, hHigh⟩)

theorem exists_bitAddress (h : IsTurnout turnoutNumber) :
    ∃ bitAddress, toBitAddress turnoutNumber = some bitAddress :=
  Option.ne_none_iff_exists'.mp fun hNone => toBitAddress_eq_none.mp hNone h

theorem toBitAddress_injective (h : toBitAddress turnoutNumber = some a)
    {m : Int} (h' : toBitAddress m = some a) : turnoutNumber = m := by
  rw [toBitAddress] at h h'
  split_ifs at h h' with hHigh hHigh' hLow hLow hLow'
  all_goals
    have hSame := Option.some.inj (h.trans h'.symm)
    omega

theorem and_one_ne_zero (x : TrackBitmap) : decide (x &&& 1#32 ≠ 0#32) = x.getLsbD 0 := by
  rw [BitVec.and_one_eq_setWidth_ofBool_getLsbD]
  cases x.getLsbD 0
  · rfl
  · rfl

theorem getLsbD_bit (h : b < 32) : (1#32 <<< a).getLsbD b = decide (b = a) := by
  rw [BitVec.getLsbD_shiftLeft, BitVec.getLsbD_one]
  simp only [h, decide_true, Bool.true_and, Nat.zero_lt_succ]
  rw [Bool.eq_iff_iff]
  simp only [Bool.and_eq_true, Bool.not_eq_true', decide_eq_false_iff_not, decide_eq_true_eq]
  omega

theorem turnoutIsCurved_eq (h : toBitAddress turnoutNumber = some a) :
    turnoutIsCurved trackBitmap turnoutNumber = some (trackBitmap.getLsbD a) := by
  have hBit : (trackBitmap.sshiftRight a).getLsbD 0 = trackBitmap.getLsbD a := by
    rw [BitVec.getLsbD_sshiftRight, Nat.add_zero, if_pos (toBitAddress_lt h)]
    rfl
  rw [turnoutIsCurved, h, ← hBit, ← and_one_ne_zero]
  rfl

theorem turnoutIsCurved_eq_none (h : toBitAddress turnoutNumber = none) :
    turnoutIsCurved trackBitmap turnoutNumber = none := by
  rw [turnoutIsCurved, h]
  rfl

theorem setBitmap_curved (h : toBitAddress turnoutNumber = some a) :
    setBitmap trackBitmap turnoutNumber 'c' = some (trackBitmap ||| (1#32 <<< a)) := by
  rw [setBitmap, h, Option.bind_eq_bind, Option.bind_some, if_pos rfl, Option.pure_def]

theorem setBitmap_straight (h : toBitAddress turnoutNumber = some a) :
    setBitmap trackBitmap turnoutNumber 's' = some (trackBitmap &&& ~~~(1#32 <<< a)) := by
  rw [setBitmap, h, Option.bind_eq_bind, Option.bind_some, if_neg (by decide), if_pos rfl,
    Option.pure_def]

theorem getLsbD_setBitmap (h : toBitAddress turnoutNumber = some a) (curved : Bool)
    (trackBitmap : TrackBitmap) :
    ∃ trackBitmap', setBitmap trackBitmap turnoutNumber (if curved then 'c' else 's') =
        some trackBitmap' ∧
      ∀ b < 32, trackBitmap'.getLsbD b = if b = a then curved else trackBitmap.getLsbD b := by
  cases curved with
  | true =>
    rw [if_pos rfl]
    refine ⟨_, setBitmap_curved h, fun b hb => ?_⟩
    rw [BitVec.getLsbD_or, getLsbD_bit hb]
    split_ifs with hSame
    · rw [decide_eq_true hSame, Bool.or_true]
    · rw [decide_eq_false hSame, Bool.or_false]
  | false =>
    rw [if_neg Bool.false_ne_true]
    refine ⟨_, setBitmap_straight h, fun b hb => ?_⟩
    rw [BitVec.getLsbD_and, BitVec.getLsbD_not, getLsbD_bit hb, decide_eq_true hb, Bool.true_and]
    split_ifs with hSame
    · rw [decide_eq_true hSame, Bool.not_true, Bool.and_false]
    · rw [decide_eq_false hSame, Bool.not_false, Bool.and_true]

/-- Setting a turnout sets it and no other. -/
theorem turnoutIsCurved_setBitmap (h : IsTurnout turnoutNumber) (curved : Bool)
    (trackBitmap : TrackBitmap) :
    ∃ trackBitmap', setBitmap trackBitmap turnoutNumber (if curved then 'c' else 's') =
        some trackBitmap' ∧
      turnoutIsCurved trackBitmap' turnoutNumber = some curved ∧
      ∀ m, m ≠ turnoutNumber →
        turnoutIsCurved trackBitmap' m = turnoutIsCurved trackBitmap m := by
  obtain ⟨a, hAddress⟩ := exists_bitAddress h
  obtain ⟨trackBitmap', hSet, hBits⟩ := getLsbD_setBitmap hAddress curved trackBitmap
  refine ⟨trackBitmap', hSet, ?_, ?_⟩
  · rw [turnoutIsCurved_eq hAddress, hBits a (toBitAddress_lt hAddress), if_pos rfl]
  · intro m hOther
    cases hOtherAddress : toBitAddress m with
    | none => rw [turnoutIsCurved_eq_none hOtherAddress, turnoutIsCurved_eq_none hOtherAddress]
    | some b =>
      have hApart : b ≠ a := by
        rintro rfl
        exact hOther (toBitAddress_injective hOtherAddress hAddress)
      rw [turnoutIsCurved_eq hOtherAddress, turnoutIsCurved_eq hOtherAddress,
        hBits b (toBitAddress_lt hOtherAddress), if_neg hApart]

end Bits

end TrainKernel.User
