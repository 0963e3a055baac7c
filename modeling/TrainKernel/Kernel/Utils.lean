import TrainKernel.Kernel.State

/-!
# Copying memory

The code of `memcpy`: a loop over whole words and a loop over the bytes that are left. The second
loop adds the number of words to its pointers, where the number of bytes is meant. The first one
moves words, and what it does with pointers that are not aligned is what the processor does.
-/

namespace TrainKernel.Kernel.Utils

open Function
open Library.Words (Aligned)

variable {mem : Mem} {dest src n m i j k d e a : Word}

theorem mod_four_eq_zero {x : Word} : x % 4 = 0 ↔ x.toNat % 4 = 0 := by
  rw [← BitVec.toNat_inj]
  exact Iff.rfl

theorem toNat_words (n : Word) : (n >>> 2).toNat = n.toNat / 4 := by
  rw [BitVec.toNat_ushiftRight, Nat.shiftRight_eq_div_pow]

theorem tail_decreases (h : ¬(n - j) % 4 = 0) :
    ((n - (j + 1)) % 4).toNat < ((n - j) % 4).toNat := by
  rw [mod_four_eq_zero] at h
  rw [toNat_mod_four, toNat_mod_four]
  bv_omega

/-- The first loop, on `int` pointers: `i` counts words. -/
def copyWords (dest src n i : Word) (mem : Mem) : Mem :=
  if i = n >>> 2 then mem
  else copyWords dest src n (i + 1) (storeWord mem (dest + 4 * i) (loadWord mem (src + 4 * i)))
termination_by (n >>> 2 - i).toNat
decreasing_by bv_omega

/-- The second loop, on `char` pointers: `i` is where the first loop has ended. -/
def copyTail (dest src n i j : Word) (mem : Mem) : Mem :=
  if (n - j) % 4 = 0 then mem
  else copyTail dest src n i (j + 1) (update mem (dest + i + j) (mem (src + i + j)))
termination_by ((n - j) % 4).toNat
decreasing_by exact tail_decreases ‹_›

def memcpy (mem : Mem) (dest src n : Word) : Mem :=
  copyTail dest src n (n >>> 2) 0 (copyWords dest src n 0 mem)

/-- The buffers of `n` bytes at `dest` and at `src` do not overlap. -/
def Apart (dest src n : Word) : Prop := ∀ i < n, ∀ j < n, dest + i ≠ src + j

structure CopiesExactly (mem mem' : Mem) (dest src n : Word) : Prop where
  copied : ∀ k < n, mem' (dest + k) = mem (src + k)
  kept : ∀ a, ¬a - dest < n → mem' a = mem a

theorem Apart.far (h : Apart dest src n) (hn : 0 < n) : n ≤ src - dest ∧ n ≤ dest - src := by
  constructor
  · refine BitVec.not_lt.mp fun hLess => h (src - dest) hLess 0 hn ?_
    bv_omega
  · refine BitVec.not_lt.mp fun hLess => h 0 hn (dest - src) hLess ?_
    bv_omega

theorem byte_loadWord (mem : Mem) (p : Word) (h : d < 4) :
    (loadWord mem p >>> (8 * d.toNat)).setWidth 8 = mem (lane p d) := by
  have hCases : d = 0 ∨ d = 1 ∨ d = 2 ∨ d = 3 := by bv_omega
  rw [loadWord]
  rcases hCases with rfl | rfl | rfl | rfl
  · ext i hi
    simp
  · ext i hi
    simp
    grind
  · ext i hi
    simp
    grind
  · ext i hi
    simp
    grind

theorem storeWord_loadWord (mem mem' : Mem) (p q a : Word) :
    storeWord mem p (loadWord mem' q) a =
      if a - wordAt p < 4 then mem' (lane q (a - wordAt p)) else mem a := by
  rw [storeWord]
  split_ifs with hIn
  · exact byte_loadWord mem' q hIn
  · rfl

theorem loadWord_congr {mem' : Mem} {p q : Word}
    (h : ∀ d < 4, mem (lane p d) = mem' (lane q d)) : loadWord mem p = loadWord mem' q := by
  rw [loadWord, loadWord, h 0#32 (by decide), h 1#32 (by decide), h 2#32 (by decide),
    h 3#32 (by decide)]

/-- The bytes of whole words. -/
def inWords (n : Word) : Word := (4 : Word) * (n >>> 2)

theorem toNat_inWords (n : Word) : (inWords n).toNat = 4 * (n.toNat / 4) := by
  have hWords := toNat_words n
  rw [inWords]
  generalize n >>> 2 = w at hWords ⊢
  bv_omega

/-- Where the byte comes from that the first loop stores `m` bytes behind the word of `dest`. -/
def laneOf (src m : Word) : Word := wordAt src + (m - m % 4) + (src + m) % 4

/-- The bytes before `dest` in its word are those that the first loop stores there. -/
def FrontAgrees (mem : Mem) (dest src : Word) : Prop :=
  ∀ j < dest % 4, mem (laneOf src j) = mem (wordAt dest + j)

theorem wordAt_add (p i : Word) : wordAt (p + 4 * i) = wordAt p + 4 * i := by
  have hMod := toNat_mod_four p
  have hMod' := toNat_mod_four (p + 4 * i)
  rw [wordAt, wordAt]
  generalize p % 4 = r at hMod ⊢
  generalize (p + 4 * i) % 4 = r' at hMod' ⊢
  bv_omega

theorem laneOf_eq (hm : m - 4 * i < 4) : laneOf src m = lane (src + 4 * i) (m - 4 * i) := by
  have hMod := toNat_mod_four m
  have hEnd : src + 4 * i + (m - 4 * i) = src + m := by bv_omega
  rw [laneOf, lane, wordAt_add, hEnd]
  generalize m % 4 = r at hMod ⊢
  bv_omega

/-- The memory after the first `i` words. -/
def wordsDone (mem : Mem) (dest src i : Word) : Mem := fun a =>
  if a - wordAt dest < 4 * i then mem (laneOf src (a - wordAt dest)) else mem a

theorem wordsDone_zero (mem : Mem) (dest src : Word) : wordsDone mem dest src 0 = mem := by
  funext a
  rw [wordsDone, if_neg (by bv_omega)]

theorem wordsDone_src (hApart : Apart dest src n) (hFront : FrontAgrees mem dest src)
    (hi : 4 * i.toNat ≤ n.toNat) (hk : k < n) :
    wordsDone mem dest src i (src + k) = mem (src + k) := by
  have hMod := toNat_mod_four dest
  rw [wordsDone]
  split_ifs with hIn
  · by_cases hBefore : src + k - wordAt dest < dest % 4
    · rw [hFront _ hBefore, BitVec.add_comm, BitVec.sub_add_cancel]
    · exfalso
      rw [wordAt] at hIn hBefore
      generalize dest % 4 = r at hMod hIn hBefore
      exact hApart (src + k - dest) (by bv_omega) k hk (by bv_omega)
  · rfl

/-- A word behind the first one is loaded from the bytes of the buffer. -/
theorem lane_inside (src : Word) (d : Word) (hi : 0 < i) (hRoom : 4 * i.toNat + 4 ≤ n.toNat) :
    lane (src + 4 * i) d - src < n := by
  have hMod := toNat_mod_four (src + 4 * i + d)
  have hMod' := toNat_mod_four src
  rw [lane, wordAt_add, wordAt]
  generalize (src + 4 * i + d) % 4 = r at hMod ⊢
  generalize src % 4 = r' at hMod' ⊢
  have hOffset : src - r' + 4 * i + r - src = 4 * i + r - r' := by grind
  have hSmall : r.toNat < 4 ∧ r'.toNat < 4 := by omega
  clear hMod hMod'
  rw [hOffset]
  bv_omega

theorem copyWord (hApart : Apart dest src n) (hFront : FrontAgrees mem dest src)
    (hRoom : 4 * i.toNat + 4 ≤ n.toNat) :
    storeWord (wordsDone mem dest src i) (dest + 4 * i)
        (loadWord (wordsDone mem dest src i) (src + 4 * i)) = wordsDone mem dest src (i + 1) := by
  have hLane (d : Word) : wordsDone mem dest src i (lane (src + 4 * i) d) =
      mem (lane (src + 4 * i) d) := by
    rcases eq_or_ne i 0 with hZero | hZero
    · rw [hZero, wordsDone_zero]
    · have hInside := lane_inside src d (by bv_omega : 0 < i) hRoom
      have hBack : src + (lane (src + 4 * i) d - src) = lane (src + 4 * i) d := by
        rw [BitVec.add_comm, BitVec.sub_add_cancel]
      have hSame := wordsDone_src hApart hFront (by omega : 4 * i.toNat ≤ n.toNat) hInside
      rwa [hBack] at hSame
  funext a
  have hOffset : a - (wordAt dest + 4 * i) = a - wordAt dest - 4 * i := by bv_omega
  rw [storeWord_loadWord, wordAt_add, hLane, hOffset]
  by_cases hWord : a - wordAt dest - 4 * i < 4
  · rw [if_pos hWord, ← laneOf_eq hWord, wordsDone, if_pos]
    bv_omega
  · rw [if_neg hWord, wordsDone, wordsDone]
    exact if_congr (by bv_omega) rfl rfl

theorem copyWords_eq (hApart : Apart dest src n) (hFront : FrontAgrees mem dest src)
    (hi : i.toNat ≤ n.toNat / 4) :
    copyWords dest src n i (wordsDone mem dest src i) = wordsDone mem dest src (n >>> 2) := by
  obtain ⟨rounds, hRounds⟩ := Nat.exists_eq_add_of_le hi
  induction rounds generalizing i with
  | zero =>
    have hEnd : i = n >>> 2 := BitVec.toNat_inj.mp (by rw [toNat_words, hRounds, Nat.add_zero])
    rw [copyWords, if_pos hEnd, hEnd]
  | succ rounds ih =>
    have hOn : i ≠ n >>> 2 := by
      rintro rfl
      rw [toNat_words] at hRounds
      omega
    have hNext : (i + 1).toNat = i.toNat + 1 := by bv_omega
    rw [copyWords, if_neg hOn, copyWord hApart hFront (by omega)]
    exact ih (by omega) (by omega)

/-- Later words leave the first one alone. -/
theorem copyWords_front (hPos : 0 < i) (hi : i.toNat ≤ n.toNat / 4) (ha : a - wordAt dest < 4)
    (mem : Mem) : copyWords dest src n i mem a = mem a := by
  obtain ⟨rounds, hRounds⟩ := Nat.exists_eq_add_of_le hi
  induction rounds generalizing i mem with
  | zero =>
    have hEnd : i = n >>> 2 := BitVec.toNat_inj.mp (by rw [toNat_words, hRounds, Nat.add_zero])
    rw [copyWords, if_pos hEnd]
  | succ rounds ih =>
    have hOn : i ≠ n >>> 2 := by
      rintro rfl
      rw [toNat_words] at hRounds
      omega
    have hOut : ¬a - wordAt (dest + 4 * i) < 4 := by
      rw [wordAt_add]
      bv_omega
    rw [copyWords, if_neg hOn, ih (by bv_omega) (by bv_omega) _ (by bv_omega), storeWord_loadWord,
      if_neg hOut]

/-! ## The loop over the bytes that are left -/

/-- The memory after `j` bytes of the second loop. -/
def tailDone (mem : Mem) (dest src i j : Word) : Mem := fun a =>
  if a - dest - i < j then mem (src + (a - dest)) else mem a

theorem tailDone_zero (mem : Mem) (dest src i : Word) : tailDone mem dest src i 0 = mem := by
  funext a
  rw [tailDone, if_neg (by bv_omega)]

theorem copyByte (hApart : Apart dest src n) (hRoom : i.toNat + j.toNat < n.toNat) :
    update (tailDone mem dest src i j) (dest + i + j) (tailDone mem dest src i j (src + i + j)) =
      tailDone mem dest src i (j + 1) := by
  have hSource : tailDone mem dest src i j (src + i + j) = mem (src + i + j) := by
    rw [tailDone, if_neg]
    intro hIn
    exact hApart (src + i + j - dest) (by bv_omega) (i + j) (by bv_omega) (by bv_omega)
  funext a
  rw [hSource, update_apply, tailDone, tailDone]
  rcases eq_or_ne a (dest + i + j) with hLast | hLast
  · have hOffset : src + (a - dest) = src + i + j := by
      rw [hLast]
      bv_omega
    rw [if_pos hLast, if_pos (by bv_omega), hOffset]
  · rw [if_neg hLast]
    exact if_congr (by bv_omega) rfl rfl

theorem copyTail_eq (hApart : Apart dest src n) (hi : i.toNat + n.toNat % 4 ≤ n.toNat)
    (hj : j.toNat ≤ n.toNat % 4) : copyTail dest src n i j (tailDone mem dest src i j) =
      tailDone mem dest src i (n % 4) := by
  obtain ⟨rounds, hRounds⟩ := Nat.exists_eq_add_of_le hj
  induction rounds generalizing j with
  | zero =>
    have hEnd : (n - j) % 4 = 0 := by
      rw [mod_four_eq_zero]
      bv_omega
    have hAll : n % 4 = j := BitVec.toNat_inj.mp hRounds
    rw [copyTail, if_pos hEnd, hAll]
  | succ rounds ih =>
    have hOn : ¬(n - j) % 4 = 0 := by
      rw [mod_four_eq_zero]
      bv_omega
    rw [copyTail, if_neg hOn, copyByte hApart (by omega)]
    exact ih (by bv_omega) (by bv_omega)

theorem memcpy_tail (hApart : Apart dest src n) (mem : Mem) : memcpy mem dest src n =
    tailDone (copyWords dest src n 0 mem) dest src (n >>> 2) (n % 4) := by
  have hWords := toNat_words n
  have hTail : copyTail dest src n (n >>> 2) 0
      (tailDone (copyWords dest src n 0 mem) dest src (n >>> 2) 0) =
        tailDone (copyWords dest src n 0 mem) dest src (n >>> 2) (n % 4) :=
    copyTail_eq hApart (by omega) (Nat.zero_le _)
  rwa [tailDone_zero] at hTail

theorem memcpy_short (hApart : Apart dest src n) (hn : n < 4) (mem : Mem) :
    memcpy mem dest src n = Kernel.memcpy mem dest src n := by
  have hWords := toNat_words n
  have hMod := toNat_mod_four n
  have hZero : n >>> 2 = 0 := BitVec.toNat_inj.mp (by bv_omega)
  have hAll : n % 4 = n := BitVec.toNat_inj.mp (hMod.trans (by bv_omega))
  rw [memcpy_tail hApart, hZero, hAll, copyWords, if_pos hZero.symm]
  funext a
  have hOffset : a - dest - 0 = a - dest := BitVec.sub_zero _
  rw [tailDone, Kernel.memcpy, hOffset]

theorem memcpy_long (hApart : Apart dest src n) (hFront : FrontAgrees mem dest src) :
    memcpy mem dest src n =
      tailDone (wordsDone mem dest src (n >>> 2)) dest src (n >>> 2) (n % 4) := by
  have hWords := copyWords_eq (i := 0) hApart hFront (Nat.zero_le _)
  rw [wordsDone_zero] at hWords
  rw [memcpy_tail hApart, hWords]

/-- What the code leaves in each byte, if the first loop does not change what is before `dest`. -/
theorem memcpy_byte (hApart : Apart dest src n) (hFront : FrontAgrees mem dest src) (a : Word) :
    memcpy mem dest src n a =
      if a - dest - n >>> 2 < n % 4 then mem (src + (a - dest))
      else if a - wordAt dest < inWords n then mem (laneOf src (a - wordAt dest)) else mem a := by
  have hWords := toNat_words n
  have hMod := toNat_mod_four n
  rw [memcpy_long hApart hFront, tailDone]
  split_ifs with hTail hWord
  · apply wordsDone_src hApart hFront (by omega)
    generalize n % 4 = t at hMod hTail
    generalize n >>> 2 = w at hWords hTail
    bv_omega
  · exact if_pos hWord
  · exact if_neg hWord

/-- What the first loop stores before `dest` stays there. -/
theorem memcpy_front (hApart : Apart dest src n) (hn : ¬n < 4) (hj : j < dest % 4) :
    memcpy mem dest src n (wordAt dest + j) = mem (laneOf src j) := by
  have hMod := toNat_mod_four dest
  have hMod' := toNat_mod_four n
  have hWords := toNat_words n
  have hSmall : j < 4 := by
    generalize dest % 4 = r at hMod hj
    bv_omega
  have hOffset : wordAt dest + j - wordAt dest = j := by bv_omega
  have hOut : ¬wordAt dest + j - dest - n >>> 2 < n % 4 := by
    rw [wordAt]
    generalize dest % 4 = r at hMod hj ⊢
    generalize n % 4 = t at hMod' ⊢
    generalize n >>> 2 = w at hWords ⊢
    have hBack : dest - r + j - dest - w = j - r - w := by grind
    rw [hBack]
    bv_omega
  have hOn : (0 : Word) ≠ n >>> 2 := by
    generalize n >>> 2 = w at hWords ⊢
    bv_omega
  have hZero : dest + 4 * 0 = dest ∧ src + 4 * 0 = src := ⟨BitVec.add_zero _, BitVec.add_zero _⟩
  rw [memcpy_tail hApart, tailDone, if_neg hOut, copyWords, if_neg hOn,
    copyWords_front (by decide) (by bv_omega) (by rwa [hOffset]), hZero.1, hZero.2,
    storeWord_loadWord, hOffset, if_pos hSmall]
  have hLane : laneOf src j = lane (src + 4 * 0) (j - 4 * 0) := laneOf_eq (by bv_omega)
  rw [hLane, hZero.2]
  exact congrArg (fun d => mem (lane src d)) (BitVec.sub_zero j).symm

theorem mod_four_of_aligned {p : Word} (hp : Aligned p) : p % 4 = 0 := mod_four_eq_zero.mpr hp

theorem frontAgrees_of_aligned (hDest : Aligned dest) : FrontAgrees mem dest src := by
  intro j hj
  rw [mod_four_of_aligned hDest] at hj
  bv_omega

theorem laneOf_of_aligned (hSrc : Aligned src) (m : Word) : laneOf src m = src + m := by
  have hMod := toNat_mod_four m
  have hMod' := toNat_mod_four (src + m)
  rw [laneOf, wordAt_of_aligned hSrc]
  simp only [Aligned] at hSrc
  generalize m % 4 = r at hMod ⊢
  generalize (src + m) % 4 = r' at hMod' ⊢
  bv_omega

/-- The number of bytes that arrive. -/
def arriving (n : Word) : Word := if n < 4 then n else inWords n

theorem memcpy_eq (mem : Mem) (hApart : Apart dest src n) (hDest : Aligned dest)
    (hSrc : Aligned src) : memcpy mem dest src n = Kernel.memcpy mem dest src (arriving n) := by
  rw [arriving]
  split_ifs with hShort
  · exact memcpy_short hApart hShort mem
  have hBytes := toNat_inWords n
  have hWords := toNat_words n
  have hMod := toNat_mod_four n
  funext a
  rw [memcpy_byte hApart (frontAgrees_of_aligned hDest), wordAt_of_aligned hDest,
    laneOf_of_aligned hSrc, Kernel.memcpy]
  by_cases hIn : a - dest < inWords n
  · rw [if_pos hIn, ite_self]
  · rw [if_neg hIn, if_neg]
    generalize n % 4 = t at hMod ⊢
    generalize n >>> 2 = w at hWords ⊢
    bv_omega

theorem storeWord_self {p : Word} (hp : Aligned p) (mem : Mem) :
    storeWord mem p (loadWord mem p) = mem := by
  funext a
  rw [storeWord_loadWord, wordAt_of_aligned hp]
  split_ifs with hIn
  · rw [lane_of_aligned hp hIn, BitVec.add_comm, BitVec.sub_add_cancel]
  · rfl

theorem copyWords_self {p : Word} (hp : Aligned p) (n i : Word) (mem : Mem) :
    copyWords p p n i mem = mem := by
  have hWord (i : Word) : Aligned (p + 4 * i) := by
    simp only [Aligned] at hp ⊢
    bv_omega
  fun_induction copyWords p p n i mem with
  | case1 => rfl
  | case2 i mem hOn ih => rwa [storeWord_self (hWord i)] at ih ⊢

theorem copyTail_self (p n i j : Word) (mem : Mem) : copyTail p p n i j mem = mem := by
  fun_induction copyTail p p n i j mem with
  | case1 => rfl
  | case2 j mem hOn ih => rwa [update_eq_self] at ih ⊢

theorem memcpy_self {p : Word} (hp : Aligned p) (mem : Mem) (n : Word) :
    memcpy mem p p n = mem := by
  rw [memcpy, copyTail_self, copyWords_self hp]

/-! ## What is copied -/

/-- The bytes behind the whole words are the same already. -/
def TailAgrees (mem : Mem) (dest src n : Word) : Prop :=
  ∀ k, inWords n ≤ k → k < n → mem (dest + k) = mem (src + k)

/-- The bytes that the words of pointers that are not aligned put in a wrong place or leave out
are the same already, unless the second loop happens to set them right. -/
structure MisplacedAgree (mem : Mem) (dest src n : Word) : Prop where
  front : FrontAgrees mem dest src
  words : ∀ k < n, ¬k - n >>> 2 < n % 4 → k + dest % 4 < inWords n →
    mem (laneOf src (k + dest % 4)) = mem (src + k)
  rest : ∀ k < n, ¬k - n >>> 2 < n % 4 → ¬k + dest % 4 < inWords n →
    mem (dest + k) = mem (src + k)

theorem memcpy_offset (hApart : Apart dest src n) (hFront : FrontAgrees mem dest src) (k : Word) :
    memcpy mem dest src n (dest + k) = if k - n >>> 2 < n % 4 then mem (src + k)
      else if k + dest % 4 < inWords n then mem (laneOf src (k + dest % 4))
      else mem (dest + k) := by
  have hOffset : dest + k - dest = k := by rw [BitVec.add_comm, BitVec.add_sub_cancel]
  have hWord : dest + k - wordAt dest = k + dest % 4 := by
    rw [wordAt]
    generalize dest % 4 = r
    bv_omega
  rw [memcpy_byte hApart hFront, hOffset, hWord]

theorem exact_iff_misplacedAgree (hApart : Apart dest src n) (hn : ¬n < 4) :
    CopiesExactly mem (memcpy mem dest src n) dest src n ↔ MisplacedAgree mem dest src n := by
  have hMod := toNat_mod_four dest
  have hFar := hApart.far (by bv_omega)
  constructor
  · intro hExact
    have hFront : FrontAgrees mem dest src := by
      intro j hj
      have hStored : memcpy mem dest src n (wordAt dest + j) = mem (laneOf src j) :=
        memcpy_front hApart hn hj
      rw [← hStored]
      apply hExact.kept
      rw [wordAt]
      generalize dest % 4 = r at hMod hj ⊢
      bv_omega
    refine ⟨hFront, fun k hk hTail hWord => ?_, fun k hk hTail hWord => ?_⟩
    · rw [← hExact.copied k hk, memcpy_offset hApart hFront, if_neg hTail, if_pos hWord]
    · rw [← hExact.copied k hk, memcpy_offset hApart hFront, if_neg hTail, if_neg hWord]
  · rintro ⟨hFront, hWords, hRest⟩
    constructor
    · intro k hk
      rw [memcpy_offset hApart hFront]
      split_ifs with hTail hWord
      · rfl
      · exact hWords k hk hTail hWord
      · exact hRest k hk hTail hWord
    · intro a ha
      have hBytes := toNat_inWords n
      have hCount := toNat_words n
      have hLeft := toNat_mod_four n
      rw [memcpy_byte hApart hFront, if_neg]
      · split_ifs with hWord
        · have hBefore : a - wordAt dest < dest % 4 := by
            rw [wordAt] at hWord ⊢
            generalize dest % 4 = r at hMod hWord ⊢
            generalize inWords n = w at hBytes hWord
            bv_omega
          rw [hFront _ hBefore, BitVec.add_comm, BitVec.sub_add_cancel]
        · rfl
      · generalize n % 4 = t at hLeft ⊢
        generalize n >>> 2 = w at hCount ⊢
        bv_omega

theorem exact_iff_of_aligned (hApart : Apart dest src n) (hn : ¬n < 4) (hDest : Aligned dest)
    (hSrc : Aligned src) : CopiesExactly mem (memcpy mem dest src n) dest src n ↔
      n % 4 = 0 ∨ TailAgrees mem dest src n := by
  have hBytes := toNat_inWords n
  have hByte (k : Word) : memcpy mem dest src n (dest + k) =
      if k < inWords n then mem (src + k) else mem (dest + k) := by
    rw [memcpy_eq mem hApart hDest hSrc, arriving, if_neg hn, Kernel.memcpy, BitVec.add_comm dest,
      BitVec.add_sub_cancel]
  constructor
  · intro hExact
    refine Or.inr fun k hk hkn => ?_
    rw [← hExact.copied k hkn, hByte, if_neg (BitVec.not_lt.mpr hk)]
  · intro hWhen
    constructor
    · intro k hk
      rw [hByte]
      split_ifs with hIn
      · rfl
      rcases hWhen with hWhole | hTail
      · rw [mod_four_eq_zero] at hWhole
        bv_omega
      · exact hTail k (BitVec.not_lt.mp hIn) hk
    · intro a ha
      rw [memcpy_eq mem hApart hDest hSrc, arriving, if_neg hn, Kernel.memcpy, if_neg]
      bv_omega

/-- A copy is exact if there are less than four bytes. Otherwise both buffers have to be aligned,
with only whole words to copy or with the bytes behind them there before; between others it is
exact only where the bytes that go astray do no harm. -/
theorem memcpy_exact_iff (mem : Mem) (dest src n : Word) (hApart : Apart dest src n) :
    CopiesExactly mem (memcpy mem dest src n) dest src n ↔
      n < 4 ∨ (Aligned dest ∧ Aligned src) ∧ (n % 4 = 0 ∨ TailAgrees mem dest src n) ∨
        ¬(Aligned dest ∧ Aligned src) ∧ MisplacedAgree mem dest src n := by
  by_cases hShort : n < 4
  · rw [memcpy_short hApart hShort]
    refine iff_of_true ⟨fun k hk => ?_, fun a ha => if_neg ha⟩ (Or.inl hShort)
    rw [Kernel.memcpy, BitVec.add_comm dest, BitVec.add_sub_cancel, if_pos hk]
  by_cases hAligned : Aligned dest ∧ Aligned src
  · rw [exact_iff_of_aligned hApart hShort hAligned.1 hAligned.2]
    simp only [hShort, hAligned, not_true_eq_false, false_and, or_false, false_or, true_and]
  · rw [exact_iff_misplacedAgree hApart hShort]
    simp only [hShort, hAligned, not_false_eq_true, false_and, false_or, true_and]

/-- Memory in which each byte holds the low byte of its address. -/
def lowBytes : Mem := fun a => a.setWidth 8

theorem apart_small {n : Word} (hn : n ≤ 8) : Apart 0x108 0x200 n := by
  intro i hi j hj
  bv_omega

theorem memcpy_exact_iff_eight : CopiesExactly lowBytes (memcpy lowBytes 0x108 0x200 8)
    0x108 0x200 8 :=
  (memcpy_exact_iff lowBytes 0x108 0x200 8 (apart_small (by decide))).mpr
    (Or.inr (Or.inl ⟨⟨rfl, rfl⟩, Or.inl rfl⟩))

/-- The last of five bytes is not copied. -/
theorem memcpy_not_exact : ¬∀ mem dest src n, Apart dest src n →
    CopiesExactly mem (memcpy mem dest src n) dest src n := by
  intro hAll
  have hApart : Apart 0x108 0x200 5 := apart_small (by decide)
  have hLast := (hAll lowBytes 0x108 0x200 5 hApart).copied 4 (by decide)
  rw [memcpy_eq _ hApart rfl rfl, Kernel.memcpy, if_neg (by decide)] at hLast
  exact absurd hLast (by decide)

end TrainKernel.Kernel.Utils
