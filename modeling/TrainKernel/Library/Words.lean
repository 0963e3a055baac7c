import Mathlib.Algebra.Order.Ring.Nat
import Mathlib.Data.List.Basic
import Mathlib.Logic.Basic

/-!
# Words in memory

A memory that is read and written a word at a time, and the runs of words that block
transfers move. Addresses count bytes modulo `2 ^ 32`; a block may lie anywhere, so that
inside and outside are said with the distance from its first address.
-/

namespace TrainKernel.Library.Words

variable {M : Type*} {a b q : BitVec 32} {n k : Nat}

def Aligned (a : BitVec 32) : Prop := a.toNat % 4 = 0

instance (a : BitVec 32) : Decidable (Aligned a) := instDecidableEqNat _ _

/-- What a word memory promises: a word is read back, and a store reaches no other word. -/
class WordMemory (M : Type*) where
  load : M → BitVec 32 → BitVec 32
  store : M → BitVec 32 → BitVec 32 → M
  load_store (mem : M) (p v : BitVec 32) : Aligned p → load (store mem p v) p = v
  load_store_of_ne (mem : M) (p q v : BitVec 32) : Aligned p → Aligned q → q ≠ p →
    load (store mem p v) q = load mem q

open WordMemory

/-- `q` lies in the `n` words from `a`. -/
abbrev Inside (a : BitVec 32) (n : Nat) (q : BitVec 32) : Prop := (q - a).toNat < 4 * n

/-- The `n` words from `a` and the `k` words from `b` have no word in common. -/
abbrev Apart (a : BitVec 32) (n : Nat) (b : BitVec 32) (k : Nat) : Prop :=
  4 * n ≤ (b - a).toNat ∧ 4 * k ≤ (a - b).toNat

theorem Apart.symm (h : Apart a n b k) : Apart b k a n := ⟨h.2, h.1⟩

theorem Apart.outside (h : Apart a n b k) (hq : Inside b k q) : ¬Inside a n q := by
  obtain ⟨hAhead, hBehind⟩ := h
  simp only [Inside] at hq ⊢
  bv_omega

theorem Aligned.add (h : Aligned a) (hb : Aligned b) : Aligned (a + b) := by
  simp only [Aligned] at h hb ⊢
  bv_omega

theorem Aligned.sub (h : Aligned a) (hb : Aligned b) : Aligned (a - b) := by
  simp only [Aligned] at h hb ⊢
  bv_omega

theorem aligned_add_four (h : Aligned a) : Aligned (a + 4) := h.add (by decide)

section Blocks

variable [WordMemory M] {mem mem' : M} {l : List (BitVec 32)}

def storeBlock (mem : M) (a : BitVec 32) : List (BitVec 32) → M
  | [] => mem
  | w :: l => storeBlock (store mem a w) (a + 4) l

def loadBlock (mem : M) (a : BitVec 32) : Nat → List (BitVec 32)
  | 0 => []
  | n + 1 => load mem a :: loadBlock mem (a + 4) n

theorem length_loadBlock (mem : M) (a : BitVec 32) (n : Nat) :
    (loadBlock mem a n).length = n := by
  induction n generalizing a with
  | zero => rfl
  | succ n ih => rw [loadBlock, List.length_cons, ih]

theorem load_storeBlock (mem : M) (ha : Aligned a) (hq : Aligned q)
    (hOut : ¬Inside a l.length q) : load (storeBlock mem a l) q = load mem q := by
  induction l generalizing mem a with
  | nil => rfl
  | cons w l ih =>
    simp only [Inside, List.length_cons] at hOut
    have hRest : ¬Inside (a + 4) l.length q := by
      simp only [Inside]
      bv_omega
    have hNe : q ≠ a := by
      rintro rfl
      simp at hOut
    rw [storeBlock, ih _ (aligned_add_four ha) hRest, load_store_of_ne _ _ _ _ ha hq hNe]

theorem loadBlock_storeBlock (mem : M) (ha : Aligned a) (hRoom : 4 * l.length ≤ 2 ^ 32) :
    loadBlock (storeBlock mem a l) a l.length = l := by
  induction l generalizing mem a with
  | nil => rfl
  | cons w l ih =>
    have hBehind : ¬Inside (a + 4) l.length a := by
      simp only [Inside, List.length_cons] at hRoom ⊢
      bv_omega
    rw [storeBlock, List.length_cons, loadBlock,
      load_storeBlock _ (aligned_add_four ha) ha hBehind, load_store _ _ _ ha,
      ih _ (aligned_add_four ha) (by rw [List.length_cons] at hRoom; omega)]

theorem loadBlock_congr (ha : Aligned a) (hn : 4 * n ≤ 2 ^ 32)
    (h : ∀ q, Aligned q → Inside a n q → load mem q = load mem' q) :
    loadBlock mem a n = loadBlock mem' a n := by
  induction n generalizing a with
  | zero => rfl
  | succ n ih =>
    rw [loadBlock, loadBlock, h a ha (by simp [Inside])]
    rw [ih (aligned_add_four ha) (by omega)]
    intro q hq hInside
    apply h q hq
    simp only [Inside] at hInside ⊢
    bv_omega

theorem loadBlock_storeBlock_of_apart (mem : M) (ha : Aligned a) (hb : Aligned b)
    (hk : 4 * k ≤ 2 ^ 32) (hApart : Apart a l.length b k) :
    loadBlock (storeBlock mem a l) b k = loadBlock mem b k :=
  loadBlock_congr hb hk fun _ hq hInside => load_storeBlock mem ha hq (hApart.outside hInside)

theorem loadBlock_store_of_outside (mem : M) (v : BitVec 32) (ha : Aligned a) (hq : Aligned q)
    (hn : 4 * n ≤ 2 ^ 32) (hOut : ¬Inside a n q) :
    loadBlock (store mem q v) a n = loadBlock mem a n := by
  apply loadBlock_congr ha hn
  intro p hp hInside
  apply load_store_of_ne _ _ _ _ hq hp
  rintro rfl
  exact hOut hInside

/-- A store to a word of the block sets that entry. -/
theorem loadBlock_store (mem : M) (v : BitVec 32) {i : Nat} (ha : Aligned a)
    (hn : 4 * n ≤ 2 ^ 32) (hi : i < n) :
    loadBlock (store mem (a + BitVec.ofNat 32 (4 * i)) v) a n = (loadBlock mem a n).set i v := by
  induction n generalizing a i with
  | zero => cases hi
  | succ n ih =>
    have hNext := aligned_add_four ha
    cases i with
    | zero =>
      have hBefore : ¬Inside (a + 4) n a := by
        simp only [Inside]
        bv_omega
      rw [Nat.mul_zero, BitVec.add_zero, loadBlock, loadBlock, load_store _ _ _ ha,
        loadBlock_store_of_outside mem v hNext ha (by omega) hBefore]
      rfl
    | succ i =>
      have hStep : a + BitVec.ofNat 32 (4 * (i + 1)) = a + 4 + BitVec.ofNat 32 (4 * i) := by
        bv_omega
      have hWord : Aligned (a + 4 + BitVec.ofNat 32 (4 * i)) := hNext.add (by
        simp only [Aligned]
        bv_omega)
      have hNe : a ≠ a + 4 + BitVec.ofNat 32 (4 * i) := by bv_omega
      rw [hStep, loadBlock, loadBlock, load_store_of_ne _ _ _ _ hWord ha hNe,
        ih hNext (by omega) (by omega)]
      rfl

theorem loadBlock_add (mem : M) (a : BitVec 32) (n k : Nat) :
    loadBlock mem a (n + k) =
      loadBlock mem a n ++ loadBlock mem (a + BitVec.ofNat 32 (4 * n)) k := by
  induction n generalizing a with
  | zero => simp [loadBlock]
  | succ n ih =>
    rw [Nat.add_right_comm, loadBlock, loadBlock, List.cons_append, ih,
      show a + 4 + BitVec.ofNat 32 (4 * n) = a + BitVec.ofNat 32 (4 * (n + 1)) by bv_omega]

end Blocks

end TrainKernel.Library.Words
