import Mathlib.Data.List.Basic
import Mathlib.Data.Nat.ModEq
import TrainKernel.User.CommandQueue

/-!
# What a ring buffer holds

The elements stand behind the head, up to the tail. One cell is never in use, since a full buffer
could not be told from an empty one.
-/

namespace TrainKernel.User.RingBuffer

open Function

variable {α : Type} {q q' : RingBuffer α} {x : α} {i j : Nat}

structure WellFormed (q : RingBuffer α) : Prop where
  head_lt : q.head < q.size
  tail_lt : q.tail < q.size

def count (q : RingBuffer α) : Nat := (q.tail + q.size - q.head) % q.size

/-- The cell of the element with `i` elements before it. -/
def slot (q : RingBuffer α) (i : Nat) : Nat := (q.head + 1 + i) % q.size

def contents (q : RingBuffer α) : List α := (List.range q.count).map fun i => q.buffer (q.slot i)

theorem length_contents (q : RingBuffer α) : q.contents.length = q.count := by
  rw [contents, List.length_map, List.length_range]

theorem size_enqueue (q : RingBuffer α) (x : α) : (q.enqueue x).1.size = q.size := by
  rw [enqueue]
  dsimp only
  split_ifs
  · rfl
  · rfl

namespace WellFormed

theorem size_pos (h : q.WellFormed) : 0 < q.size := Nat.zero_lt_of_lt h.head_lt

theorem count_lt (h : q.WellFormed) : q.count < q.size := Nat.mod_lt _ h.size_pos

theorem head_add_count (h : q.WellFormed) : (q.head + q.count) % q.size = q.tail := by
  have hHead := h.head_lt
  have hSum : q.head + (q.tail + q.size - q.head) = q.tail + q.size := by omega
  rw [count, Nat.add_mod_mod, hSum, Nat.add_mod_right, Nat.mod_eq_of_lt h.tail_lt]

theorem eq_of_mod_eq {a : Nat} (hi : i < q.size) (hj : j < q.size)
    (hEq : (a + i) % q.size = (a + j) % q.size) : i = j :=
  (Nat.ModEq.add_left_cancel' a hEq).eq_of_lt_of_lt hi hj

theorem count_eq (h : q.WellFormed) (hi : i < q.size) (hTail : (q.head + i) % q.size = q.tail) :
    q.count = i :=
  eq_of_mod_eq h.count_lt hi (h.head_add_count.trans hTail.symm)

theorem slot_count (h : q.WellFormed) : q.slot q.count = (q.tail + 1) % q.size := by
  have hSum : q.head + 1 + q.count = q.head + q.count + 1 := by omega
  rw [slot, hSum, ← Nat.mod_add_mod, h.head_add_count]

theorem contents_eq_nil_iff (h : q.WellFormed) : q.contents = [] ↔ q.head = q.tail := by
  rw [← List.length_eq_zero_iff, length_contents]
  constructor
  · intro hNone
    have hTail := h.head_add_count
    rw [hNone, Nat.add_zero, Nat.mod_eq_of_lt h.head_lt] at hTail
    exact hTail
  · intro hEq
    apply h.count_eq h.size_pos
    rw [Nat.add_zero, Nat.mod_eq_of_lt h.head_lt, hEq]

theorem full_iff (h : q.WellFormed) :
    (q.tail + 1) % q.size = q.head ↔ q.count + 1 = q.size := by
  have hCount := h.count_lt
  have hNext : (q.head + (q.count + 1)) % q.size = (q.tail + 1) % q.size := by
    rw [← Nat.add_assoc, ← Nat.mod_add_mod, h.head_add_count]
  rw [← hNext]
  constructor
  · intro hFull
    by_contra hRoom
    have hZero : (q.head + (q.count + 1)) % q.size = (q.head + 0) % q.size := by
      rw [hFull, Nat.add_zero, Nat.mod_eq_of_lt h.head_lt]
    have := eq_of_mod_eq (by omega) h.size_pos hZero
    omega
  · intro hFull
    rw [hFull, Nat.add_mod_right, Nat.mod_eq_of_lt h.head_lt]

theorem kept_iff (h : q.WellFormed) : (q.enqueue x).2 = true ↔ q.contents.length + 1 < q.size := by
  have hCount := h.count_lt
  rw [enqueue, length_contents]
  dsimp only
  split_ifs with hFull
  · rw [h.full_iff] at hFull
    simp [hFull]
  · rw [h.full_iff] at hFull
    simp only [true_iff]
    omega

theorem enqueue (h : q.WellFormed) (x : α) : (q.enqueue x).1.WellFormed := by
  rw [RingBuffer.enqueue]
  dsimp only
  split_ifs
  · exact ⟨h.head_lt, Nat.mod_lt _ h.size_pos⟩
  · exact ⟨h.head_lt, Nat.mod_lt _ h.size_pos⟩

theorem contents_enqueue (h : q.WellFormed) (hKept : (q.enqueue x).2 = true) :
    (q.enqueue x).1.contents = q.contents ++ [x] := by
  have hWellFormed := h.enqueue x
  rw [h.kept_iff, length_contents] at hKept
  have hFull : (q.tail + 1) % q.size ≠ q.head := by
    rw [Ne, h.full_iff]
    omega
  rw [RingBuffer.enqueue] at hWellFormed ⊢
  simp only [if_neg hFull] at hWellFormed ⊢
  have hCount := hWellFormed.count_eq hKept (by
    rw [← Nat.add_assoc, ← Nat.mod_add_mod, h.head_add_count])
  rw [contents, hCount, List.range_succ, List.map_append, contents]
  congr 1
  · apply List.map_congr_left
    intro i hMem
    have hi := List.mem_range.mp hMem
    apply update_of_ne
    rw [← h.slot_count]
    intro hSlot
    have hLast : i = q.count :=
      eq_of_mod_eq (q := q) (a := q.head + 1) (hi.trans h.count_lt) h.count_lt hSlot
    omega
  · simp only [List.map_singleton, List.cons.injEq, and_true]
    exact (congrArg _ h.slot_count).trans (update_self ..)

/-- An overflow loses everything but the new element. -/
theorem contents_overflow (h : q.WellFormed) (hSize : 1 < q.size)
    (hFull : (q.enqueue x).2 = false) : (q.enqueue x).1.contents = [x] := by
  have hWellFormed := h.enqueue x
  rw [RingBuffer.enqueue] at hFull hWellFormed ⊢
  dsimp only at hFull hWellFormed ⊢
  split_ifs at hFull hWellFormed ⊢ with hNext
  have hCount := hWellFormed.count_eq hSize (congrArg (fun i => (i + 1) % q.size) hNext.symm)
  rw [contents, hCount]
  simp only [List.range_one, List.map_singleton, List.cons.injEq, and_true]
  rw [slot, hNext]
  exact update_self ..

theorem dequeue_eq_none_iff (h : q.WellFormed) : q.dequeue = none ↔ q.contents = [] := by
  rw [dequeue, h.contents_eq_nil_iff]
  constructor
  · intro hNone
    split_ifs at hNone with hEmpty
    exact hEmpty
  · intro hEmpty
    exact if_pos hEmpty

theorem contents_dequeue (h : q.WellFormed) (hNext : q.dequeue = some (x, q')) :
    q.contents = x :: q'.contents ∧ q'.WellFormed ∧ q'.size = q.size := by
  rw [dequeue] at hNext
  split_ifs at hNext with hEmpty
  obtain ⟨rfl, rfl⟩ := Prod.mk.inj (Option.some.inj hNext)
  have hWellFormed : WellFormed { q with head := (q.head + 1) % q.size } :=
    ⟨Nat.mod_lt _ h.size_pos, h.tail_lt⟩
  obtain ⟨n, hn⟩ : ∃ n, q.count = n + 1 := by
    apply Nat.exists_eq_succ_of_ne_zero
    rw [← length_contents]
    exact mt List.length_eq_zero_iff.mp (mt h.contents_eq_nil_iff.mp hEmpty)
  have hLess := h.count_lt
  have hCount : count { q with head := (q.head + 1) % q.size } = n := by
    apply hWellFormed.count_eq
    · dsimp only
      omega
    · have hSum : q.head + 1 + n = q.head + q.count := by omega
      dsimp only
      rw [Nat.mod_add_mod, hSum, h.head_add_count]
  refine ⟨?_, hWellFormed, rfl⟩
  rw [contents, contents, hn, hCount, List.range_succ_eq_map, List.map_cons, List.map_map]
  congr 1
  apply List.map_congr_left
  intro i hMem
  have hSum : q.head + 1 + (i + 1) = q.head + 1 + (1 + i) := by omega
  have hSlot : (q.head + 1 + (i + 1)) % q.size = ((q.head + 1) % q.size + 1 + i) % q.size := by
    rw [hSum, Nat.add_assoc ((q.head + 1) % q.size), Nat.mod_add_mod]
  exact congrArg q.buffer hSlot

end WellFormed

end TrainKernel.User.RingBuffer
