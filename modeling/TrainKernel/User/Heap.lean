import Mathlib.Data.Finset.Image
import Mathlib.Order.Interval.Finset.Nat

/-!
# The heap template

The priority queue of `heap.h` over values that have a cost. Slot 0 of the array is unused.
Sifting down looks at the child `2 * idx` first, follows it to the bottom where it is
cheaper, and then does the same with the other child.
-/

namespace TrainKernel.User

open Function

structure Heap (α : Type) where
  heap : Nat → α
  count : Nat

namespace Heap

variable {α : Type}

def parent (x : Nat) : Nat := x / 2
def right (x : Nat) : Nat := 2 * x
def left (x : Nat) : Nat := 2 * x + 1

def swap (h : Heap α) (i j : Nat) : Heap α :=
  { h with heap := update (update h.heap i (h.heap j)) j (h.heap i) }

/-- The first argument bounds the depth of the recursion. -/
def siftUp (valueFunc : α → Int) : Nat → Heap α → Nat → Heap α
  | 0, h, _ => h
  | depth + 1, h, idx =>
    if idx = 1 then h
    else if valueFunc (h.heap idx) < valueFunc (h.heap (parent idx)) then
      siftUp valueFunc depth (h.swap idx (parent idx)) (parent idx)
    else h

def siftDown (valueFunc : α → Int) : Nat → Heap α → Nat → Heap α
  | 0, h, _ => h
  | depth + 1, h, idx =>
    if idx * 2 > h.count then h
    else
      let h :=
        if valueFunc (h.heap (right idx)) < valueFunc (h.heap idx) then
          siftDown valueFunc depth (h.swap idx (right idx)) (right idx)
        else h
      if left idx ≤ h.count ∧ valueFunc (h.heap (left idx)) < valueFunc (h.heap idx) then
        siftDown valueFunc depth (h.swap idx (left idx)) (left idx)
      else h

/-- `none` where the assertion fails that the array has a slot left. -/
def push (valueFunc : α → Int) (height : Nat) (h : Heap α) (value : α) : Option (Heap α) :=
  if h.count < 2 ^ height then
    let h : Heap α := ⟨update h.heap (h.count + 1) value, h.count + 1⟩
    some (siftUp valueFunc h.count h h.count)
  else none

def pop (valueFunc : α → Int) (h : Heap α) : Option (α × Heap α) :=
  if 0 < h.count then
    let ret := h.heap 1
    let h : Heap α := ⟨update h.heap 1 (h.heap h.count), h.count - 1⟩
    some (ret, siftDown valueFunc h.count h 1)
  else none

def content (h : Heap α) : Multiset α := (Finset.Icc 1 h.count).val.map h.heap

@[simp] theorem card_content (h : Heap α) : h.content.card = h.count := by
  simp [content]

theorem mem_content {h : Heap α} {v : α} :
    v ∈ h.content ↔ ∃ i, 1 ≤ i ∧ i ≤ h.count ∧ h.heap i = v := by
  simp [content, and_assoc]

theorem content_congr {f g : Nat → α} {n : Nat} (h : ∀ i, 1 ≤ i → i ≤ n → f i = g i) :
    (⟨f, n⟩ : Heap α).content = (⟨g, n⟩ : Heap α).content := by
  refine Multiset.map_congr rfl fun i hi => ?_
  have hi := Finset.mem_Icc.mp (Finset.mem_def.mpr hi)
  exact h i hi.1 hi.2

theorem content_succ (f : Nat → α) (n : Nat) :
    (⟨f, n + 1⟩ : Heap α).content = f (n + 1) ::ₘ (⟨f, n⟩ : Heap α).content := by
  have hIcc : Finset.Icc 1 (n + 1) = Finset.cons (n + 1) (Finset.Icc 1 n) (by simp) := by
    ext i
    simp only [Finset.mem_Icc, Finset.mem_cons]
    omega
  rw [content, content, hIcc, Finset.cons_val, Multiset.map_cons]

@[simp] theorem swap_count (h : Heap α) (i j : Nat) : (h.swap i j).count = h.count := rfl

theorem swap_heap (h : Heap α) (i j k : Nat) : (h.swap i j).heap k =
    if k = j then h.heap i else if k = i then h.heap j else h.heap k := by
  simp [swap, update_apply]

theorem swap_content (h : Heap α) {i j : Nat} (hi : 1 ≤ i) (hi' : i ≤ h.count) (hj : 1 ≤ j)
    (hj' : j ≤ h.count) : (h.swap i j).content = h.content := by
  have hPerm : (Finset.Icc 1 h.count).map (Equiv.swap i j : Nat ↪ Nat) = Finset.Icc 1 h.count := by
    refine Finset.map_perm fun k hk => ?_
    rw [Finset.coe_Icc, Set.mem_Icc]
    by_contra hOut
    refine hk (Equiv.swap_apply_of_ne_of_ne ?_ ?_)
    · rintro rfl
      exact hOut ⟨hi, hi'⟩
    · rintro rfl
      exact hOut ⟨hj, hj'⟩
  have hHeap : (h.swap i j).heap = h.heap ∘ Equiv.swap i j := by
    funext k
    rw [swap_heap, comp_apply, Equiv.swap_apply_def]
    split_ifs <;> simp_all
  rw [content, content, hHeap, ← Multiset.map_map]
  exact congrArg (Multiset.map h.heap) (congrArg Finset.val hPerm)

variable {valueFunc : α → Int} {h h' : Heap α} {idx c i j : Nat}

theorem parent_le (i : Nat) : parent i ≤ i :=
  Nat.div_le_self i 2

theorem parent_lt (hi : 1 ≤ i) : parent i < i :=
  Nat.div_lt_self hi Nat.one_lt_two

theorem parent_pos (hi : 2 ≤ i) : 1 ≤ parent i :=
  Nat.div_pos hi Nat.two_pos

theorem child_iff : parent c = idx ↔ c = right idx ∨ c = left idx := by
  simp only [parent, right, left]
  omega

theorem lt_child (hi : 1 ≤ idx) (hc : c = right idx ∨ c = left idx) : idx < c := by
  simp only [right, left] at hc
  omega

theorem right_lt_left (idx : Nat) : right idx < left idx :=
  Nat.lt_succ_self _

theorem right_le (h : idx ≤ parent i) : right idx ≤ i := by
  simp only [parent, right] at *
  omega

def Ordered (valueFunc : α → Int) (h : Heap α) : Prop :=
  ∀ i, 2 ≤ i → i ≤ h.count → valueFunc (h.heap (parent i)) ≤ valueFunc (h.heap i)

theorem Ordered.congr {valueFunc' : α → Int} (h' : Ordered valueFunc h)
    (hEq : ∀ v ∈ h.content, valueFunc' v = valueFunc v) : Ordered valueFunc' h := by
  intro i hi hi'
  rw [hEq _ (mem_content.mpr ⟨parent i, parent_pos hi, (parent_le i).trans hi', rfl⟩),
    hEq _ (mem_content.mpr ⟨i, by omega, hi', rfl⟩)]
  exact h' i hi hi'

/-- Only the slot `idx` may be cheaper than its parent. -/
structure UpOrder (valueFunc : α → Int) (h : Heap α) (idx : Nat) : Prop where
  except : ∀ i, 2 ≤ i → i ≤ h.count → i ≠ idx →
    valueFunc (h.heap (parent i)) ≤ valueFunc (h.heap i)
  grand : ∀ c, 2 ≤ idx → parent c = idx → c ≤ h.count →
    valueFunc (h.heap (parent idx)) ≤ valueFunc (h.heap c)

theorem UpOrder.swap (h' : UpOrder valueFunc h idx) (hi : 2 ≤ idx) (hi' : idx ≤ h.count)
    (hLt : valueFunc (h.heap idx) < valueFunc (h.heap (parent idx))) :
    UpOrder valueFunc (h.swap idx (parent idx)) (parent idx) := by
  have hParent : parent idx < idx := parent_lt (by omega)
  constructor
  · intro i h2 hCount hNe
    have hExcept := h'.except i h2 hCount
    simp only [swap_heap, if_neg hNe]
    by_cases hEq : i = idx
    · subst hEq
      rw [if_pos rfl, if_pos rfl]
      exact hLt.le
    · rw [if_neg hEq]
      split_ifs with hp hq
      · rw [hp] at hExcept
        exact hLt.le.trans (hExcept hEq)
      · exact h'.grand i hi hq hCount
      · exact hExcept hEq
  · intro c h2 hc hCount
    have hGrand : parent (parent idx) < parent idx := parent_lt (by omega)
    have hNe : c ≠ parent idx := by
      rintro rfl
      exact hGrand.ne hc
    have hUp := h'.except (parent idx) h2 (by rw [swap_count] at hCount; omega) hParent.ne
    simp only [swap_heap, if_neg hNe, if_neg hGrand.ne, if_neg (hGrand.trans hParent).ne]
    split_ifs with hEq
    · exact hUp
    · have hExcept := h'.except c (h2.trans (hc ▸ parent_le c)) hCount hEq
      rw [hc] at hExcept
      exact hUp.trans hExcept

theorem siftUp_spec {depth : Nat} (hDepth : idx ≤ depth) (hi : 1 ≤ idx) (hi' : idx ≤ h.count)
    (hOrder : UpOrder valueFunc h idx) :
    (siftUp valueFunc depth h idx).content = h.content ∧
      Ordered valueFunc (siftUp valueFunc depth h idx) := by
  induction depth generalizing h idx with
  | zero => omega
  | succ depth ih =>
    rw [siftUp]
    split_ifs with hRoot hLt
    · exact ⟨rfl, fun i h2 hCount => hOrder.except i h2 hCount (by omega)⟩
    · have h2 : 2 ≤ idx := by omega
      have hParent : 1 ≤ parent idx ∧ parent idx < idx :=
        ⟨parent_pos h2, parent_lt hi⟩
      obtain ⟨hContent, hOrdered⟩ := ih (h := h.swap idx (parent idx)) (by omega) hParent.1
        (hParent.2.le.trans hi') (hOrder.swap h2 hi' hLt)
      exact ⟨hContent.trans (h.swap_content hi hi' hParent.1 (hParent.2.le.trans hi')), hOrdered⟩
    · refine ⟨rfl, fun i h2 hCount => ?_⟩
      by_cases hEq : i = idx
      · subst hEq
        exact not_lt.mp hLt
      · exact hOrder.except i h2 hCount hEq

theorem push_spec {height : Nat} (hOrder : Ordered valueFunc h) (hRoom : h.count < 2 ^ height)
    (v : α) : ∃ h', push valueFunc height h v = some h' ∧ h'.content = v ::ₘ h.content ∧
      Ordered valueFunc h' := by
  have hNew : (⟨update h.heap (h.count + 1) v, h.count + 1⟩ : Heap α).content
      = v ::ₘ h.content := by
    rw [content_succ, update_self]
    refine congrArg _ (content_congr fun i _ hi => update_of_ne (by omega) _ _)
  have hUp : UpOrder valueFunc ⟨update h.heap (h.count + 1) v, h.count + 1⟩ (h.count + 1) := by
    constructor
    · intro i h2 hCount hNe
      have hi : i ≤ h.count := by
        have hCount : i ≤ h.count + 1 := hCount
        omega
      change valueFunc (update h.heap (h.count + 1) v (parent i))
        ≤ valueFunc (update h.heap (h.count + 1) v i)
      have hParent := parent_le i
      rw [update_of_ne hNe, update_of_ne (by omega)]
      exact hOrder i h2 hi
    · intro c _ hc hCount
      have hCount : c ≤ h.count + 1 := hCount
      rw [parent] at hc
      omega
  obtain ⟨hContent, hOrdered⟩ := siftUp_spec (le_refl (h.count + 1)) (by omega) (le_refl _) hUp
  exact ⟨_, if_pos hRoom, hContent.trans hNew, hOrdered⟩

/-! ## Sifting down -/

inductive Below (idx : Nat) : Nat → Prop
  | self : Below idx idx
  | step {j : Nat} : Below idx (parent j) → Below idx j

theorem Below.le (h : Below idx j) : idx ≤ j := by
  induction h with
  | self => exact le_refl _
  | @step j _ ih => exact ih.trans (parent_le j)

theorem Below.trans (h : Below idx c) (h' : Below c j) : Below idx j := by
  induction h' with
  | self => exact h
  | step _ ih => exact ih.step

theorem below_child (hc : c = right idx ∨ c = left idx) : Below idx c := by
  apply Below.step
  rw [child_iff.mpr hc]
  exact Below.self

theorem below_iff : Below idx j ↔ j = idx ∨ Below (right idx) j ∨ Below (left idx) j := by
  constructor
  · intro h
    induction h with
    | self => exact Or.inl rfl
    | @step j h ih =>
      rcases ih with hEq | hRight | hLeft
      · rcases child_iff.mp hEq with rfl | rfl
        · exact Or.inr (Or.inl Below.self)
        · exact Or.inr (Or.inr Below.self)
      · exact Or.inr (Or.inl hRight.step)
      · exact Or.inr (Or.inr hLeft.step)
  · rintro (rfl | h | h)
    · exact Below.self
    · exact (below_child (Or.inl rfl)).trans h
    · exact (below_child (Or.inr rfl)).trans h

theorem below_one (hj : 1 ≤ j) : Below 1 j := by
  induction j using Nat.strong_induction_on with
  | _ j ih =>
    by_cases hEq : j = 1
    · rw [hEq]
      exact Below.self
    · exact (ih (parent j) (parent_lt hj) (parent_pos (by omega))).step

theorem not_below_left (hi : 1 ≤ idx) (h : Below (right idx) j) : ¬Below (left idx) j := by
  induction h with
  | self =>
    intro h
    exact absurd (right_lt_left idx) h.le.not_gt
  | @step j h ih =>
    intro h'
    cases h' with
    | self =>
      have hLe := h.le
      rw [child_iff.mpr (Or.inr rfl)] at hLe
      exact absurd (lt_child hi (Or.inl rfl)) hLe.not_gt
    | step h' => exact ih h'

def OrderedBelow (valueFunc : α → Int) (h : Heap α) (idx : Nat) : Prop :=
  ∀ i, Below idx (parent i) → i ≤ h.count →
    valueFunc (h.heap (parent i)) ≤ valueFunc (h.heap i)

theorem OrderedBelow.root_le (h' : OrderedBelow valueFunc h idx) (hj : Below idx j)
    (hCount : j ≤ h.count) : valueFunc (h.heap idx) ≤ valueFunc (h.heap j) := by
  induction hj with
  | self => exact le_refl _
  | @step j hj ih =>
    exact (ih ((parent_le j).trans hCount)).trans (h' j hj hCount)

theorem OrderedBelow.congr (h' : OrderedBelow valueFunc h idx) {g : Heap α}
    (hCount : g.count = h.count) (hEq : ∀ j, Below idx j → g.heap j = h.heap j) :
    OrderedBelow valueFunc g idx := by
  intro i hi hi'
  rw [hEq _ hi, hEq _ hi.step]
  exact h' i hi (hCount ▸ hi')

/-- `h'` is `h` with the subtree of `idx` put in order. -/
structure Sifted (valueFunc : α → Int) (h h' : Heap α) (idx : Nat) : Prop where
  count : h'.count = h.count
  content : h'.content = h.content
  frame : ∀ j, ¬Below idx j → h'.heap j = h.heap j
  within : ∀ j, Below idx j → j ≤ h.count → ∃ k, Below idx k ∧ k ≤ h.count ∧ h'.heap j = h.heap k
  ordered : OrderedBelow valueFunc h' idx

structure ChildSifted (valueFunc : α → Int) (h h' : Heap α) (idx c : Nat) : Prop where
  count : h'.count = h.count
  content : h'.content = h.content
  frame : ∀ j, j ≠ idx → ¬Below c j → h'.heap j = h.heap j
  within : ∀ j, j = idx ∨ Below c j → j ≤ h.count →
    ∃ k, (k = idx ∨ Below c k) ∧ k ≤ h.count ∧ h'.heap j = h.heap k
  ordered : OrderedBelow valueFunc h' c
  root_le : valueFunc (h'.heap idx) ≤ valueFunc (h.heap idx)
  child_le : c ≤ h.count → valueFunc (h'.heap idx) ≤ valueFunc (h'.heap c)

theorem ChildSifted.of_sifted (hi : 1 ≤ idx) (hc : c = right idx ∨ c = left idx)
    (hCount : c ≤ h.count) (hOrder : OrderedBelow valueFunc h c)
    (hLt : valueFunc (h.heap c) < valueFunc (h.heap idx))
    (hSifted : Sifted valueFunc (h.swap idx c) h' c) : ChildSifted valueFunc h h' idx c := by
  have hGt : idx < c := lt_child hi hc
  have hNot : ¬Below c idx := fun h => by
    have := h.le
    omega
  have hRoot : h'.heap idx = h.heap c := by
    rw [hSifted.frame idx hNot, swap_heap, if_neg hGt.ne, if_pos rfl]
  have hWithin : ∀ j, Below c j → j ≤ h.count → ∃ k, (k = idx ∨ k ≠ c ∧ Below c k) ∧
      k ≤ h.count ∧ h'.heap j = h.heap k := by
    intro j hj hj'
    obtain ⟨k, hk, hk', hEq⟩ := hSifted.within j hj hj'
    rw [swap_heap] at hEq
    split_ifs at hEq with hkc hki
    · exact ⟨idx, Or.inl rfl, hGt.le.trans hCount, hEq⟩
    · exact absurd (hki ▸ hk) hNot
    · exact ⟨k, Or.inr ⟨hkc, hk⟩, hk', hEq⟩
  refine ⟨hSifted.count, ?_, ?_, ?_, hSifted.ordered, hRoot ▸ hLt.le, fun _ => ?_⟩
  · rw [hSifted.content, swap_content _ hi (hGt.le.trans hCount) (by omega) hCount]
  · intro j hj hBelow
    rw [hSifted.frame j hBelow, swap_heap, if_neg hj, if_neg]
    rintro rfl
    exact hBelow Below.self
  · rintro j (rfl | hj) hj'
    · exact ⟨c, Or.inr Below.self, hCount, hRoot⟩
    · obtain ⟨k, hk, hk', hEq⟩ := hWithin j hj hj'
      exact ⟨k, hk.imp_right And.right, hk', hEq⟩
  · obtain ⟨k, hk, hk', hEq⟩ := hWithin c Below.self hCount
    rw [hRoot, hEq]
    rcases hk with rfl | ⟨-, hk⟩
    · exact hLt.le
    · exact hOrder.root_le hk hk'

theorem ChildSifted.refl (hOrder : OrderedBelow valueFunc h c)
    (hLe : c ≤ h.count → valueFunc (h.heap idx) ≤ valueFunc (h.heap c)) :
    ChildSifted valueFunc h h idx c :=
  ⟨rfl, rfl, fun _ _ _ => rfl, fun j hj hj' => ⟨j, hj, hj', rfl⟩, hOrder, le_refl _, hLe⟩

theorem Sifted.of_children {g : Heap α} (hFirst : ChildSifted valueFunc h g idx (right idx))
    (hSecond : ChildSifted valueFunc g h' idx (left idx)) (hi : 1 ≤ idx) :
    Sifted valueFunc h h' idx := by
  have hKeep {j : Nat} (hj : Below (right idx) j) : h'.heap j = g.heap j := by
    refine hSecond.frame j ?_ (not_below_left hi hj)
    exact ((lt_child hi (Or.inl rfl)).trans_le hj.le).ne'
  have hCount : g.count = h.count := hFirst.count
  refine ⟨hSecond.count.trans hCount, hSecond.content.trans hFirst.content, ?_, ?_, ?_⟩
  · intro j hj
    rw [below_iff, not_or, not_or] at hj
    rw [hSecond.frame j hj.1 hj.2.2, hFirst.frame j hj.1 hj.2.1]
  · have hInner : ∀ k, Below idx k → k ≤ h.count →
        ∃ k', Below idx k' ∧ k' ≤ h.count ∧ g.heap k = h.heap k' := by
      intro k hk hk'
      by_cases hLeft : k ≠ idx ∧ ¬Below (right idx) k
      · exact ⟨k, hk, hk', hFirst.frame k hLeft.1 hLeft.2⟩
      · obtain ⟨k', hBelow, hk', hEq⟩ := hFirst.within k (by tauto) hk'
        exact ⟨k', below_iff.mpr (by tauto), hk', hEq⟩
    intro j hj hj'
    rcases below_iff.mp hj with hEq | hRight | hLeft
    · obtain ⟨k, hk, hk', hEq⟩ := hSecond.within j (Or.inl hEq) (hCount.symm ▸ hj')
      rw [hEq]
      exact hInner k (below_iff.mpr (by tauto)) (hCount ▸ hk')
    · rw [hKeep hRight]
      exact hInner j hj hj'
    · obtain ⟨k, hk, hk', hEq⟩ := hSecond.within j (Or.inr hLeft) (hCount.symm ▸ hj')
      rw [hEq]
      exact hInner k (below_iff.mpr (by tauto)) (hCount ▸ hk')
  · intro i hBelow hi'
    rw [hSecond.count, hCount] at hi'
    rcases below_iff.mp hBelow with hEq | hRight | hLeft
    · rw [hEq]
      rcases child_iff.mp hEq with rfl | rfl
      · rw [hKeep Below.self]
        exact hSecond.root_le.trans (hFirst.child_le hi')
      · exact hSecond.child_le (hCount.symm ▸ hi')
    · rw [hKeep hRight, hKeep hRight.step]
      exact hFirst.ordered i hRight (hCount.symm ▸ hi')
    · exact hSecond.ordered i hLeft (by rw [hSecond.count, hCount]; exact hi')

theorem Sifted.leaf (hOut : h.count < right idx) : Sifted valueFunc h h idx := by
  refine ⟨rfl, rfl, fun _ _ => rfl, fun j hj hj' => ⟨j, hj, hj', rfl⟩, fun i hBelow hi' => ?_⟩
  have hRight := right_le hBelow.le
  omega

theorem siftChild {depth : Nat} (hi : 1 ≤ idx) (hc : c = right idx ∨ c = left idx)
    (hOrder : OrderedBelow valueFunc h c)
    (ih : ∀ g : Heap α, g.count = h.count → OrderedBelow valueFunc g (right c) →
      OrderedBelow valueFunc g (left c) →
      Sifted valueFunc g (siftDown valueFunc depth g c) c) :
    ChildSifted valueFunc h
      (if c ≤ h.count ∧ valueFunc (h.heap c) < valueFunc (h.heap idx) then
        siftDown valueFunc depth (h.swap idx c) c else h) idx c := by
  have hGt : idx < c := lt_child hi hc
  have hSame {d : Nat} (hd : d = right c ∨ d = left c) :
      OrderedBelow valueFunc (h.swap idx c) d := by
    have hOrder' : OrderedBelow valueFunc h d :=
      fun i hi => hOrder i ((below_child hd).trans hi)
    refine hOrder'.congr rfl fun j hj => ?_
    have hj' : c < j := (lt_child (hi.trans hGt.le) hd).trans_le hj.le
    rw [swap_heap, if_neg hj'.ne', if_neg (hGt.trans hj').ne']
  split_ifs with hLt
  · exact ChildSifted.of_sifted hi hc hLt.1 hOrder hLt.2
      (ih _ rfl (hSame (Or.inl rfl)) (hSame (Or.inr rfl)))
  · exact ChildSifted.refl hOrder fun hCount => not_lt.mp fun h => hLt ⟨hCount, h⟩

theorem siftDown_spec {depth : Nat} (hDepth : h.count < idx + depth) (hi : 1 ≤ idx)
    (hRight : OrderedBelow valueFunc h (right idx)) (hLeft : OrderedBelow valueFunc h (left idx)) :
    Sifted valueFunc h (siftDown valueFunc depth h idx) idx := by
  induction depth generalizing h idx with
  | zero => exact Sifted.leaf (hDepth.trans (lt_child hi (Or.inl rfl)))
  | succ depth ih =>
    by_cases hOut : idx * 2 > h.count
    · rw [siftDown, if_pos hOut]
      exact Sifted.leaf (by rw [right]; omega)
    have hNext {c : Nat} (hc : c = right idx ∨ c = left idx) (g : Heap α)
        (hCount : g.count = h.count) (hr : OrderedBelow valueFunc g (right c))
        (hl : OrderedBelow valueFunc g (left c)) :
        Sifted valueFunc g (siftDown valueFunc depth g c) c := by
      have hGt := lt_child hi hc
      exact ih (by omega) (by omega) hr hl
    have hFirst := siftChild hi (Or.inl rfl) hRight (hNext (Or.inl rfl))
    have hLeft' := hLeft.congr hFirst.count fun j hj => hFirst.frame j
      ((lt_child hi (Or.inr rfl)).trans_le hj.le).ne' fun hj' => not_below_left hi hj' hj
    have hSecond := siftChild hi (Or.inr rfl) hLeft'
      fun g hCount => hNext (Or.inr rfl) g (hCount.trans hFirst.count)
    have hIn : right idx ≤ h.count := by rw [right]; omega
    have hSifted := Sifted.of_children hFirst hSecond hi
    simp only [hIn, true_and] at hSifted
    rw [siftDown, if_neg hOut]
    exact hSifted

theorem content_pop (hCount : 0 < h.count) : h.content = h.heap 1 ::ₘ
    (⟨update h.heap 1 (h.heap h.count), h.count - 1⟩ : Heap α).content := by
  rw [← h.swap_content (le_refl 1) hCount hCount (le_refl _)]
  obtain ⟨n, hn⟩ : ∃ n, h.count = n + 1 := ⟨h.count - 1, by omega⟩
  have hLast := content_succ (h.swap 1 h.count).heap n
  rw [← hn, swap_heap, if_pos rfl] at hLast
  refine hLast.trans (congrArg _ ?_)
  rw [hn, Nat.add_sub_cancel]
  refine content_congr fun i _ hi => ?_
  rw [swap_heap, if_neg (by omega), update_apply]

theorem pop_spec (hOrder : Ordered valueFunc h) (hCount : 0 < h.count) :
    ∃ v h', pop valueFunc h = some (v, h') ∧ h.content = v ::ₘ h'.content ∧
      Ordered valueFunc h' ∧ ∀ u ∈ h'.content, valueFunc v ≤ valueFunc u := by
  have hAll : OrderedBelow valueFunc h 1 := fun i hBelow hi => by
    have h2 : right 1 ≤ i := right_le hBelow.le
    exact hOrder i h2 hi
  have hRest {c : Nat} (hc : c = right 1 ∨ c = left 1) : OrderedBelow valueFunc
      ⟨update h.heap 1 (h.heap h.count), h.count - 1⟩ c := by
    intro i hBelow hi
    have hi : i ≤ h.count - 1 := hi
    have hParent : 1 < parent i := (lt_child (le_refl 1) hc).trans_le hBelow.le
    have h2 : 2 ≤ i := hParent.trans_le (parent_le i)
    change valueFunc (update h.heap 1 (h.heap h.count) (parent i))
      ≤ valueFunc (update h.heap 1 (h.heap h.count) i)
    rw [update_of_ne hParent.ne', update_of_ne (by omega)]
    exact hOrder i h2 (by omega)
  have hSifted : Sifted valueFunc _ (siftDown valueFunc (h.count - 1) _ 1) 1 :=
    siftDown_spec (Nat.lt_add_of_pos_left Nat.one_pos) (le_refl 1) (hRest (Or.inl rfl))
      (hRest (Or.inr rfl))
  refine ⟨_, _, if_pos hCount, (content_pop hCount).trans (by rw [hSifted.content]), ?_, ?_⟩
  · exact fun i hi hi' => hSifted.ordered i (below_one (parent_pos hi)) hi'
  · intro u hu
    rw [hSifted.content] at hu
    obtain ⟨i, hi, hi', rfl⟩ := mem_content.mp (content_pop hCount ▸ Multiset.mem_cons_of_mem hu)
    exact hAll.root_le (below_one hi) hi'

@[simp] theorem siftUp_count (valueFunc : α → Int) (depth : Nat) (h : Heap α) (idx : Nat) :
    (siftUp valueFunc depth h idx).count = h.count := by
  induction depth generalizing h idx with
  | zero => rfl
  | succ depth ih =>
    rw [siftUp]
    split_ifs
    · rfl
    · rw [ih, swap_count]
    · rfl

theorem count_of_push {height : Nat} {v : α} (hPush : push valueFunc height h v = some h') :
    h'.count = h.count + 1 := by
  rw [push] at hPush
  split_ifs at hPush
  rw [← Option.some.inj hPush, siftUp_count]

/-! ## Corresponding heaps -/

variable {β : Type} {R R' : α → β → Prop} {value : α} {value' : β} {g : Heap β}
variable {valueFunc' : β → Int}

/-- The heaps hold corresponding values in the same slots. -/
structure Sim (R : α → β → Prop) (h : Heap α) (g : Heap β) : Prop where
  count : h.count = g.count
  heap : ∀ i, 1 ≤ i → i ≤ h.count → R (h.heap i) (g.heap i)

namespace Sim

theorem mono (hSim : Sim R h g) (hR : ∀ v ∈ h.content, ∀ w, R v w → R' v w) : Sim R' h g :=
  ⟨hSim.count, fun i hi hi' => hR _ (mem_content.mpr ⟨i, hi, hi', rfl⟩) _ (hSim.heap i hi hi')⟩

theorem swap (hSim : Sim R h g) (hi : 1 ≤ i) (hi' : i ≤ h.count) (hj : 1 ≤ j)
    (hj' : j ≤ h.count) : Sim R (h.swap i j) (g.swap i j) := by
  refine ⟨hSim.count, fun k hk hk' => ?_⟩
  rw [swap_heap, swap_heap]
  split_ifs
  · exact hSim.heap i hi hi'
  · exact hSim.heap j hj hj'
  · exact hSim.heap k hk hk'

theorem update {n : Nat} (hSim : Sim R h g) (hValue : R value value')
    (hOther : ∀ i, i ≤ n → i ≠ j → i ≤ h.count) :
    Sim R ⟨update h.heap j value, n⟩ ⟨update g.heap j value', n⟩ := by
  refine ⟨rfl, fun i hi hi' => ?_⟩
  change R (Function.update h.heap j value i) (Function.update g.heap j value' i)
  rw [update_apply, update_apply]
  split_ifs with hEq
  · exact hValue
  · exact hSim.heap i hi (hOther i hi' hEq)

theorem pop_none (hSim : Sim R h g) (hPop : pop valueFunc' g = none) :
    pop valueFunc h = none := by
  rw [pop] at hPop ⊢
  rw [hSim.count]
  split_ifs at hPop ⊢
  rfl

variable (hCost : ∀ v w, R v w → valueFunc v = valueFunc' w)
include hCost

theorem siftUp {depth : Nat} (hSim : Sim R h g) (hi : 1 ≤ idx) (hi' : idx ≤ h.count) :
    Sim R (siftUp valueFunc depth h idx) (siftUp valueFunc' depth g idx) := by
  induction depth generalizing h g idx with
  | zero => exact hSim
  | succ depth ih =>
    rw [Heap.siftUp, Heap.siftUp]
    by_cases hOne : idx = 1
    · rw [if_pos hOne, if_pos hOne]
      exact hSim
    have hPos : 1 ≤ parent idx := parent_pos (by omega)
    have hLe : parent idx ≤ h.count := (parent_le idx).trans hi'
    rw [if_neg hOne, if_neg hOne, hCost _ _ (hSim.heap idx hi hi'),
      hCost _ _ (hSim.heap (parent idx) hPos hLe)]
    split_ifs
    · exact ih (hSim.swap hi hi' hPos hLe) hPos hLe
    · exact hSim

theorem siftDown {depth : Nat} (hSim : Sim R h g) (hi : 1 ≤ idx) :
    Sim R (siftDown valueFunc depth h idx) (siftDown valueFunc' depth g idx) := by
  induction depth generalizing h g idx with
  | zero => exact hSim
  | succ depth ih =>
    -- following one child to the bottom, if it is cheaper
    have hChild {h : Heap α} {g : Heap β} (hSim : Sim R h g) {c : Nat} (hc : idx ≤ c)
        (hc' : c ≤ h.count) :
        Sim R
          (if valueFunc (h.heap c) < valueFunc (h.heap idx) then
            Heap.siftDown valueFunc depth (h.swap idx c) c else h)
          (if valueFunc' (g.heap c) < valueFunc' (g.heap idx) then
            Heap.siftDown valueFunc' depth (g.swap idx c) c else g) := by
      have hPos : 1 ≤ c := hi.trans hc
      rw [hCost _ _ (hSim.heap idx hi (hc.trans hc')), hCost _ _ (hSim.heap c hPos hc')]
      split_ifs
      · exact ih (hSim.swap hi (hc.trans hc') hPos hc') hPos
      · exact hSim
    rw [Heap.siftDown, Heap.siftDown, hSim.count]
    by_cases hLeaf : idx * 2 > g.count
    · rw [if_pos hLeaf, if_pos hLeaf]
      exact hSim
    rw [if_neg hLeaf, if_neg hLeaf]
    have hRight : right idx ≤ h.count := by
      rw [right, hSim.count]
      omega
    have hFirst := hChild hSim (lt_child hi (Or.inl rfl)).le hRight
    dsimp only
    generalize (if valueFunc (h.heap (right idx)) < valueFunc (h.heap idx) then _ else h) = h₁
      at hFirst ⊢
    generalize (if valueFunc' (g.heap (right idx)) < valueFunc' (g.heap idx) then _ else g) = g₁
      at hFirst ⊢
    rw [hFirst.count, ite_and, ite_and]
    by_cases hLeft : left idx ≤ g₁.count
    · have hBelow : idx ≤ left idx := (lt_child hi (Or.inr rfl)).le
      rw [if_pos hLeft, if_pos hLeft]
      exact hChild hFirst hBelow (hFirst.count ▸ hLeft)
    · rw [if_neg hLeft, if_neg hLeft]
      exact hFirst

theorem push {height : Nat} (hSim : Sim R h g) (hValue : R value value')
    (hRoom : g.count < 2 ^ height) :
    ∃ h' g', push valueFunc height h value = some h' ∧
      push valueFunc' height g value' = some g' ∧ Sim R h' g' := by
  refine ⟨_, _, if_pos (hSim.count ▸ hRoom), if_pos hRoom, ?_⟩
  rw [hSim.count]
  apply siftUp hCost _ (Nat.le_add_left 1 g.count) le_rfl
  apply hSim.update hValue
  intro i hi hNe
  rw [hSim.count]
  omega

theorem pop_some {g' : Heap β} (hSim : Sim R h g) (hPop : pop valueFunc' g = some (value', g')) :
    ∃ value h', pop valueFunc h = some (value, h') ∧ R value value' ∧ Sim R h' g' := by
  rw [pop] at hPop
  split_ifs at hPop with hPos
  obtain ⟨rfl, rfl⟩ := Prod.mk.inj (Option.some.inj hPop)
  have hPos' : 0 < h.count := hSim.count ▸ hPos
  refine ⟨_, _, if_pos hPos', hSim.heap 1 le_rfl hPos', ?_⟩
  rw [hSim.count]
  apply siftDown hCost _ le_rfl
  apply hSim.update (hSim.heap g.count hPos hSim.count.ge)
  intro i hi _
  rw [hSim.count]
  omega

end Sim

end Heap

end TrainKernel.User
