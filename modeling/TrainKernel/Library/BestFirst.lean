import Mathlib.Data.Multiset.AddSub
import Mathlib.Data.Set.Card
import Mathlib.Logic.Relation
import Mathlib.Tactic.Abel

/-!
# Best-first search of a tree

A search keeps the open elements of a tree and repeatedly replaces one with the least key by its
children, until it comes to a goal. There is no visited set: the elements are the partial solutions
themselves. Where the keys are the costs, what has been closed lies below the cost of every goal,
and what lies below the cost of the goal that was found has been closed. Keys that are computed with
a limited range are the costs as long as these stay in the range.
-/

namespace TrainKernel.Library.BestFirst

variable {T : Type*}

/-- A tree whose elements get no cheaper from parent to child. -/
structure SearchTree (T : Type*) where
  root : T
  children : T → List T
  cost : T → Int
  cost_le : ∀ p, ∀ t ∈ children p, cost p ≤ cost t
  children_nodup : ∀ p, (children p).Nodup
  parent_unique : ∀ p q t, t ∈ children p → t ∈ children q → p = q
  root_notMem : ∀ p, root ∉ children p

namespace SearchTree

variable (tree : SearchTree T)

/-- `tree.Below a t` says that `t` is `a` or a descendant of `a`. -/
abbrev Below : T → T → Prop := Relation.ReflTransGen fun p t => t ∈ tree.children p

/-- Some run of the search reaches these open and closed elements. -/
inductive Run (key : T → Int) (goal : T → Prop) : Multiset T → Multiset T → Prop
  | start : Run key goal {tree.root} 0
  | expand {t : T} {rest closed : Multiset T} : Run key goal (t ::ₘ rest) closed →
      (∀ u ∈ rest, key t ≤ key u) → ¬goal t →
      Run key goal (rest + tree.children t) (t ::ₘ closed)

/-- What is created when exactly the elements with a cost that meets `P` are expanded. -/
def created (P : Int → Prop) : Set T :=
  {t | t = tree.root ∨ ∃ p, tree.Below tree.root p ∧ P (tree.cost p) ∧ t ∈ tree.children p}

variable {tree} {key : T → Int} {goal : T → Prop} {opened closed rest : Multiset T} {a b g t : T}

theorem Below.cost_le (h : tree.Below a b) : tree.cost a ≤ tree.cost b := by
  induction h with
  | refl => exact le_refl _
  | tail _ hChild ih => exact ih.trans (tree.cost_le _ _ hChild)

theorem mem_created {c : Int} (h : tree.Below tree.root t) (hCost : tree.cost t ≤ c) :
    t ∈ tree.created (· ≤ c) := by
  rcases Relation.ReflTransGen.cases_tail h with hEq | ⟨p, hBelow, hChild⟩
  · exact Or.inl hEq
  · exact Or.inr ⟨p, hBelow, (tree.cost_le _ _ hChild).trans hCost, hChild⟩

namespace Run

theorem below_root (h : Run tree key goal opened closed) :
    ∀ t ∈ opened + closed, tree.Below tree.root t := by
  induction h with
  | start =>
    intro t ht
    rw [add_zero, Multiset.mem_singleton] at ht
    exact ht ▸ Relation.ReflTransGen.refl
  | @expand t rest closed _ _ _ ih =>
    intro u hu
    rw [Multiset.mem_add, Multiset.mem_add, Multiset.mem_cons] at hu
    rcases hu with (hu | hu) | rfl | hu
    · exact ih u (by simp [hu])
    · exact (ih t (by simp)).tail (by simpa using hu)
    · exact ih u (by simp)
    · exact ih u (by simp [hu])

theorem not_goal (h : Run tree key goal opened closed) : ∀ t ∈ closed, ¬goal t := by
  induction h with
  | start => exact fun _ h => absurd h (Multiset.notMem_zero _)
  | expand _ _ hGoal ih =>
    intro u hu
    rcases Multiset.mem_cons.mp hu with rfl | hu
    · exact hGoal
    · exact ih u hu

/-- An element of the tree is closed, or it is still to be found below an open one. -/
theorem covered (h : Run tree key goal opened closed) (ht : tree.Below tree.root t) :
    t ∈ closed ∨ ∃ a ∈ opened, tree.Below a t := by
  induction h with
  | start => exact Or.inr ⟨tree.root, by simp, ht⟩
  | @expand u rest closed _ _ _ ih =>
    rcases ih with hClosed | ⟨a, ha, hBelow⟩
    · exact Or.inl (Multiset.mem_cons_of_mem hClosed)
    · rcases Multiset.mem_cons.mp ha with rfl | ha
      · rcases Relation.ReflTransGen.cases_head hBelow with rfl | ⟨v, hv, hBelow⟩
        · exact Or.inl (Multiset.mem_cons_self _ _)
        · exact Or.inr ⟨v, by simp [hv], hBelow⟩
      · exact Or.inr ⟨a, by simp [ha], hBelow⟩

theorem cost_le_goal (h : Run tree tree.cost goal (t ::ₘ rest) closed)
    (hMin : ∀ u ∈ rest, tree.cost t ≤ tree.cost u) (hBelow : tree.Below tree.root g)
    (hg : goal g) : tree.cost t ≤ tree.cost g := by
  rcases h.covered hBelow with hClosed | ⟨a, ha, hBelow⟩
  · exact absurd hg (h.not_goal g hClosed)
  · rcases Multiset.mem_cons.mp ha with rfl | ha
    · exact hBelow.cost_le
    · exact (hMin a ha).trans hBelow.cost_le

theorem closed_le_goal (h : Run tree tree.cost goal opened closed) (hBelow : tree.Below tree.root g)
    (hg : goal g) : ∀ t ∈ closed, tree.cost t ≤ tree.cost g := by
  induction h with
  | start => exact fun _ h => absurd h (Multiset.notMem_zero _)
  | expand h hMin _ ih =>
    intro u hu
    rcases Multiset.mem_cons.mp hu with rfl | hu
    · exact h.cost_le_goal hMin hBelow hg
    · exact ih u hu

theorem mem_closed_of_cost_lt (h : Run tree tree.cost goal (t ::ₘ rest) closed)
    (hMin : ∀ u ∈ rest, tree.cost t ≤ tree.cost u) (hBelow : tree.Below tree.root b)
    (hb : tree.cost b < tree.cost t) : b ∈ closed := by
  apply (h.covered hBelow).resolve_right
  rintro ⟨a, ha, hBelow⟩
  have hCost := hBelow.cost_le
  rcases Multiset.mem_cons.mp ha with rfl | ha
  · omega
  · have := hMin a ha
    omega

theorem expand_eq (t : T) (rest closed new : Multiset T) :
    rest + new + t ::ₘ closed = t ::ₘ rest + closed + new := by
  rw [← Multiset.singleton_add, ← Multiset.singleton_add]
  abel

theorem mem_iff (h : Run tree key goal opened closed) :
    t ∈ opened + closed ↔ t = tree.root ∨ ∃ p ∈ closed, t ∈ tree.children p := by
  induction h with
  | start => simp
  | @expand u rest closed _ _ _ ih =>
    rw [expand_eq, Multiset.mem_add, ih, Multiset.mem_coe]
    simp only [Multiset.mem_cons, exists_eq_or_imp]
    rw [or_assoc, or_comm (b := t ∈ tree.children u)]

theorem nodup (h : Run tree key goal opened closed) : (opened + closed).Nodup := by
  induction h with
  | start => simp
  | @expand u rest closed h _ _ ih =>
    rw [expand_eq, Multiset.nodup_add]
    refine ⟨ih, by simpa using tree.children_nodup u, ?_⟩
    rw [Multiset.disjoint_left]
    intro v hv hChild
    rw [Multiset.mem_coe] at hChild
    rcases h.mem_iff.mp hv with rfl | ⟨p, hp, hChild'⟩
    · exact tree.root_notMem u hChild
    · -- the parent of a new child would be closed and open at once
      obtain rfl := tree.parent_unique p u v hChild' hChild
      rw [Multiset.cons_add] at ih
      exact (Multiset.nodup_cons.mp ih).1 (Multiset.mem_add.mpr (Or.inr hp))

theorem encard_eq (h : Run tree key goal opened closed) :
    {t | t ∈ opened + closed}.encard = (opened + closed).card := by
  exact Set.encard_coe_eq_coe_finsetCard ⟨opened + closed, h.nodup⟩

/-- As long as only elements with a cost that meets `P` are closed. -/
theorem card_le_created {P : Int → Prop} (h : Run tree key goal opened closed)
    (hP : ∀ t ∈ closed, P (tree.cost t)) :
    ((opened + closed).card : ℕ∞) ≤ (tree.created P).encard := by
  rw [← h.encard_eq]
  refine Set.encard_le_encard fun t ht => ?_
  rcases h.mem_iff.mp ht with rfl | ⟨p, hp, hChild⟩
  · exact Or.inl rfl
  · exact Or.inr ⟨p, h.below_root p (by simp [hp]), hP p hp, hChild⟩

/-- As soon as all elements with a cost that meets `P` are closed. -/
theorem created_le_card {P : Int → Prop} (h : Run tree key goal opened closed)
    (hP : ∀ t, tree.Below tree.root t → P (tree.cost t) → t ∈ closed) :
    (tree.created P).encard ≤ (opened + closed).card := by
  rw [← h.encard_eq]
  refine Set.encard_le_encard fun t ht => h.mem_iff.mpr ?_
  rcases ht with rfl | ⟨p, hBelow, hCost, hChild⟩
  · exact Or.inl rfl
  · exact Or.inr ⟨p, hP p hBelow hCost, hChild⟩

theorem card_le (h : Run tree key goal opened closed) {k : Nat}
    (hk : ∀ p, (tree.children p).length ≤ k) :
    (opened + closed).card ≤ 1 + k * closed.card := by
  induction h with
  | start => simp
  | @expand u rest closed _ _ _ ih =>
    have := hk u
    simp only [Multiset.card_add, Multiset.card_cons, Multiset.coe_card, Nat.mul_add] at ih ⊢
    omega

theorem mem_created (h : Run tree tree.cost goal opened closed) (hBelow : tree.Below tree.root g)
    (hg : goal g) (ht : t ∈ opened + closed) : t ∈ tree.created (· ≤ tree.cost g) := by
  rcases h.mem_iff.mp ht with rfl | ⟨p, hp, hChild⟩
  · exact Or.inl rfl
  · exact Or.inr ⟨p, h.below_root p (by simp [hp]), h.closed_le_goal hBelow hg p hp, hChild⟩

/-- A search by keys that are the costs of all that is created up to the cost of a goal is a search
by costs. -/
theorem of_key (h : Run tree key goal opened closed) (hBelow : tree.Below tree.root g)
    (hg : goal g) (hKey : ∀ t ∈ tree.created (· ≤ tree.cost g), key t = tree.cost t) :
    Run tree tree.cost goal opened closed := by
  induction h with
  | start => exact .start
  | @expand t rest closed _ hMin hGoal ih =>
    have hCreated (u : T) (hu : u ∈ t ::ₘ rest + closed) : key u = tree.cost u :=
      hKey u (ih.mem_created hBelow hg hu)
    refine ih.expand (fun u hu => ?_) hGoal
    rw [← hCreated t (by simp), ← hCreated u (by simp [hu])]
    exact hMin u hu

end Run

end SearchTree

end TrainKernel.Library.BestFirst
