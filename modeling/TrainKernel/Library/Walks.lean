import Mathlib.Data.Fintype.Card
import TrainKernel.Library.BestFirst

/-!
# Walks along roads

A vertex has finitely many labelled roads that leave it. A walk is the list of the labels
it follows, the last one first, so that the walks from a vertex form a tree. A cheapest
walk visits no vertex twice, unless the walk from one visit to the next is free.
-/

namespace TrainKernel.Library.Walks

open BestFirst

structure Roads (V L : Type*) where
  out : V → List L
  target : V → L → V
  length : V → L → Int

namespace Roads

variable {V L : Type*} (R : Roads V L) {v : V} {p q r : List L}

def stop (v : V) : List L → V
  | [] => v
  | l :: p => R.target (stop v p) l

def distance (v : V) : List L → Int
  | [] => 0
  | l :: p => distance v p + R.length (R.stop v p) l

def IsWalk (v : V) : List L → Prop
  | [] => True
  | l :: p => l ∈ R.out (R.stop v p) ∧ IsWalk v p

/-- The vertices the walk visits, its end first. -/
def visited (v : V) : List L → List V
  | [] => [v]
  | l :: p => R.stop v (l :: p) :: visited v p

theorem stop_append (q p : List L) : R.stop v (q ++ p) = R.stop (R.stop v p) q := by
  induction q with
  | nil => rfl
  | cons l q ih => rw [List.cons_append, stop, stop, ih]

theorem distance_append (q p : List L) :
    R.distance v (q ++ p) = R.distance v p + R.distance (R.stop v p) q := by
  induction q with
  | nil => rw [List.nil_append, distance, add_zero]
  | cons l q ih => rw [List.cons_append, distance, distance, ih, R.stop_append, add_assoc]

theorem isWalk_append : R.IsWalk v (q ++ p) ↔ R.IsWalk (R.stop v p) q ∧ R.IsWalk v p := by
  induction q with
  | nil => simp [IsWalk]
  | cons l q ih => rw [List.cons_append, IsWalk, IsWalk, ih, R.stop_append, and_assoc]

@[simp] theorem length_visited (v : V) (p : List L) :
    (R.visited v p).length = p.length + 1 := by
  induction p with
  | nil => rfl
  | cons l p ih => rw [visited, List.length_cons, ih, List.length_cons]

theorem mem_visited_iff {x : V} :
    x ∈ R.visited v p ↔ ∃ q p', p = q ++ p' ∧ R.stop v p' = x := by
  induction p with
  | nil =>
    rw [visited, List.mem_singleton]
    constructor
    · rintro rfl
      exact ⟨[], [], rfl, rfl⟩
    · rintro ⟨q, p', hEq, rfl⟩
      rw [(List.append_eq_nil_iff.mp hEq.symm).2, stop]
  | cons l p ih =>
    rw [visited, List.mem_cons, ih]
    constructor
    · rintro (rfl | ⟨q, p', rfl, rfl⟩)
      · exact ⟨[], l :: p, rfl, rfl⟩
      · exact ⟨l :: q, p', rfl, rfl⟩
    · rintro ⟨q, p', hEq, rfl⟩
      rcases List.cons_eq_append_iff.mp hEq with ⟨rfl, rfl⟩ | ⟨q', rfl, rfl⟩
      · exact Or.inl rfl
      · exact Or.inr ⟨q', p', rfl, rfl⟩

theorem exists_loop_of_not_nodup (h : ¬(R.visited v p).Nodup) :
    ∃ r q p', p = r ++ (q ++ p') ∧ q ≠ [] ∧ R.stop (R.stop v p') q = R.stop v p' := by
  induction p with
  | nil => exact absurd (List.nodup_singleton v) h
  | cons l p ih =>
    by_cases hRest : (R.visited v p).Nodup
    · have hMem : R.stop v (l :: p) ∈ R.visited v p := by
        by_contra hNot
        exact h (List.nodup_cons.mpr ⟨hNot, hRest⟩)
      obtain ⟨q, p', rfl, hStop⟩ := R.mem_visited_iff.mp hMem
      refine ⟨[], l :: q, p', rfl, List.cons_ne_nil _ _, ?_⟩
      rw [← R.stop_append, List.cons_append, hStop]
    · obtain ⟨r, q, p', rfl, hNe, hStop⟩ := ih hRest
      exact ⟨l :: r, q, p', rfl, hNe, hStop⟩

theorem rank_add_length_le (rank : V → Nat)
    (hRank : ∀ v, ∀ l ∈ R.out v, rank v < rank (R.target v l)) (h : R.IsWalk v p) :
    rank v + p.length ≤ rank (R.stop v p) := by
  induction p with
  | nil => exact le_refl _
  | cons l p ih => exact Nat.lt_of_le_of_lt (ih h.2) (hRank _ l h.1)

section loops

variable (hLoop : R.stop v q = v)
include hLoop

theorem stop_loops (k : Nat) : R.stop v (List.replicate k q).flatten = v := by
  induction k with
  | zero => rfl
  | succ k ih => rw [List.replicate_succ, List.flatten_cons, R.stop_append, ih, hLoop]

theorem isWalk_loops (h : R.IsWalk v q) (k : Nat) :
    R.IsWalk v (List.replicate k q).flatten := by
  induction k with
  | zero => trivial
  | succ k ih =>
    rw [List.replicate_succ, List.flatten_cons, R.isWalk_append, R.stop_loops hLoop]
    exact ⟨h, ih⟩

theorem distance_loops (h : R.distance v q = 0) (k : Nat) :
    R.distance v (List.replicate k q).flatten = 0 := by
  induction k with
  | zero => rfl
  | succ k ih =>
    rw [List.replicate_succ, List.flatten_cons, R.distance_append, ih, R.stop_loops hLoop, h,
      zero_add]

end loops

section lengths

variable (hLength : ∀ v, ∀ l ∈ R.out v, 0 ≤ R.length v l)
include hLength

theorem distance_nonneg (h : R.IsWalk v p) : 0 ≤ R.distance v p := by
  induction p with
  | nil => exact le_refl _
  | cons l p ih => exact add_nonneg (ih h.2) (hLength _ l h.1)

/-- A cheapest walk that visits a vertex twice walks free of cost in between. -/
theorem exists_free_loop (h : R.IsWalk v p) (hNodup : ¬(R.visited v p).Nodup)
    (hMin : ∀ p', R.IsWalk v p' → R.stop v p' = R.stop v p → R.distance v p ≤ R.distance v p') :
    ∃ q p', q ≠ [] ∧ R.IsWalk v p' ∧ R.IsWalk (R.stop v p') q ∧
      R.stop (R.stop v p') q = R.stop v p' ∧ R.distance (R.stop v p') q = 0 ∧
      R.distance v p' ≤ R.distance v p := by
  obtain ⟨r, q, p', rfl, hNe, hStop⟩ := R.exists_loop_of_not_nodup hNodup
  rw [R.isWalk_append, R.isWalk_append, R.stop_append, hStop] at h
  obtain ⟨hr, hq, hp'⟩ := h
  have hCut := hMin (r ++ p') (R.isWalk_append.mpr ⟨hr, hp'⟩)
    (by rw [R.stop_append, R.stop_append, R.stop_append, hStop])
  rw [R.distance_append, R.distance_append, R.stop_append, hStop, R.distance_append] at hCut
  have hrNonneg := R.distance_nonneg hLength hr
  have hqNonneg := R.distance_nonneg hLength hq
  refine ⟨q, p', hNe, hp', hq, hStop, by omega, ?_⟩
  rw [R.distance_append, R.distance_append, R.stop_append, hStop]
  omega

end lengths

theorem length_le_card [Fintype V] (h : (R.visited v p).Nodup) :
    p.length + 1 ≤ Fintype.card V := by
  rw [← R.length_visited v p]
  exact h.length_le_card

def restrict (P : V → Prop) [DecidablePred P] : Roads V L where
  out v := if P v then R.out v else []
  target := R.target
  length := R.length

section restrict

variable (P : V → Prop) [DecidablePred P] {Q : V → Prop} [DecidablePred Q]

@[simp] theorem restrict_stop (v : V) (p : List L) : (R.restrict P).stop v p = R.stop v p := by
  induction p with
  | nil => rfl
  | cons l p ih => exact congrArg (R.target · l) ih

@[simp] theorem restrict_distance (v : V) (p : List L) :
    (R.restrict P).distance v p = R.distance v p := by
  induction p with
  | nil => rfl
  | cons l p ih =>
    rw [distance, distance, ih, restrict_stop]
    rfl

theorem mem_restrict_out {l : L} : l ∈ (R.restrict P).out v ↔ P v ∧ l ∈ R.out v := by
  by_cases h : P v <;> simp [restrict, h]

variable {P}

theorem isWalk_restrict_cons {l : L} : (R.restrict P).IsWalk v (l :: p) ↔
    (P (R.stop v p) ∧ l ∈ R.out (R.stop v p)) ∧ (R.restrict P).IsWalk v p := by
  rw [IsWalk, mem_restrict_out, restrict_stop]

theorem isWalk_restrict_iff : (R.restrict P).IsWalk v p ↔
    R.IsWalk v p ∧ ∀ u ∈ (R.visited v p).tail, P u := by
  induction p with
  | nil => simp [IsWalk, visited]
  | cons l p ih =>
    have hVisited : R.visited v p = R.stop v p :: (R.visited v p).tail := by cases p <;> rfl
    rw [R.isWalk_restrict_cons, ih, IsWalk, visited, List.tail_cons, hVisited, List.forall_mem_cons,
      List.tail_cons]
    tauto

theorem IsWalk.mono (hPQ : ∀ v, P v → Q v) (h : (R.restrict P).IsWalk v p) :
    (R.restrict Q).IsWalk v p := by
  induction p with
  | nil => trivial
  | cons l p ih =>
    rw [R.isWalk_restrict_cons] at h ⊢
    exact ⟨⟨hPQ _ h.1.1, h.1.2⟩, ih h.2⟩

theorem IsWalk.of_restrict (h : (R.restrict P).IsWalk v p) : R.IsWalk v p := by
  induction p with
  | nil => trivial
  | cons l p ih =>
    rw [R.isWalk_restrict_cons] at h
    exact ⟨h.1.2, ih h.2⟩

theorem exists_first_arrival {g : V} (hPQ : ∀ v, P v → v ≠ g → Q v)
    (hLength : ∀ v, ∀ l ∈ R.out v, 0 ≤ R.length v l) (h : (R.restrict P).IsWalk v p)
    (hStop : R.stop v p = g) : ∃ q, (R.restrict Q).IsWalk v q ∧ R.stop v q = g ∧
      R.distance v q ≤ R.distance v p := by
  have hEither : (∃ q, (R.restrict Q).IsWalk v q ∧ R.stop v q = g ∧
      R.distance v q ≤ R.distance v p) ∨ (R.restrict Q).IsWalk v p := by
    clear hStop
    induction p with
    | nil => exact Or.inr trivial
    | cons l p ih =>
      rw [R.isWalk_restrict_cons] at h
      have hLe : R.distance v p ≤ R.distance v (l :: p) :=
        le_add_of_nonneg_right (hLength _ l h.1.2)
      rcases ih h.2 with ⟨q, hWalk, hArrive, hq⟩ | hWalk
      · exact Or.inl ⟨q, hWalk, hArrive, hq.trans hLe⟩
      · by_cases hArrive : R.stop v p = g
        · exact Or.inl ⟨p, hWalk, hArrive, hLe⟩
        · refine Or.inr (R.isWalk_restrict_cons.mpr ⟨⟨hPQ _ h.1.1 hArrive, h.1.2⟩, hWalk⟩)
  rcases hEither with hFound | hWalk
  · exact hFound
  · exact ⟨p, hWalk, hStop, le_refl _⟩

end restrict

def tree (v : V) (hLength : ∀ v, ∀ l ∈ R.out v, 0 ≤ R.length v l)
    (hNodup : ∀ v, (R.out v).Nodup) : SearchTree (List L) where
  root := []
  children p := (R.out (R.stop v p)).map (· :: p)
  cost := R.distance v
  cost_le p t ht := by
    obtain ⟨l, hl, rfl⟩ := List.mem_map.mp ht
    rw [distance]
    exact le_add_of_nonneg_right (hLength _ l hl)
  children_nodup p := (hNodup _).map fun _ _ h => (List.cons.inj h).1
  parent_unique p q t hp hq := by
    obtain ⟨l, -, rfl⟩ := List.mem_map.mp hp
    obtain ⟨l', -, hEq⟩ := List.mem_map.mp hq
    exact (List.cons.inj hEq).2.symm
  root_notMem p h := by
    obtain ⟨l, -, hEq⟩ := List.mem_map.mp h
    exact List.cons_ne_nil _ _ hEq

variable {hLength : ∀ v, ∀ l ∈ R.out v, 0 ≤ R.length v l} {hNodup : ∀ v, (R.out v).Nodup}

theorem tree_below_iff : (R.tree v hLength hNodup).Below [] p ↔ R.IsWalk v p := by
  constructor
  · intro h
    induction h with
    | refl => trivial
    | tail _ hChild ih =>
      obtain ⟨l, hl, rfl⟩ := List.mem_map.mp hChild
      exact ⟨hl, ih⟩
  · intro h
    induction p with
    | nil => exact Relation.ReflTransGen.refl
    | cons l p ih => exact (ih h.2).tail (List.mem_map_of_mem h.1)

theorem tree_created (P : Int → Prop) : (R.tree v hLength hNodup).created P =
    {p | p = [] ∨ ∃ l q, p = l :: q ∧ R.IsWalk v p ∧ P (R.distance v q)} := by
  ext p
  constructor
  · rintro (rfl | ⟨q, hBelow, hCost, hChild⟩)
    · exact Or.inl rfl
    · obtain ⟨l, hl, rfl⟩ := List.mem_map.mp hChild
      exact Or.inr ⟨l, q, rfl, ⟨hl, R.tree_below_iff.mp hBelow⟩, hCost⟩
  · rintro (rfl | ⟨l, q, rfl, h, hCost⟩)
    · exact Or.inl rfl
    · exact Or.inr ⟨q, R.tree_below_iff.mpr h.2, hCost, List.mem_map_of_mem h.1⟩

theorem tree_created_infinite {c : Int} (hq : q ≠ []) (hp : R.IsWalk v p)
    (hWalk : R.IsWalk (R.stop v p) q) (hLoop : R.stop (R.stop v p) q = R.stop v p)
    (hFree : R.distance (R.stop v p) q = 0) (hCost : R.distance v p ≤ c) :
    ((R.tree v hLength hNodup).created (· ≤ c)).Infinite := by
  refine Set.infinite_of_injective_forall_mem
    (f := fun k : Nat => (List.replicate k q).flatten ++ p) (fun k k' hEq => ?_) fun k => ?_
  · have hLen := congrArg List.length hEq
    simp only [List.length_append, List.length_flatten, List.map_replicate, List.sum_replicate_nat,
      Nat.add_right_cancel_iff] at hLen
    exact Nat.eq_of_mul_eq_mul_right (List.length_pos_of_ne_nil hq) hLen
  · refine SearchTree.mem_created (R.tree_below_iff.mpr ?_) ?_
    · exact R.isWalk_append.mpr ⟨R.isWalk_loops hLoop hWalk k, hp⟩
    · apply (R.distance_append _ _).trans_le
      rw [R.distance_loops hLoop hFree, add_zero]
      exact hCost

end Roads

end TrainKernel.Library.Walks
