import Mathlib.Data.List.Nodup
import Mathlib.Logic.Function.Basic

/-!
# Lists threaded through one link field

A store gives each cell a single `next` field. A segment is a stretch of cells
that the links visit in order; a queue is a head and a tail pointer over such a
stretch. Several queues may share the one link field as long as they keep apart,
and every operation below says which lists the queues hold afterwards.
-/

namespace TrainKernel.Library.Links

open Function

variable {α ι : Type*}

/-- Entered at `p`, the links visit exactly the cells of `l` and leave at `q`. -/
def Segment (next : α → Option α) : Option α → List α → Option α → Prop
  | p, [], q => p = q
  | p, x :: l, q => p = some x ∧ Segment next (next x) l q

@[simp] theorem segment_nil {next : α → Option α} {p q : Option α} :
    Segment next p [] q ↔ p = q := Iff.rfl

@[simp] theorem segment_cons {next : α → Option α} {p q : Option α} {x : α} {l : List α} :
    Segment next p (x :: l) q ↔ p = some x ∧ Segment next (next x) l q := Iff.rfl

theorem segment_append {next : α → Option α} {p q : Option α} {l₁ l₂ : List α} :
    Segment next p (l₁ ++ l₂) q ↔ ∃ m, Segment next p l₁ m ∧ Segment next m l₂ q := by
  induction l₁ generalizing p with
  | nil => simp
  | cons x l₁ ih =>
    simp only [List.cons_append, segment_cons, ih]
    constructor
    · rintro ⟨hp, m, h₁, h₂⟩
      exact ⟨m, ⟨hp, h₁⟩, h₂⟩
    · rintro ⟨m, ⟨hp, h₁⟩, h₂⟩
      exact ⟨hp, m, h₁, h₂⟩

theorem segment_congr {next next' : α → Option α} {p q : Option α} {l : List α}
    (h : ∀ x ∈ l, next x = next' x) : Segment next p l q ↔ Segment next' p l q := by
  induction l generalizing p with
  | nil => rfl
  | cons x l ih =>
    rw [segment_cons, segment_cons, h x List.mem_cons_self,
      ih fun y hy => h y (List.mem_cons_of_mem _ hy)]

variable [DecidableEq α]

theorem segment_update {next : α → Option α} {p q v : Option α} {l : List α} {x : α}
    (hx : x ∉ l) : Segment (update next x v) p l q ↔ Segment next p l q := by
  apply segment_congr
  intro y hy
  exact (update_of_ne (by rintro rfl; exact hx hy) _ _)

theorem segment_insert {next : α → Option α} {p q : Option α} {a b : List α} {c x : α}
    (h : Segment next p (a ++ c :: b) q) (hNodup : (a ++ c :: b).Nodup) (hx : x ∉ a ++ c :: b) :
    Segment (update (update next x (next c)) c (some x)) p (a ++ c :: x :: b) q := by
  simp only [List.mem_append, List.mem_cons, not_or] at hx
  obtain ⟨hxa, hxc, hxb⟩ := hx
  have hc := (List.nodup_middle.mp hNodup)
  rw [List.nodup_cons, List.mem_append, not_or] at hc
  obtain ⟨⟨hca, hcb⟩, -⟩ := hc
  obtain ⟨m, hInit, rfl, hRest⟩ := segment_append.mp h
  refine segment_append.mpr ⟨some c, ?_, rfl, ?_, ?_⟩
  · rw [segment_update hca, segment_update hxa]
    exact hInit
  · rw [update_self]
  · rw [update_of_ne hxc, update_self, segment_update hcb, segment_update hxb]
    exact hRest

omit [DecidableEq α] in
/-- A store has at most one ending list behind a pointer. -/
theorem segment_unique {next : α → Option α} {p : Option α} {l l' : List α}
    (h : Segment next p l none) (h' : Segment next p l' none) : l = l' := by
  induction l generalizing p l' with
  | nil =>
    cases l' with
    | nil => rfl
    | cons x l' => simp_all
  | cons x l ih =>
    cases l' with
    | nil => simp_all
    | cons y l' =>
      obtain ⟨hp, h⟩ := h
      obtain ⟨hp', h'⟩ := h'
      obtain rfl : x = y := Option.some.inj (hp.symm.trans hp')
      rw [ih h h']

omit [DecidableEq α] in
theorem Segment.nodup {next : α → Option α} {p : Option α} {l : List α}
    (h : Segment next p l none) : l.Nodup := by
  induction l generalizing p with
  | nil => exact List.nodup_nil
  | cons x l ih =>
    refine List.nodup_cons.mpr ⟨?_, ih h.2⟩
    intro hx
    obtain ⟨l₁, l₂, rfl⟩ := List.append_of_mem hx
    obtain ⟨m, _, hm⟩ := segment_append.mp h.2
    have hLoop : l₂ = l₁ ++ x :: l₂ := segment_unique hm.2 h.2
    have hLength := congrArg List.length hLoop
    simp only [List.length_append, List.length_cons] at hLength
    omega

structure Queue (α : Type*) where
  head : Option α
  tail : Option α

/-- The queue holds the cells of `l`, the oldest one first. -/
structure Represents (next : α → Option α) (q : Queue α) (l : List α) : Prop where
  chain : Segment next q.head l none
  tail : q.tail = l.getLast?

omit [DecidableEq α] in
theorem Represents.head {next : α → Option α} {q : Queue α} {l : List α}
    (h : Represents next q l) : q.head = l.head? := by
  cases l with
  | nil => exact h.chain
  | cons x l => exact h.chain.1

omit [DecidableEq α] in
theorem Represents.unique {next : α → Option α} {q : Queue α} {l l' : List α}
    (h : Represents next q l) (h' : Represents next q l') : l = l' :=
  segment_unique h.chain h'.chain

def enqueue (next : α → Option α) (q : Queue α) (x : α) : (α → Option α) × Queue α :=
  match q.tail with
  | none => (update next x none, ⟨some x, some x⟩)
  | some last => (update (update next x none) last (some x), ⟨q.head, some x⟩)

theorem Represents.enqueue {next : α → Option α} {q : Queue α} {l : List α} {x : α}
    (h : Represents next q l) (hx : x ∉ l) :
    Represents (enqueue next q x).1 (enqueue next q x).2 (l ++ [x]) := by
  have hTail := h.tail
  rcases List.eq_nil_or_concat l with rfl | ⟨l, last, rfl⟩
  · rw [List.getLast?_nil] at hTail
    rw [Links.enqueue, hTail]
    exact ⟨⟨rfl, by simp⟩, rfl⟩
  · rw [List.concat_eq_append, List.getLast?_append, List.getLast?_singleton,
      Option.some_or] at hTail
    rw [List.concat_eq_append] at h hx ⊢
    have hNodup := h.chain.nodup
    have hLast : last ∉ l := fun hl =>
      (List.nodup_append.mp hNodup).2.2 last hl last (List.mem_singleton_self _) rfl
    have hNe : x ≠ last := fun he => hx (by simp [he])
    have hxl : x ∉ l := fun hl => hx (List.mem_append_left _ hl)
    obtain ⟨m, hInit, rfl, -⟩ := segment_append.mp h.chain
    rw [Links.enqueue, hTail]
    refine ⟨?_, by simp⟩
    rw [List.append_assoc]
    refine segment_append.mpr ⟨some last, ?_, rfl, ?_⟩
    · exact (segment_update hLast).mpr ((segment_update hxl).mpr hInit)
    · simp [hNe]

theorem Represents.update {next : α → Option α} {q : Queue α} {l : List α} {x : α}
    {v : Option α} (h : Represents next q l) (hx : x ∉ l) :
    Represents (update next x v) q l :=
  ⟨(segment_update hx).mpr h.chain, h.tail⟩

theorem Represents.pushFront {next : α → Option α} {q : Queue α} {l : List α} {x : α}
    (h : Represents next q l) (hx : x ∉ l) :
    Represents (Function.update next x q.head) ⟨some x, if l = [] then some x else q.tail⟩
      (x :: l) := by
  refine ⟨⟨rfl, ?_⟩, ?_⟩
  · rw [update_self, segment_update hx]
    exact h.chain
  · cases l with
    | nil => rfl
    | cons y l => simpa using h.tail

theorem Represents.dequeue {next : α → Option α} {q : Queue α} {l : List α} {x : α}
    (h : Represents next q (x :: l)) :
    Represents (Function.update next x none) ⟨next x, if l = [] then none else q.tail⟩ l := by
  have hx : x ∉ l := (List.nodup_cons.mp h.chain.nodup).1
  refine ⟨(segment_update hx).mpr h.chain.2, ?_⟩
  cases l with
  | nil => rfl
  | cons y l => simpa using h.tail

omit [DecidableEq α] in
theorem Represents.tail_eq_head_iff {next : α → Option α} {q : Queue α} {l : List α} {x : α}
    (h : Represents next q (x :: l)) : q.tail = some x ↔ l = [] := by
  have hx : x ∉ l := (List.nodup_cons.mp h.chain.nodup).1
  rw [h.tail]
  cases l with
  | nil => simp
  | cons y l =>
    simp only [List.getLast?_cons_cons, reduceCtorEq, iff_false]
    intro hLast
    exact hx (List.mem_of_getLast? hLast)

/-- Every queue holds its own list, and no cell stands in two of them. -/
structure Family (next : α → Option α) (queue : ι → Queue α) (lists : ι → List α) : Prop where
  represents : ∀ i, Represents next (queue i) (lists i)
  apart : ∀ i j x, x ∈ lists i → x ∈ lists j → i = j

variable {next : α → Option α} {queue : ι → Queue α} {lists : ι → List α}

theorem Family.update_free {x : α} {v : Option α} (h : Family next queue lists)
    (hx : ∀ i, x ∉ lists i) : Family (update next x v) queue lists :=
  ⟨fun i => (h.represents i).update (hx i), h.apart⟩

omit [DecidableEq α] in
theorem Family.nodup (h : Family next queue lists) (i : ι) : (lists i).Nodup :=
  (h.represents i).chain.nodup

variable [DecidableEq ι]

omit [DecidableEq α] in
theorem apart_insert {i : ι} {x : α} {l : List α}
    (h : ∀ i j x, x ∈ lists i → x ∈ lists j → i = j) (hx : ∀ j, x ∉ lists j)
    (hl : ∀ y, y ∈ l ↔ y = x ∨ y ∈ lists i) :
    ∀ a b y, y ∈ update lists i l a → y ∈ update lists i l b → a = b := by
  have key : ∀ a y, y ∈ update lists i l a → (y = x ∧ a = i) ∨ y ∈ lists a := by
    intro a y hy
    by_cases ha : a = i
    · subst ha
      rw [update_self, hl] at hy
      exact hy.imp_left fun he => ⟨he, rfl⟩
    · rw [update_of_ne ha] at hy
      exact Or.inr hy
  intro a b y hya hyb
  rcases key a y hya with ⟨rfl, rfl⟩ | ha
  · rcases key b _ hyb with ⟨-, rfl⟩ | hb
    · rfl
    · exact absurd hb (hx b)
  · rcases key b y hyb with ⟨rfl, -⟩ | hb
    · exact absurd ha (hx a)
    · exact h a b y ha hb

theorem Family.enqueue {i : ι} {x : α} (h : Family next queue lists) (hx : ∀ j, x ∉ lists j) :
    Family (enqueue next (queue i) x).1 (update queue i (enqueue next (queue i) x).2)
      (update lists i (lists i ++ [x])) := by
  refine ⟨?_, apart_insert h.apart hx (by simp [or_comm])⟩
  intro j
  by_cases hj : j = i
  · subst hj
    simpa using (h.represents j).enqueue (hx j)
  · rw [update_of_ne hj, update_of_ne hj]
    rw [Links.enqueue]
    cases hTail : (queue i).tail with
    | none => exact (h.represents j).update (hx j)
    | some last =>
      have hLast : last ∈ lists i :=
        List.mem_of_getLast? ((h.represents i).tail.symm.trans hTail)
      exact ((h.represents j).update (hx j)).update fun hl => hj (h.apart j i last hl hLast)

theorem Family.pushFront {i : ι} {x : α} (h : Family next queue lists) (hx : ∀ j, x ∉ lists j) :
    Family (update next x (queue i).head)
      (update queue i ⟨some x, if lists i = [] then some x else (queue i).tail⟩)
      (update lists i (x :: lists i)) := by
  refine ⟨?_, apart_insert h.apart hx (by simp)⟩
  intro j
  by_cases hj : j = i
  · subst hj
    simpa using (h.represents j).pushFront (hx j)
  · rw [update_of_ne hj, update_of_ne hj]
    exact (h.represents j).update (hx j)

theorem Family.dequeue {i : ι} {x : α} {l : List α} (h : Family next queue lists)
    (hi : lists i = x :: l) :
    Family (update next x none)
      (update queue i ⟨next x, if l = [] then none else (queue i).tail⟩)
      (update lists i l) := by
  have hx : x ∈ lists i := by simp [hi]
  have hSub : ∀ a y, y ∈ update lists i l a → y ∈ lists a := by
    intro a y hy
    by_cases ha : a = i
    · subst ha
      rw [update_self] at hy
      simp [hi, hy]
    · rwa [update_of_ne ha] at hy
  refine ⟨?_, fun a b y ha hb => h.apart a b y (hSub a y ha) (hSub b y hb)⟩
  intro j
  by_cases hj : j = i
  · subst hj
    have hRep := h.represents j
    rw [hi] at hRep
    simpa using hRep.dequeue
  · rw [update_of_ne hj, update_of_ne hj]
    exact (h.represents j).update fun hl => hj (h.apart j i x hl hx)

end TrainKernel.Library.Links
