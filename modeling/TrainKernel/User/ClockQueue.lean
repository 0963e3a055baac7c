import Mathlib.Data.Fintype.Card
import TrainKernel.User.ClockServer

/-!
# What the delay list does to its order

The circular list is read as the list of its tasks, the first to be looked at in front.
Insertion puts a task before the first one that is due no earlier. When there is none, it
goes to the end, and the task that was last so far comes to the front.
-/

namespace TrainKernel.User

open Function Library.Links

variable {q q' : DelayedQueue} {l l₁ l₂ a : List Tid} {t x c : Tid} {f currTick : Nat}

namespace DelayedQueue

def next (q : DelayedQueue) (i : Tid) : Option Tid := (q.tasks i).next

def finalTick (q : DelayedQueue) (i : Tid) : Nat := (q.tasks i).finalTick

theorem next_setNext (q : DelayedQueue) (i : Tid) (v : Option Tid) :
    (q.setNext i v).next = update q.next i v :=
  comp_update DelayedTask.next q.tasks i _

theorem finalTick_setNext (q : DelayedQueue) (i : Tid) (v : Option Tid) :
    (q.setNext i v).finalTick = q.finalTick :=
  (comp_update DelayedTask.finalTick q.tasks i _).trans (update_eq_self i q.finalTick)

theorem next_setFinalTick (q : DelayedQueue) (i : Tid) (f : Nat) :
    (q.setFinalTick i f).next = q.next :=
  (comp_update DelayedTask.next q.tasks i _).trans (update_eq_self i q.next)

theorem finalTick_setFinalTick (q : DelayedQueue) (i : Tid) (f : Nat) :
    (q.setFinalTick i f).finalTick = update q.finalTick i f :=
  comp_update DelayedTask.finalTick q.tasks i _

def Labelled (q : DelayedQueue) : Prop := ∀ i, (q.tasks i).tid = i

theorem Labelled.setNext (h : q.Labelled) (i : Tid) (v : Option Tid) :
    (q.setNext i v).Labelled := by
  intro j
  have hSame : DelayedTask.tid ∘ (q.setNext i v).tasks = DelayedTask.tid ∘ q.tasks :=
    (comp_update DelayedTask.tid q.tasks i _).trans (update_eq_self i _)
  exact (congrFun hSame j).trans (h j)

theorem Labelled.setFinalTick (h : q.Labelled) (i : Tid) (f : Nat) :
    (q.setFinalTick i f).Labelled := by
  intro j
  have hSame : DelayedTask.tid ∘ (q.setFinalTick i f).tasks = DelayedTask.tid ∘ q.tasks :=
    (comp_update DelayedTask.tid q.tasks i _).trans (update_eq_self i _)
  exact (congrFun hSame j).trans (h j)

/-- The queue holds the tasks of `l`, the head first and the tail last. -/
structure Contains (q : DelayedQueue) (l : List Tid) : Prop where
  labelled : q.Labelled
  tail : q.tail = l.getLast?
  ring : ∀ init t, l = init ++ [t] → Ring q.next t init

theorem Contains.nodup (h : q.Contains l) : l.Nodup := by
  rcases List.eq_nil_or_concat l with rfl | ⟨init, t, rfl⟩
  · exact List.nodup_nil
  · rw [List.concat_eq_append] at h ⊢
    exact List.nodup_append_comm.mp (h.ring init t rfl).nodup

theorem Contains.of_ring (hLabelled : q.Labelled) (hTail : q.tail = some t)
    (hRing : Ring q.next t l) : q.Contains (l ++ [t]) := by
  refine ⟨hLabelled, by simpa using hTail, ?_⟩
  intro init' t' hEq
  obtain ⟨rfl, hLast⟩ := List.append_inj' hEq rfl
  cases hLast
  exact hRing

/-! A task `x` is put behind the task `c`. -/

theorem finalTick_link (q : DelayedQueue) (x c : Tid) (v : Option Tid) :
    ((q.setNext x v).setNext c (some x)).finalTick = q.finalTick := by
  rw [finalTick_setNext, finalTick_setNext]

theorem next_link {v : Option Tid} (hNext : q.next c = v) :
    ((q.setNext x v).setNext c (some x)).next = update (update q.next x (q.next c)) c (some x) := by
  rw [next_setNext, next_setNext, hNext]

theorem Contains.insert {v : Option Tid} (hLabelled : q.Labelled) (hTail : q.tail = some t)
    (hRing : Ring q.next t (l₁ ++ l₂)) (ha : t :: l₁ = a ++ [c]) (hx : x ∉ t :: (l₁ ++ l₂))
    (hNext : q.next c = v) :
    ((q.setNext x v).setNext c (some x)).Contains (l₁ ++ x :: l₂ ++ [t]) := by
  refine .of_ring ((hLabelled.setNext x v).setNext c (some x)) hTail ?_
  rw [next_link hNext]
  exact hRing.insert ha hx

theorem Contains.insert_last {v : Option Tid} (hLabelled : q.Labelled) (hRing : Ring q.next t l)
    (ha : t :: l = a ++ [c]) (hx : x ∉ t :: l) (hNext : q.next c = v) :
    { (q.setNext x v).setNext c (some x) with tail := some x }.Contains (t :: l ++ [x]) := by
  refine .of_ring ((hLabelled.setNext x v).setNext c (some x)) rfl ?_
  change Ring ((q.setNext x v).setNext c (some x)).next x (t :: l)
  rw [next_link hNext]
  exact hRing.insert_last ha hx

end DelayedQueue

inductive Inserted (finalTick : Tid → Nat) (f : Nat) (x : Tid) : List Tid → List Tid → Prop
  | empty : Inserted finalTick f x [] [x]
  | before {l₁ l₂ : List Tid} {y : Tid} (hPast : ∀ z ∈ l₁, finalTick z < f)
      (hDue : f ≤ finalTick y) :
      Inserted finalTick f x (l₁ ++ y :: l₂) (l₁ ++ x :: y :: l₂)
  | last {l : List Tid} {t : Tid} (hPast : ∀ z ∈ l ++ [t], finalTick z < f) :
      Inserted finalTick f x (l ++ [t]) (t :: l ++ [x])

theorem Inserted.mem_iff {l' : List Tid} {finalTick : Tid → Nat}
    (h : Inserted finalTick f x l l') (y : Tid) : y ∈ l' ↔ y = x ∨ y ∈ l := by
  cases h with
  | empty => simp
  | before =>
    simp only [List.mem_append, List.mem_cons]
    tauto
  | last =>
    simp only [List.mem_append, List.mem_cons]
    tauto

theorem insertLoop_spec {fuel : Nat} (hLabelled : q.Labelled) (hTail : q.tail = some t)
    (hRing : Ring q.next t (l₁ ++ l₂)) (ha : t :: l₁ = a ++ [c]) (hx : x ∉ t :: (l₁ ++ l₂))
    (hPast : ∀ z ∈ l₁, q.finalTick z < f) (hFuel : l₂.length < fuel) :
    ∃ q' l', insertLoop x f fuel q c = some q' ∧ q'.finalTick = q.finalTick ∧ q'.Contains l' ∧
      Inserted q.finalTick f x (l₁ ++ l₂ ++ [t]) l' := by
  induction fuel generalizing l₁ l₂ a c with
  | zero => exact absurd hFuel (Nat.not_lt_zero _)
  | succ fuel ih =>
    obtain ⟨y, rest, hSplit⟩ : ∃ y rest, l₂ ++ [t] = y :: rest :=
      List.exists_cons_of_ne_nil (List.append_ne_nil_of_right_ne_nil l₂ (List.cons_ne_nil t []))
    have hNext : (q.tasks c).next = some y :=
      (hRing.next_eq ha).trans (congrArg List.head? hSplit)
    rw [insertLoop, hNext]
    dsimp only
    by_cases hDue : f ≤ (q.tasks y).finalTick
    · refine ⟨_, l₁ ++ x :: y :: rest, if_pos hDue, DelayedQueue.finalTick_link q x c _, ?_, ?_⟩
      · rw [← hSplit, ← List.cons_append, ← List.append_assoc]
        exact .insert hLabelled hTail hRing ha hx hNext
      · rw [List.append_assoc, hSplit]
        exact .before hPast hDue
    have hPast' : ∀ z ∈ l₁ ++ [y], q.finalTick z < f :=
      List.forall_mem_append.mpr ⟨hPast, List.forall_mem_singleton.mpr (Nat.lt_of_not_le hDue)⟩
    rw [if_neg hDue]
    cases l₂ with
    | nil =>
      obtain ⟨rfl, -⟩ := List.cons.inj hSplit
      rw [List.append_nil] at hRing hx ⊢
      rw [if_pos hTail.symm]
      exact ⟨_, t :: l₁ ++ [x], rfl, DelayedQueue.finalTick_link q x c _,
        .insert_last hLabelled hRing ha hx hNext, .last hPast'⟩
    | cons z l₂ =>
      obtain ⟨rfl, -⟩ := List.cons.inj hSplit
      have hNe : ¬some z = q.tail := by
        rw [hTail]
        intro hEq
        have hNodup := hRing.nodup
        simp [Option.some.inj hEq] at hNodup
      rw [if_neg hNe]
      have hMove : l₁ ++ z :: l₂ = (l₁ ++ [z]) ++ l₂ := List.append_cons l₁ z l₂
      have hVisited : t :: (l₁ ++ [z]) = (t :: l₁) ++ [z] := rfl
      rw [hMove] at hRing hx ⊢
      exact ih hRing hVisited hx hPast' (Nat.lt_of_succ_lt_succ hFuel)

theorem length_le_of_nodup (h : l.Nodup) : l.length ≤ maxDelayedTasks := by
  have hCard := h.length_le_card
  rwa [Fintype.card_fin] at hCard

theorem insertDelayedTask_spec (h : q.Contains l) (hx : x ∉ l) :
    ∃ q' l', insertDelayedTask q x f = some q' ∧ q'.finalTick = update q.finalTick x f ∧
      q'.Contains l' ∧ Inserted (update q.finalTick x f) f x l l' := by
  have hLabelled := h.labelled.setFinalTick x f
  have hFinal := DelayedQueue.finalTick_setFinalTick q x f
  rw [insertDelayedTask]
  have hTail : (q.setFinalTick x f).tail = l.getLast? := h.tail
  rcases List.eq_nil_or_concat l with rfl | ⟨init, t, rfl⟩
  · rw [List.getLast?_nil] at hTail
    simp only [hTail]
    refine ⟨_, [x], rfl, ?_, ?_, .empty⟩
    · exact (DelayedQueue.finalTick_setNext (q.setFinalTick x f) x (some x)).trans hFinal
    · refine .of_ring (l := []) (hLabelled.setNext x (some x)) rfl ?_
      change Ring ((q.setFinalTick x f).setNext x (some x)).next x []
      rw [DelayedQueue.next_setNext]
      exact Ring.single _ x
  · rw [List.concat_eq_append] at h hx hTail ⊢
    rw [List.getLast?_append, List.getLast?_singleton, Option.some_or] at hTail
    have hRing : Ring (q.setFinalTick x f).next t ([] ++ init) := by
      rw [DelayedQueue.next_setFinalTick]
      exact h.ring init t rfl
    have hLength : init.length < maxDelayedTasks := by
      have := length_le_of_nodup h.nodup
      simp only [List.length_append, List.length_singleton] at this
      omega
    simp only [hTail]
    obtain ⟨q', l', hEq, hTicks, hContains, hInserted⟩ := insertLoop_spec (x := x) (f := f)
      (a := []) hLabelled hTail hRing rfl (by simpa [or_comm] using hx) nofun hLength
    rw [hFinal] at hTicks hInserted
    exact ⟨q', l', hEq, hTicks, hContains, hInserted⟩

theorem removeLoop_spec {fuel : Nat} (replied : List Tid) (hLabelled : q.Labelled)
    (hTail : q.tail = some t) (hRing : Ring q.next t (l₁ ++ l₂))
    (hCurr : (l₂ ++ [t]).head? = some c) (hFuel : l₂.length < fuel) :
    ∃ q' gone l', removeLoop currTick t fuel q c replied = some (q', replied ++ gone) ∧
      l₂ ++ [t] = gone ++ l' ∧ q'.finalTick = q.finalTick ∧ q'.Contains l' ∧
      (∀ y ∈ gone, q.finalTick y ≤ currTick) ∧
      ∀ y, l'.head? = some y → currTick < q.finalTick y := by
  induction fuel generalizing l₁ l₂ c replied with
  | zero => exact absurd hFuel (Nat.not_lt_zero _)
  | succ fuel ih =>
    rw [removeLoop]
    by_cases hDue : currTick < (q.tasks c).finalTick
    · rw [if_pos hDue]
      refine ⟨_, [], l₂ ++ [t], by rw [List.append_nil], rfl,
        DelayedQueue.finalTick_setNext q t _, ?_, nofun, ?_⟩
      · refine .of_ring (hLabelled.setNext t _) hTail ?_
        rw [DelayedQueue.next_setNext, ← hCurr]
        exact hRing.drop
      · intro y hy
        obtain rfl := Option.some.inj (hCurr.symm.trans hy)
        exact hDue
    · have hPast : q.finalTick c ≤ currTick := Nat.le_of_not_lt hDue
      rw [if_neg hDue, hLabelled c]
      cases l₂ with
      | nil =>
        obtain rfl : t = c := Option.some.inj hCurr
        rw [if_pos rfl]
        refine ⟨_, [t], [], rfl, rfl, rfl, ⟨hLabelled, rfl, ?_⟩, ?_, nofun⟩
        · intro init t' hEq
          simp at hEq
        · intro y hy
          rw [List.mem_singleton.mp hy]
          exact hPast
      | cons y l₂ =>
        obtain rfl : y = c := Option.some.inj hCurr
        have hMove : l₁ ++ y :: l₂ = (l₁ ++ [y]) ++ l₂ := by simp
        have hNe : y ≠ t := by
          rintro rfl
          have hNodup := hRing.nodup
          simp at hNodup
        rw [hMove] at hRing
        have hNext : (q.tasks y).next = (l₂ ++ [t]).head? :=
          hRing.next_eq (show t :: (l₁ ++ [y]) = (t :: l₁) ++ [y] from rfl)
        obtain ⟨z, hz⟩ : ∃ z, (l₂ ++ [t]).head? = some z := by
          cases l₂ <;> exact ⟨_, rfl⟩
        rw [if_neg hNe, hNext, hz]
        obtain ⟨q', gone, l', hEq, hSplit, hTicks, hContains, hGone, hHead⟩ :=
          ih (replied ++ [y]) hRing hz (Nat.lt_of_succ_lt_succ hFuel)
        refine ⟨q', y :: gone, l', ?_, by rw [List.cons_append, hSplit]; rfl, hTicks, hContains,
          ?_, hHead⟩
        · exact hEq.trans (by rw [List.append_assoc]; rfl)
        · intro z hz
          rcases List.mem_cons.mp hz with rfl | hz
          · exact hPast
          · exact hGone z hz

variable (currTick) in
theorem removeExpiredTasks_spec (h : q.Contains l) :
    ∃ q' gone l', removeExpiredTasks q currTick = some (q', gone) ∧ l = gone ++ l' ∧
      q'.finalTick = q.finalTick ∧ q'.Contains l' ∧ (∀ y ∈ gone, q.finalTick y ≤ currTick) ∧
      ∀ y, l'.head? = some y → currTick < q.finalTick y := by
  have hTail := h.tail
  rw [removeExpiredTasks]
  rcases List.eq_nil_or_concat l with rfl | ⟨init, t, rfl⟩
  · rw [List.getLast?_nil] at hTail
    simp only [hTail]
    exact ⟨q, [], [], rfl, rfl, rfl, h, nofun, nofun⟩
  · rw [List.concat_eq_append] at h hTail ⊢
    rw [List.getLast?_append, List.getLast?_singleton, Option.some_or] at hTail
    have hRing := h.ring init t rfl
    have hNext : (q.tasks t).next = (init ++ [t]).head? := hRing.next_last
    obtain ⟨c, hc⟩ : ∃ c, (init ++ [t]).head? = some c := by
      cases init <;> exact ⟨_, rfl⟩
    have hLength : init.length < maxDelayedTasks := by
      have := length_le_of_nodup h.nodup
      simp only [List.length_append, List.length_singleton] at this
      omega
    simp only [hTail, hNext, hc]
    obtain ⟨q', gone, l', hEq, hSplit, hRest⟩ :=
      removeLoop_spec [] h.labelled hTail (show Ring q.next t ([] ++ init) from hRing) hc hLength
    exact ⟨q', gone, l', hEq, hSplit, hRest⟩

end TrainKernel.User
