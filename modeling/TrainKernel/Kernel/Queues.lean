import TrainKernel.Kernel.Main

/-!
# The queues behind the link field

The ready queues and the send queues are one family of queues over the single `next`
field of the descriptors. A descriptor without its link is the card of the task: the
scheduler moves links and leaves every card alone.
-/

namespace TrainKernel.Kernel

open Function Library.Links

inductive QueueId where
  | ready (p : Priority)
  | mail (r : TaskPtr)
deriving DecidableEq

namespace State

def next (k : State) (t : TaskPtr) : Option TaskPtr := (k.tasks t).next

/-- The descriptor of `t` without its link. -/
def card (k : State) (t : TaskPtr) : TaskDescriptor := { k.tasks t with next := none }

def queue (k : State) : QueueId → TaskQueue
  | .ready p => k.readyQueues p
  | .mail r => k.sendQueues r

end State

/-- An edit of a descriptor that neither reads nor writes the link. -/
def LinkFree (f : TaskDescriptor → TaskDescriptor) : Prop :=
  ∀ d v, f { d with next := v } = { f d with next := v }

theorem LinkFree.next_eq {f : TaskDescriptor → TaskDescriptor} (h : LinkFree f)
    (d : TaskDescriptor) : (f d).next = d.next :=
  (congrArg TaskDescriptor.next (h d d.next) :)

section Views

variable (k : State) (t : TaskPtr)

theorem next_setNext (v : Option TaskPtr) : (k.setNext t v).next = update k.next t v := by
  funext x
  by_cases hx : x = t
  · subst hx
    simp [State.setNext, State.modify, State.next]
  · simp [State.setNext, State.modify, State.next, hx]

theorem card_setNext (v : Option TaskPtr) : (k.setNext t v).card = k.card := by
  funext x
  by_cases hx : x = t
  · subst hx
    simp [State.setNext, State.modify, State.card]
  · simp [State.setNext, State.modify, State.card, hx]

theorem next_modify {f : TaskDescriptor → TaskDescriptor} (hf : LinkFree f) :
    (k.modify t f).next = k.next := by
  funext x
  by_cases hx : x = t
  · subst hx
    simp [State.modify, State.next, hf.next_eq]
  · simp [State.modify, State.next, hx]

theorem card_modify {f : TaskDescriptor → TaskDescriptor} (hf : LinkFree f) :
    (k.modify t f).card = update k.card t (f (k.card t)) := by
  funext x
  by_cases hx : x = t
  · subst hx
    simpa [State.modify, State.card] using (hf (k.tasks x) none).symm
  · simp [State.modify, State.card, hx]

@[simp] theorem queue_modify (f : TaskDescriptor → TaskDescriptor) :
    (k.modify t f).queue = k.queue := rfl

@[simp] theorem queue_setNext (v : Option TaskPtr) : (k.setNext t v).queue = k.queue := rfl

theorem queue_readyQueues (p : Priority) (q : TaskQueue) :
    State.queue { k with readyQueues := update k.readyQueues p q } =
      update k.queue (.ready p) q := by
  funext i
  cases i with
  | ready p' => by_cases hp : p' = p <;> simp [State.queue, hp]
  | mail r => rfl

theorem queue_sendQueues (r : TaskPtr) (q : TaskQueue) :
    State.queue { k with sendQueues := update k.sendQueues r q } = update k.queue (.mail r) q := by
  funext i
  cases i with
  | ready p => rfl
  | mail r' => by_cases hr : r' = r <;> simp [State.queue, hr]

end Views

section Operations

variable (k : State) (t : TaskPtr)

theorem queueTask_next : (queueTask k t).next =
    (enqueue k.next (k.queue (.ready (taskGetPriority (k.tasks t)))) t).1 := by
  rw [queueTask, enqueue]
  cases hTail : (k.readyQueues (taskGetPriority (k.tasks t))).tail with
  | none =>
    simp only [State.queue, hTail]
    exact next_setNext k t none
  | some last =>
    simp only [State.queue, hTail]
    exact (next_setNext (k.setNext t none) last (some t)).trans (by rw [next_setNext])

theorem queueTask_queue : (queueTask k t).queue =
    update k.queue (.ready (taskGetPriority (k.tasks t)))
      (enqueue k.next (k.queue (.ready (taskGetPriority (k.tasks t)))) t).2 := by
  rw [queueTask, enqueue]
  cases hTail : (k.readyQueues (taskGetPriority (k.tasks t))).tail with
  | none =>
    simp only [State.queue, hTail]
    exact queue_readyQueues k _ _
  | some last =>
    simp only [State.queue, hTail]
    exact queue_readyQueues k _ _

theorem queueTask_card : (queueTask k t).card = k.card := by
  rw [queueTask]
  cases (k.readyQueues (taskGetPriority (k.tasks t))).tail with
  | none => exact card_setNext k t none
  | some last => exact (card_setNext (k.setNext t none) last (some t)).trans (card_setNext k t none)

@[simp] theorem queueTask_eventTable : (queueTask k t).eventTable = k.eventTable := by
  rw [queueTask]; split <;> rfl

@[simp] theorem queueTask_mem : (queueTask k t).mem = k.mem := by
  rw [queueTask]; split <;> rfl

@[simp] theorem queueTask_sendQueues : (queueTask k t).sendQueues = k.sendQueues := by
  rw [queueTask]; split <;> rfl

@[simp] theorem queueTask_nextUniqueTaskId :
    (queueTask k t).nextUniqueTaskId = k.nextUniqueTaskId := by
  rw [queueTask]; split <;> rfl

theorem addToFront_next : (addToFront k t).next =
    update k.next t (k.queue (.ready (taskGetPriority (k.tasks t)))).head := by
  rw [addToFront]
  cases hHead : (k.readyQueues (taskGetPriority (k.tasks t))).head with
  | none =>
    simp only [State.queue, hHead]
    exact next_setNext k t none
  | some head =>
    simp only [State.queue, hHead]
    exact next_setNext k t (some head)

theorem addToFront_queue : (addToFront k t).queue =
    update k.queue (.ready (taskGetPriority (k.tasks t)))
      ⟨some t, if (k.queue (.ready (taskGetPriority (k.tasks t)))).head = none then some t
        else (k.queue (.ready (taskGetPriority (k.tasks t)))).tail⟩ := by
  rw [addToFront]
  cases hHead : (k.readyQueues (taskGetPriority (k.tasks t))).head with
  | none =>
    simp only [State.queue, hHead, if_true]
    exact queue_readyQueues k _ _
  | some head =>
    simp only [State.queue, hHead, reduceCtorEq, if_false]
    exact queue_readyQueues k _ _

theorem addToFront_card : (addToFront k t).card = k.card := by
  rw [addToFront]
  cases (k.readyQueues (taskGetPriority (k.tasks t))).head with
  | none => exact card_setNext k t none
  | some head => exact card_setNext k t (some head)

@[simp] theorem addToFront_eventTable : (addToFront k t).eventTable = k.eventTable := by
  rw [addToFront]; split <;> rfl

@[simp] theorem addToFront_nextUniqueTaskId :
    (addToFront k t).nextUniqueTaskId = k.nextUniqueTaskId := by
  rw [addToFront]; split <;> rfl

theorem enqueueSender_next {r : TaskPtr} (ht : k.next t = none) :
    (enqueueSender k t r).next = (enqueue k.next (k.queue (.mail r)) t).1 := by
  have hSelf : update k.next t none = k.next := by rw [← ht, update_eq_self]
  rw [enqueueSender, enqueue]
  cases hTail : (k.sendQueues r).tail with
  | none =>
    simp only [State.queue, hTail]
    exact next_setNext k t none
  | some last =>
    simp only [State.queue, hTail, hSelf]
    exact next_setNext k last (some t)

theorem enqueueSender_queue (r : TaskPtr) : (enqueueSender k t r).queue =
    update k.queue (.mail r) (enqueue k.next (k.queue (.mail r)) t).2 := by
  rw [enqueueSender, enqueue]
  cases hTail : (k.sendQueues r).tail with
  | none =>
    simp only [State.queue, hTail]
    exact queue_sendQueues k _ _
  | some last =>
    simp only [State.queue, hTail]
    exact queue_sendQueues k _ _

theorem enqueueSender_card (r : TaskPtr) : (enqueueSender k t r).card = k.card := by
  rw [enqueueSender]
  cases (k.sendQueues r).tail with
  | none => exact card_setNext k t none
  | some last => exact card_setNext k last (some t)

theorem enqueueSender_frame (r : TaskPtr) : enqueueSender k t r = { k with
    tasks := (enqueueSender k t r).tasks, sendQueues := (enqueueSender k t r).sendQueues } := by
  rw [enqueueSender]; split <;> rfl

theorem dequeueSender_next (r : TaskPtr) :
    (dequeueSender k t r).next = update k.next t none := next_setNext _ t none

theorem dequeueSender_card (r : TaskPtr) : (dequeueSender k t r).card = k.card :=
  card_setNext _ t none

theorem dequeueSender_queue (r : TaskPtr) : (dequeueSender k t r).queue =
    update k.queue (.mail r)
      (if (k.sendQueues r).tail = some t then ⟨none, none⟩
        else ⟨k.next t, (k.sendQueues r).tail⟩) := queue_sendQueues k _ _

end Operations

/-! ## The lists that the queues hold -/

structure Linked (k : State) (lists : QueueId → List TaskPtr) : Prop where
  family : Family k.next k.queue lists
  bits : ∀ p : Priority, k.queueStatus.getLsbD p = true ↔ lists (.ready p) ≠ []

variable {k k' : State} {lists : QueueId → List TaskPtr} {t : TaskPtr}

theorem Linked.congr (h : Linked k lists) (hNext : k'.next = k.next) (hQueue : k'.queue = k.queue)
    (hStatus : k'.queueStatus = k.queueStatus) : Linked k' lists := by
  constructor
  · rw [hNext, hQueue]
    exact h.family
  · rw [hStatus]
    exact h.bits

theorem Linked.modify {f : TaskDescriptor → TaskDescriptor} (h : Linked k lists)
    (hf : LinkFree f) : Linked (k.modify t f) lists :=
  h.congr (next_modify k t hf) rfl rfl

theorem Linked.setNext {v : Option TaskPtr} (h : Linked k lists) (ht : ∀ i, t ∉ lists i) :
    Linked (k.setNext t v) lists := by
  refine ⟨?_, h.bits⟩
  rw [next_setNext]
  exact h.family.update_free ht

theorem getLsbD_set (s : Word) (p j : Priority) :
    (s ||| (1 : Word) <<< p.val).getLsbD j = (s.getLsbD j || decide (j = p)) := by
  change (s ||| BitVec.twoPow 32 p).getLsbD j = _
  rw [BitVec.getLsbD_or, BitVec.getLsbD_twoPow, decide_eq_true p.isLt, Bool.true_and]
  simp only [Fin.ext_iff, eq_comm]

theorem getLsbD_clear (s : Word) (p j : Priority) :
    (s &&& ~~~((1 : Word) <<< p.val)).getLsbD j = (s.getLsbD j && decide (j ≠ p)) := by
  change (s &&& ~~~(BitVec.twoPow 32 p)).getLsbD j = _
  rw [BitVec.getLsbD_and, BitVec.getLsbD_not, BitVec.getLsbD_twoPow, decide_eq_true p.isLt,
    decide_eq_true j.isLt, Bool.true_and, Bool.true_and, ← decide_not]
  simp only [Fin.ext_iff, ne_eq, eq_comm]

theorem queueTask_queueStatus (k : State) (t : TaskPtr) (j : Priority) :
    (queueTask k t).queueStatus.getLsbD j = (k.queueStatus.getLsbD j ||
      decide ((k.readyQueues (taskGetPriority (k.tasks t))).tail = none ∧
        j = taskGetPriority (k.tasks t))) := by
  rw [queueTask]
  cases hTail : (k.readyQueues (taskGetPriority (k.tasks t))).tail with
  | none =>
    simp only [true_and]
    exact getLsbD_set _ _ _
  | some last =>
    simp only [reduceCtorEq, false_and, decide_false, Bool.or_false]
    rfl

theorem Linked.tail_eq_none_iff (h : Linked k lists) (i : QueueId) :
    (k.queue i).tail = none ↔ lists i = [] := by
  rw [(h.family.represents i).tail, List.getLast?_eq_none_iff]

theorem Linked.head_eq_none_iff (h : Linked k lists) (i : QueueId) :
    (k.queue i).head = none ↔ lists i = [] := by
  rw [(h.family.represents i).head, List.head?_eq_none_iff]

theorem Linked.queueTask (h : Linked k lists) (ht : ∀ i, t ∉ lists i) :
    Linked (queueTask k t) (update lists (.ready (taskGetPriority (k.tasks t)))
      (lists (.ready (taskGetPriority (k.tasks t))) ++ [t])) := by
  constructor
  · rw [queueTask_next, queueTask_queue]
    exact h.family.enqueue ht
  · intro j
    have hTail := h.tail_eq_none_iff (.ready (taskGetPriority (k.tasks t)))
    rw [queueTask_queueStatus]
    by_cases hj : j = taskGetPriority (k.tasks t)
    · subst hj
      simp only [Bool.or_eq_true, decide_eq_true_eq, and_true, update_self, ne_eq,
        List.append_eq_nil_iff, List.cons_ne_self, and_false, not_false_eq_true, iff_true, h.bits]
      by_cases hNil : lists (.ready (taskGetPriority (k.tasks t))) = []
      · exact Or.inr (hTail.mpr hNil)
      · exact Or.inl hNil
    · rw [update_of_ne (by simpa using hj), ← h.bits]
      simp only [hj, and_false, decide_false, Bool.or_false]

theorem addToFront_queueStatus (k : State) (t : TaskPtr) (j : Priority) :
    (addToFront k t).queueStatus.getLsbD j = (k.queueStatus.getLsbD j ||
      decide ((k.readyQueues (taskGetPriority (k.tasks t))).head = none ∧
        j = taskGetPriority (k.tasks t))) := by
  rw [addToFront]
  cases hHead : (k.readyQueues (taskGetPriority (k.tasks t))).head with
  | none =>
    simp only [true_and]
    exact getLsbD_set _ _ _
  | some head =>
    simp only [reduceCtorEq, false_and, decide_false, Bool.or_false]
    rfl

theorem Linked.addToFront (h : Linked k lists) (ht : ∀ i, t ∉ lists i) :
    Linked (addToFront k t) (update lists (.ready (taskGetPriority (k.tasks t)))
      (t :: lists (.ready (taskGetPriority (k.tasks t))))) := by
  have hNil := h.head_eq_none_iff (.ready (taskGetPriority (k.tasks t)))
  constructor
  · rw [addToFront_next, addToFront_queue, if_congr hNil rfl rfl]
    exact h.family.pushFront ht
  · intro j
    rw [addToFront_queueStatus]
    by_cases hj : j = taskGetPriority (k.tasks t)
    · subst hj
      simp only [Bool.or_eq_true, decide_eq_true_eq, and_true, update_self, ne_eq, reduceCtorEq,
        not_false_eq_true, iff_true, h.bits]
      by_cases hl : lists (.ready (taskGetPriority (k.tasks t))) = []
      · exact Or.inr (hNil.mpr hl)
      · exact Or.inl hl
    · rw [update_of_ne (by simpa using hj), ← h.bits]
      simp only [hj, and_false, decide_false, Bool.or_false]

theorem Linked.enqueueSender {r : TaskPtr} (h : Linked k lists) (ht : ∀ i, t ∉ lists i)
    (hNext : k.next t = none) :
    Linked (enqueueSender k t r) (update lists (.mail r) (lists (.mail r) ++ [t])) := by
  constructor
  · rw [enqueueSender_next k t hNext, enqueueSender_queue]
    exact h.family.enqueue ht
  · intro p
    rw [enqueueSender_frame, update_of_ne (by simp)]
    exact h.bits p

theorem Linked.dequeueSender {r : TaskPtr} {l : List TaskPtr} (h : Linked k lists)
    (hr : lists (.mail r) = t :: l) :
    Linked (dequeueSender k t r) (update lists (.mail r) l) := by
  constructor
  · have hFamily := h.family.dequeue hr
    have hRep := h.family.represents (.mail r)
    rw [hr] at hRep
    have hQueue : (if (k.sendQueues r).tail = some t then (⟨none, none⟩ : TaskQueue)
        else ⟨k.next t, (k.sendQueues r).tail⟩) =
        ⟨k.next t, if l = [] then none else (k.queue (.mail r)).tail⟩ := by
      have hIff : (k.sendQueues r).tail = some t ↔ l = [] := hRep.tail_eq_head_iff
      by_cases hl : l = []
      · have hLink : k.next t = none := by simpa [hl] using hRep.chain.2
        rw [if_pos (hIff.mpr hl), if_pos hl, hLink]
      · rw [if_neg (fun hTail => hl (hIff.mp hTail)), if_neg hl]
        rfl
    rw [dequeueSender_next, dequeueSender_queue, hQueue]
    exact hFamily
  · intro p
    rw [update_of_ne (by simp)]
    exact h.bits p

theorem schedule_tasks_ne {x : TaskPtr} (hs : schedule k = some (t, k')) (hx : x ≠ t) :
    k'.tasks x = k.tasks x := by
  rw [schedule] at hs
  split at hs
  · cases hs
  cases hHead : (k.readyQueues (scheduleIndex k.queueStatus)).head with
  | none => simp [hHead] at hs
  | some active =>
    simp only [hHead, Option.some.injEq, Prod.mk.injEq] at hs
    obtain ⟨rfl, rfl⟩ := hs
    apply (update_of_ne hx _ _).trans
    split <;> rfl

/-- The bit of a ready queue is cleared with its last task. -/
theorem Linked.bits_clear (h : Linked k lists) (p j : Priority) :
    (k.queueStatus &&& ~~~((1 : Word) <<< p.val)).getLsbD j = true ↔
      update lists (.ready p) [] (.ready j) ≠ [] := by
  rw [getLsbD_clear]
  rcases eq_or_ne j p with rfl | hj
  · simp
  · rw [update_of_ne (by simpa using hj), ← h.bits]
    simp [hj]

theorem Linked.bits_keep (h : Linked k lists) {p : Priority} {l : List TaskPtr}
    (hSet : k.queueStatus.getLsbD p = true) (hMore : l ≠ []) (j : Priority) :
    k.queueStatus.getLsbD j = true ↔ update lists (.ready p) l (.ready j) ≠ [] := by
  rcases eq_or_ne j p with rfl | hj
  · rw [update_self]
    exact iff_of_true hSet hMore
  · rw [update_of_ne (by simpa using hj)]
    exact h.bits j

theorem Linked.schedule (h : Linked k lists) (hs : schedule k = some (t, k')) :
    ∃ p l, lists (.ready p) = t :: l ∧ (∀ p' < p, lists (.ready p') = []) ∧
      Linked k' (update lists (.ready p) l) ∧ k'.next t = none ∧ k'.card = k.card ∧
      k' = { k with
        tasks := k'.tasks, readyQueues := k'.readyQueues, queueStatus := k'.queueStatus } := by
  rw [Kernel.schedule] at hs
  split at hs
  · cases hs
  rename_i hStatus
  obtain ⟨hSet, hLow⟩ := scheduleIndex_lowest hStatus
  generalize hp : scheduleIndex k.queueStatus = p at hs hSet hLow
  obtain ⟨x, l, hl⟩ := List.exists_cons_of_ne_nil ((h.bits p).mp hSet)
  have hRep := h.family.represents (.ready p)
  rw [hl] at hRep
  have hHead : (k.readyQueues p).head = some x := hRep.head
  simp only [hHead, Option.some.injEq, Prod.mk.injEq] at hs
  obtain ⟨rfl, rfl⟩ := hs
  have hOnly : some x = (k.readyQueues p).tail ↔ l = [] := by
    rw [eq_comm]
    exact hRep.tail_eq_head_iff
  have hUrgent : ∀ p' < p, lists (.ready p') = [] := by
    intro p' hp'
    by_contra hNe
    exact Bool.false_ne_true ((hLow p' hp').symm.trans ((h.bits p').mpr hNe))
  have hFamily := h.family.dequeue hl
  refine ⟨p, l, hl, hUrgent, ?_, ?_, ?_, ?_⟩
  · by_cases hNil : l = []
    · have hLink : k.next x = none := by simpa [hNil] using hRep.chain.2
      rw [if_pos (hOnly.mpr hNil)]
      constructor
      · rw [next_setNext, queue_setNext]
        have hQueue := queue_readyQueues k p ⟨none, none⟩
        rw [hLink, if_pos hNil, ← hQueue] at hFamily
        exact hFamily
      · rw [hNil]
        exact h.bits_clear p
    · have hLink : k.next x ≠ none := by
        obtain ⟨y, l', rfl⟩ := List.exists_cons_of_ne_nil hNil
        rw [hRep.chain.2.1]
        exact Option.some_ne_none y
      rw [if_neg (hNil ∘ hOnly.mp)]
      constructor
      · rw [next_setNext, queue_setNext]
        have hQueue := queue_readyQueues k p ⟨k.next x, (k.readyQueues p).tail⟩
        rw [if_neg hNil] at hFamily
        change Family _ (update k.queue (.ready p) ⟨k.next x, (k.readyQueues p).tail⟩) _ at hFamily
        rw [← hQueue] at hFamily
        rw [show (k.tasks x).next = k.next x from rfl, if_neg hLink]
        exact hFamily
      · exact h.bits_keep hSet hNil
  · rw [next_setNext, update_self]
  · rw [card_setNext]
    split <;> rfl
  · split <;> rfl

end TrainKernel.Kernel
