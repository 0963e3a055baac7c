import TrainKernel.Kernel.Effects

/-!
# Where the kernel keeps its tasks

Each task has one place: it is absent, it runs, it stands in its ready queue or in a
send queue, it waits in Receive or for a reply, or it awaits an event. `At` says what
the kernel tables show of a task in a given place, and the lemmas follow a task
through the operations of the handlers.
-/

namespace TrainKernel.Kernel

open Function Library.Links

inductive Place where
  | absent
  | running
  | ready
  | sending (r : TaskPtr)
  | receiving
  | replying (r : TaskPtr)
  | awaiting (e : Event)
deriving DecidableEq

namespace Place

def status : Place → Status
  | .sending _ => .sendBlock
  | .receiving => .receiveBlock
  | .replying _ => .replyBlock
  | _ => .ready

def queue (priority : Priority) : Place → Option QueueId
  | .ready => some (.ready priority)
  | .sending r => some (.mail r)
  | _ => none

/-- Live, and neither in a queue nor in the event table. -/
def Free : Place → Prop
  | .running => True
  | .receiving => True
  | .replying _ => True
  | _ => False

theorem Free.queue_eq {p : Place} (h : p.Free) (priority : Priority) :
    p.queue priority = none := by
  cases p <;> first | rfl | cases h

theorem Free.ne_absent {p : Place} (h : p.Free) : p ≠ .absent := by
  rintro rfl
  exact h

theorem Free.ne_awaiting {p : Place} (h : p.Free) (e : Event) : p ≠ .awaiting e := by
  rintro rfl
  exact h

end Place

structure Fits (d : TaskDescriptor) (t : TaskPtr) (p : Place) : Prop where
  status : d.status = p.status
  live : d.id ≠ 0 ↔ p ≠ .absent
  index : p ≠ .absent → taskGetIndex d = t
  origin : ∀ r, p = .replying r → d.originalReceiverId = r

/-- What the tables show of a task in place `p`. -/
structure At (k : State) (lists : QueueId → List TaskPtr) (t : TaskPtr) (p : Place) : Prop where
  fits : Fits (k.card t) t p
  member : ∀ i, t ∈ lists i ↔ p.queue (taskGetPriority (k.card t)) = some i
  event : ∀ e, k.eventTable e = some t ↔ p = .awaiting e
  quiet : p = .receiving → lists (.mail t) = []
  loose : p.queue (taskGetPriority (k.card t)) = none → k.next t = none
  created : p ≠ .absent → t.val ≠ 0 ∧ t.val < k.nextUniqueTaskId

variable {k k' : State} {lists lists' : QueueId → List TaskPtr} {t x r s : TaskPtr} {p p' : Place}

theorem At.frame (h : At k lists x p) (hCard : k'.card x = k.card x)
    (hEvent : ∀ e, k'.eventTable e = some x ↔ k.eventTable e = some x)
    (hMember : ∀ i, x ∈ lists' i ↔ x ∈ lists i)
    (hQuiet : p = .receiving → lists (.mail x) = [] → lists' (.mail x) = [])
    (hNext : (∀ i, x ∉ lists i) → k'.next x = k.next x)
    (hFresh : k.nextUniqueTaskId ≤ k'.nextUniqueTaskId) : At k' lists' x p where
  fits := by
    rw [hCard]
    exact h.fits
  member i := by
    rw [hCard, hMember]
    exact h.member i
  event e := (hEvent e).trans (h.event e)
  quiet hp := hQuiet hp (h.quiet hp)
  loose hp := by
    rw [hCard] at hp
    rw [hNext fun i hi => by simp [(h.member i).mp hi] at hp]
    exact h.loose hp
  created hp := (h.created hp).imp_right fun hLt => Nat.lt_of_lt_of_le hLt hFresh

theorem At.not_mem_of_free (h : At k lists t p) (hp : p.Free) (i : QueueId) : t ∉ lists i := by
  rw [h.member, hp.queue_eq]
  simp

theorem At.modify_ne (h : At k lists x p) {f : TaskDescriptor → TaskDescriptor}
    (hf : LinkFree f) (hx : x ≠ t) : At (k.modify t f) lists x p :=
  h.frame (by rw [card_modify _ _ hf, update_of_ne hx]) (fun _ => Iff.rfl) (fun _ => Iff.rfl)
    (fun _ hNil => hNil) (fun _ => by rw [next_modify _ _ hf]) le_rfl

theorem At.modify_self (h : At k lists t p) {f : TaskDescriptor → TaskDescriptor}
    (hf : LinkFree f) (hp : p.Free) (hp' : p'.Free)
    (hId : ∀ d, (f d).id = d.id) (hStatus : (f (k.card t)).status = p'.status)
    (hOrigin : ∀ r, p' = .replying r → (f (k.card t)).originalReceiverId = r)
    (hQuiet : p' = .receiving → lists (.mail t) = []) : At (k.modify t f) lists t p' where
  fits := by
    rw [card_modify _ _ hf, update_self]
    refine ⟨hStatus, ?_, ?_, hOrigin⟩
    · rw [hId, h.fits.live]
      exact iff_of_true hp.ne_absent hp'.ne_absent
    · intro _
      rw [taskGetIndex, hId]
      exact h.fits.index hp.ne_absent
  member i := iff_of_false (h.not_mem_of_free hp i) (by rw [hp'.queue_eq]; simp)
  event e := iff_of_false (fun he => hp.ne_awaiting e ((h.event e).mp he)) (hp'.ne_awaiting e)
  quiet := hQuiet
  loose _ := by
    rw [next_modify _ _ hf]
    exact h.loose (hp.queue_eq _)
  created _ := h.created hp.ne_absent

/-- The queues hold their lists, and every task is in its place. -/
structure Placement (k : State) (lists : QueueId → List TaskPtr) (place : TaskPtr → Place) :
    Prop where
  linked : Linked k lists
  at_place : ∀ t, At k lists t (place t)

variable {place : TaskPtr → Place}

/-- The tables change for one task only; the others keep what they had. -/
theorem Placement.move (h : Placement k lists place) (hLinked : Linked k' lists')
    (hSelf : At k' lists' t p') (hOther : ∀ x, x ≠ t → At k lists x (place x) →
      At k' lists' x (place x)) : Placement k' lists' (update place t p') := by
  refine ⟨hLinked, ?_⟩
  intro x
  by_cases hx : x = t
  · subst hx
    rwa [update_self]
  · rw [update_of_ne hx]
    exact hOther x hx (h.at_place x)

theorem Placement.setMem (h : Placement k lists place) (mem : Mem) :
    Placement (k.setMem mem) lists place :=
  ⟨h.linked.congr rfl rfl rfl, fun x => (h.at_place x).frame rfl (fun _ => Iff.rfl)
    (fun _ => Iff.rfl) (fun _ hNil => hNil) (fun _ => rfl) le_rfl⟩

theorem Placement.modify (h : Placement k lists place) {f : TaskDescriptor → TaskDescriptor}
    (hf : LinkFree f) (hp : (place t).Free) (hp' : p'.Free)
    (hId : ∀ d, (f d).id = d.id) (hStatus : (f (k.card t)).status = p'.status)
    (hOrigin : ∀ r, p' = .replying r → (f (k.card t)).originalReceiverId = r)
    (hQuiet : p' = .receiving → lists (.mail t) = []) :
    Placement (k.modify t f) lists (update place t p') :=
  h.move (h.linked.modify hf) ((h.at_place t).modify_self hf hp hp' hId hStatus hOrigin hQuiet)
    fun _ hx hAt => hAt.modify_ne hf hx

theorem mem_update_iff {i j : QueueId} {l : List TaskPtr} (hl : x ∈ l ↔ x ∈ lists i) :
    x ∈ update lists i l j ↔ x ∈ lists j := by
  rcases eq_or_ne j i with rfl | hj
  · rw [update_self, hl]
  · rw [update_of_ne hj]

theorem mem_update_append {i j : QueueId} (hx : x ≠ t) :
    x ∈ update lists i (lists i ++ [t]) j ↔ x ∈ lists j :=
  mem_update_iff (by simp [hx])

theorem enqueue_next_of_free {i : QueueId} (h : Linked k lists) (hx : x ≠ t)
    (hFree : ∀ i, x ∉ lists i) : (enqueue k.next (k.queue i) t).1 x = k.next x := by
  rw [enqueue]
  cases hTail : (k.queue i).tail with
  | none => exact update_of_ne hx _ _
  | some last =>
    have hLast : last ∈ lists i :=
      List.mem_of_getLast? ((h.family.represents i).tail.symm.trans hTail)
    have hNe : x ≠ last := by
      rintro rfl
      exact hFree i hLast
    simp only [update_of_ne hNe, update_of_ne hx]

theorem At.joins (h : At k lists t .running) {l : List TaskPtr} (hCard : k'.card = k.card)
    (hEvent : k'.eventTable = k.eventTable)
    (hFresh : k'.nextUniqueTaskId = k.nextUniqueTaskId) (hl : t ∈ l) :
    At k' (update lists (.ready (taskGetPriority (k.card t))) l) t .ready where
  fits := by
    rw [hCard]
    exact ⟨h.fits.status, h.fits.live.trans (iff_of_true (by simp) (by simp)),
      fun _ => h.fits.index (by simp), (by simp)⟩
  member i := by
    rw [hCard]
    by_cases hi : i = .ready (taskGetPriority (k.card t))
    · subst hi
      rw [update_self]
      exact iff_of_true hl rfl
    · rw [update_of_ne hi]
      apply iff_of_false (h.not_mem_of_free trivial i)
      simpa [Place.queue, eq_comm] using hi
  event e := by
    rw [hEvent]
    exact (h.event e).trans (iff_of_false (by simp) (by simp))
  quiet := (by simp)
  loose := by simp [Place.queue]
  created _ := by
    rw [hFresh]
    exact h.created (by simp)

def joinReady (k : State) (lists : QueueId → List TaskPtr) (t : TaskPtr) :
    QueueId → List TaskPtr :=
  update lists (.ready (taskGetPriority (k.card t)))
    (lists (.ready (taskGetPriority (k.card t))) ++ [t])

theorem Placement.queueTask (h : Placement k lists place) (hp : place t = .running) :
    Placement (queueTask k t) (joinReady k lists t) (update place t .ready) := by
  have hAt := h.at_place t
  rw [hp] at hAt
  have hFree : ∀ i, t ∉ lists i := hAt.not_mem_of_free trivial
  apply h.move (h.linked.queueTask hFree)
  · exact hAt.joins (queueTask_card k t) (queueTask_eventTable k t)
      (queueTask_nextUniqueTaskId k t) (by simp)
  · intro x hx hAtx
    refine hAtx.frame (by rw [queueTask_card]) (fun e => by rw [queueTask_eventTable])
      (fun i => mem_update_append hx) (fun _ hNil => hNil) (fun hFreex => ?_)
      (queueTask_nextUniqueTaskId k t).ge
    rw [queueTask_next]
    exact enqueue_next_of_free h.linked hx hFreex

theorem mem_update_cons {i j : QueueId} (hx : x ≠ t) :
    x ∈ update lists i (t :: lists i) j ↔ x ∈ lists j :=
  mem_update_iff (by simp [hx])

def leadReady (k : State) (lists : QueueId → List TaskPtr) (t : TaskPtr) :
    QueueId → List TaskPtr :=
  update lists (.ready (taskGetPriority (k.card t)))
    (t :: lists (.ready (taskGetPriority (k.card t))))

theorem Placement.addToFront (h : Placement k lists place) (hp : place t = .running) :
    Placement (addToFront k t) (leadReady k lists t) (update place t .ready) := by
  have hAt := h.at_place t
  rw [hp] at hAt
  have hFree : ∀ i, t ∉ lists i := hAt.not_mem_of_free trivial
  apply h.move (h.linked.addToFront hFree)
  · exact hAt.joins (addToFront_card k t) (addToFront_eventTable k t)
      (addToFront_nextUniqueTaskId k t) (List.mem_cons_self ..)
  · intro x hx hAtx
    refine hAtx.frame (by rw [addToFront_card]) (fun e => by rw [addToFront_eventTable])
      (fun i => mem_update_cons hx) (fun _ hNil => hNil) (fun _ => ?_)
      (addToFront_nextUniqueTaskId k t).ge
    rw [addToFront_next, update_of_ne hx]

theorem mem_update_tail {i j : QueueId} {l : List TaskPtr} (hl : lists i = t :: l) (hx : x ≠ t) :
    x ∈ update lists i l j ↔ x ∈ lists j :=
  mem_update_iff (by simp [hl, hx])

theorem Placement.schedule (h : Placement k lists place) (hs : schedule k = some (t, k')) :
    ∃ p l, lists (.ready p) = t :: l ∧ place t = .ready ∧ k'.card = k.card ∧ k'.mem = k.mem ∧
      k'.nextUniqueTaskId = k.nextUniqueTaskId ∧
      Placement k' (update lists (.ready p) l) (update place t .running) := by
  obtain ⟨p, l, hl, -, hLinked, hNext, hCard, hFrame⟩ := h.linked.schedule hs
  have hAt := h.at_place t
  have hMem : t ∈ lists (.ready p) := by simp [hl]
  have hQueue := (hAt.member _).mp hMem
  have hPlace : place t = .ready := by
    cases hp : place t <;> simp [hp, Place.queue] at hQueue ⊢
  rw [hPlace] at hAt
  have hEvent : k'.eventTable = k.eventTable := by rw [hFrame]
  have hFresh : k'.nextUniqueTaskId = k.nextUniqueTaskId := by rw [hFrame]
  have hNodup := h.linked.family.nodup (.ready p)
  rw [hl, List.nodup_cons] at hNodup
  refine ⟨p, l, hl, hPlace, hCard, by rw [hFrame], hFresh, h.move hLinked ?_ ?_⟩
  · refine ⟨?_, ?_, ?_, (by simp), fun _ => hNext, ?_⟩
    · rw [hCard]
      exact ⟨hAt.fits.status, hAt.fits.live.trans (iff_of_true (by simp) (by simp)),
        fun _ => hAt.fits.index (by simp), (by simp)⟩
    · intro i
      refine iff_of_false ?_ (by simp [Place.queue])
      by_cases hi : i = .ready p
      · subst hi
        rw [update_self]
        exact hNodup.1
      · rw [update_of_ne hi]
        exact fun hi' => hi (h.linked.family.apart i _ t hi' hMem)
    · intro e
      rw [hEvent]
      exact (hAt.event e).trans (iff_of_false (by simp) (by simp))
    · intro _
      rw [hFresh]
      exact hAt.created (by simp)
  · intro x hx hAtx
    refine hAtx.frame (by rw [hCard]) (fun e => by rw [hEvent]) (fun i => mem_update_tail hl hx)
      (fun _ hNil => hNil) (fun _ => ?_) hFresh.ge
    have hTasks : k'.next x = (k'.tasks x).next := rfl
    rw [hTasks, schedule_tasks_ne hs hx]
    rfl

/-! ## The send queues -/

theorem Placement.sendFirst (h : Placement k lists place) (hs : place s = .running)
    (hr : place r ≠ .receiving) {f g : TaskDescriptor → TaskDescriptor} (hf : LinkFree f)
    (hg : LinkFree g) (hIdf : ∀ d, (f d).id = d.id) (hIdg : ∀ d, (g d).id = d.id)
    (hStatus : ∀ d, (g (f d)).status = .sendBlock) :
    Placement ((enqueueSender (k.modify s f) s r).modify s g)
      (update lists (.mail r) (lists (.mail r) ++ [s])) (update place s (.sending r)) := by
  have hAt := h.at_place s
  rw [hs] at hAt
  have hFree : ∀ i, s ∉ lists i := hAt.not_mem_of_free trivial
  have hNone : (k.modify s f).next s = none := by
    rw [next_modify _ _ hf]
    exact hAt.loose rfl
  have hCard : ((enqueueSender (k.modify s f) s r).modify s g).card =
      update k.card s (g (f (k.card s))) := by
    rw [card_modify _ _ hg, enqueueSender_card, card_modify _ _ hf, update_self, update_idem]
  have hFrame := enqueueSender_frame (k.modify s f) s r
  have hEvent : ((enqueueSender (k.modify s f) s r).modify s g).eventTable = k.eventTable := by
    change (enqueueSender (k.modify s f) s r).eventTable = _
    rw [hFrame]
    rfl
  have hFresh : ((enqueueSender (k.modify s f) s r).modify s g).nextUniqueTaskId =
      k.nextUniqueTaskId := by
    change (enqueueSender (k.modify s f) s r).nextUniqueTaskId = _
    rw [hFrame]
    rfl
  have hLinked := h.linked.modify (t := s) hf
  apply h.move ((hLinked.enqueueSender hFree hNone).modify hg)
  · refine ⟨?_, ?_, ?_, (by simp), (by simp [Place.queue]), ?_⟩
    · rw [hCard, update_self]
      refine ⟨hStatus _, ?_, fun _ => ?_, (by simp)⟩
      · rw [hIdg, hIdf]
        exact hAt.fits.live.trans (iff_of_true (by simp) (by simp))
      · rw [taskGetIndex, hIdg, hIdf]
        exact hAt.fits.index (by simp)
    · intro i
      by_cases hi : i = .mail r
      · subst hi
        simp [Place.queue]
      · rw [update_of_ne hi]
        exact iff_of_false (hFree i) (by simpa [Place.queue, eq_comm] using hi)
    · intro e
      rw [hEvent]
      exact (hAt.event e).trans (iff_of_false (by simp) (by simp))
    · intro _
      rw [hFresh]
      exact hAt.created (by simp)
  · intro x hx hAtx
    refine hAtx.frame (by rw [hCard, update_of_ne hx]) (fun e => by rw [hEvent])
      (fun i => mem_update_append hx) (fun hp hNil => ?_) (fun hFreex => ?_) hFresh.ge
    · have hxr : x ≠ r := by
        rintro rfl
        exact hr hp
      rwa [update_of_ne (by simpa using hxr)]
    · rw [next_modify _ _ hg, enqueueSender_next _ _ hNone]
      exact (enqueue_next_of_free hLinked hx hFreex).trans (by rw [next_modify _ _ hf])

theorem Placement.collect {l : List TaskPtr} (h : Placement k lists place)
    (hl : lists (.mail r) = s :: l) {f : TaskDescriptor → TaskDescriptor} (hf : LinkFree f)
    (hId : ∀ d, (f d).id = d.id) (hStatus : ∀ d, (f d).status = .replyBlock)
    (hOrigin : ∀ d, (f d).originalReceiverId = r) :
    Placement ((dequeueSender k s r).modify s f) (update lists (.mail r) l)
      (update place s (.replying r)) := by
  have hAt := h.at_place s
  have hMem : s ∈ lists (.mail r) := by simp [hl]
  have hQueue := (hAt.member _).mp hMem
  have hPlace : place s = .sending r := by
    cases hp : place s <;> simp [hp, Place.queue] at hQueue ⊢
    exact hQueue
  rw [hPlace] at hAt
  have hNodup := h.linked.family.nodup (.mail r)
  rw [hl, List.nodup_cons] at hNodup
  have hCard : ((dequeueSender k s r).modify s f).card = update k.card s (f (k.card s)) := by
    rw [card_modify _ _ hf, dequeueSender_card]
  apply h.move ((h.linked.dequeueSender hl).modify hf)
  · refine ⟨?_, ?_, ?_, (by simp), fun _ => ?_, fun _ => hAt.created (by simp)⟩
    · rw [hCard, update_self]
      refine ⟨hStatus _, ?_, fun _ => ?_, fun _ hr => ?_⟩
      · rw [hId]
        exact hAt.fits.live.trans (iff_of_true (by simp) (by simp))
      · rw [taskGetIndex, hId]
        exact hAt.fits.index (by simp)
      · rw [hOrigin, Place.replying.inj hr]
    · intro i
      refine iff_of_false ?_ (by simp [Place.queue])
      by_cases hi : i = .mail r
      · subst hi
        rw [update_self]
        exact hNodup.1
      · rw [update_of_ne hi]
        exact fun hi' => hi (h.linked.family.apart i _ s hi' hMem)
    · intro e
      exact (hAt.event e).trans (iff_of_false (by simp) (by simp))
    · rw [next_modify _ _ hf, dequeueSender_next, update_self]
  · intro x hx hAtx
    refine hAtx.frame (by rw [hCard, update_of_ne hx]) (fun e => Iff.rfl)
      (fun i => mem_update_tail hl hx) (fun _ hNil => ?_) (fun _ => ?_) le_rfl
    · by_cases hxr : x = r
      · subst hxr
        simp [hNil] at hl
      · rwa [update_of_ne (by simpa using hxr)]
    · rw [next_modify _ _ hf, dequeueSender_next, update_of_ne hx]

structure SameTables (k k' : State) : Prop where
  tasks : k'.tasks = k.tasks
  readyQueues : k'.readyQueues = k.readyQueues
  sendQueues : k'.sendQueues = k.sendQueues
  queueStatus : k'.queueStatus = k.queueStatus
  eventTable : k'.eventTable = k.eventTable
  nextUniqueTaskId : k'.nextUniqueTaskId = k.nextUniqueTaskId

theorem SameTables.card (h : SameTables k k') : k'.card = k.card := by
  funext x
  rw [State.card, State.card, h.tasks]

theorem Placement.congr (h : Placement k lists place) (hSame : SameTables k k') :
    Placement k' lists place := by
  have hNext : k'.next = k.next := by
    funext x
    rw [State.next, State.next, hSame.tasks]
  have hQueue : k'.queue = k.queue := by
    funext i
    cases i with
    | ready p => rw [State.queue, State.queue, hSame.readyQueues]
    | mail r => rw [State.queue, State.queue, hSame.sendQueues]
  refine ⟨h.linked.congr hNext hQueue hSame.queueStatus, ?_⟩
  intro x
  exact (h.at_place x).frame (by rw [hSame.card]) (fun e => by rw [hSame.eventTable])
    (fun _ => Iff.rfl) (fun _ hNil => hNil) (fun _ => by rw [hNext]) hSame.nextUniqueTaskId.ge

/-- One entry of the table changes, for the task `t`. -/
theorem Placement.setEvent (h : Placement k lists place) {e : Event} {v : Option TaskPtr}
    (hPlace : place t = p)
    (hp : p.queue (taskGetPriority (k.card t)) = none)
    (hp' : p'.queue (taskGetPriority (k.card t)) = none) (hStatus : p.status = p'.status)
    (hLive : p ≠ .absent) (hLive' : p' ≠ .absent) (hQuiet : p' ≠ .receiving)
    (hReply : ∀ r, p' ≠ .replying r)
    (hSelf : v = some t ↔ p' = .awaiting e)
    (hRest : ∀ e', e' ≠ e → (p = .awaiting e' ↔ p' = .awaiting e'))
    (hOther : ∀ x, x ≠ t → (v = some x ↔ k.eventTable e = some x)) :
    Placement { k with eventTable := update k.eventTable e v } lists (update place t p') := by
  have hAt := h.at_place t
  rw [hPlace] at hAt
  have hMember (i : QueueId) : t ∈ lists i ↔ p'.queue (taskGetPriority (k.card t)) = some i := by
    rw [hAt.member i, hp, hp']
  have hSelf' (e' : Event) : update k.eventTable e v e' = some t ↔ p' = .awaiting e' := by
    rcases eq_or_ne e' e with rfl | hNe
    · rw [update_self, hSelf]
    · rw [update_of_ne hNe, hAt.event, hRest e' hNe]
  have hOther' (x : TaskPtr) (hx : x ≠ t) (e' : Event) :
      update k.eventTable e v e' = some x ↔ k.eventTable e' = some x := by
    rcases eq_or_ne e' e with rfl | hNe
    · rw [update_self, hOther x hx]
    · rw [update_of_ne hNe]
  refine h.move (h.linked.congr rfl rfl rfl) ?_ ?_
  · exact ⟨⟨hAt.fits.status.trans hStatus, hAt.fits.live.trans (iff_of_true hLive hLive'),
      fun _ => hAt.fits.index hLive, fun r hr => absurd hr (hReply r)⟩, hMember, hSelf',
      fun hr => absurd hr hQuiet, fun _ => hAt.loose hp, fun _ => hAt.created hLive⟩
  · intro x hx hAtx
    exact hAtx.frame rfl (hOther' x hx) (fun _ => Iff.rfl) (fun _ hNil => hNil) (fun _ => rfl)
      le_rfl

theorem Placement.await {e : Event} (h : Placement k lists place) (ht : place t = .running)
    (he : k.eventTable e = none) :
    Placement { k with eventTable := update k.eventTable e (some t) } lists
      (update place t (.awaiting e)) := by
  refine h.setEvent ht rfl rfl rfl (by simp) (by simp) (by simp) (by simp) (by simp) ?_ ?_
  · intro e' hNe
    simp [hNe.symm]
  · intro x hx
    simp [he, hx.symm]

theorem Placement.release {e : Event} (h : Placement k lists place)
    (he : k.eventTable e = some t) :
    Placement { k with eventTable := update k.eventTable e none } lists
      (update place t .running) := by
  have hPlace : place t = .awaiting e := ((h.at_place t).event e).mp he
  refine h.setEvent hPlace rfl rfl rfl (by simp) (by simp) (by simp) (by simp) (by simp) ?_ ?_
  · intro e' hNe
    simp [hNe.symm]
  · intro x hx
    simp [he, hx.symm]

theorem Placement.absent_of_fresh (h : Placement k lists place)
    (ht : k.nextUniqueTaskId ≤ t.val) : place t = .absent := by
  by_contra hp
  exact absurd ((h.at_place t).created hp).2 (Nat.not_lt.mpr ht)

theorem At.create {id : Nat} (h : At k lists t .absent) {f : TaskDescriptor → TaskDescriptor}
    (hf : LinkFree f) (hId : (f (k.card t)).id = id) (hStatus : ∀ d, (f d).status = d.status)
    (hLive : id ≠ 0) (hIndex : taskGetIndexById id = t) (hPos : t.val ≠ 0)
    (hTasks : k'.tasks = (k.modify t f).tasks) (hEvent : k'.eventTable = k.eventTable)
    (hFresh : t.val < k'.nextUniqueTaskId) : At k' lists t .running := by
  have hCard : k'.card t = f (k.card t) := by
    rw [State.card, hTasks]
    exact (congrFun (card_modify k t hf) t).trans (update_self ..)
  have hNext : k'.next t = k.next t := by
    rw [State.next, hTasks]
    exact congrFun (next_modify k t hf) t
  refine ⟨⟨?_, ?_, ?_, (by simp)⟩, ?_, ?_, (by simp), ?_, fun _ => ⟨hPos, hFresh⟩⟩
  · rw [hCard, hStatus]
    exact h.fits.status
  · rw [hCard, hId]
    exact iff_of_true hLive (by simp)
  · intro _
    rw [hCard, taskGetIndex, hId, hIndex]
  · intro i
    exact (h.member i).trans (iff_of_false (by simp [Place.queue]) (by simp [Place.queue]))
  · intro e
    rw [hEvent]
    exact (h.event e).trans (iff_of_false (by simp) (by simp))
  · intro _
    rw [hNext]
    exact h.loose rfl

theorem taskCreate_cases (k : State) (priority : Int) (code : Word) (parentId : Nat) :
    ((taskCreate k priority code parentId).1 < 0 ∧
      (taskCreate k priority code parentId).2 = k) ∨
    ∃ (id : Nat) (index : TaskPtr) (sp address : Word), index.val = k.nextUniqueTaskId ∧
      taskGetIndexById id = index ∧ taskCreate k priority code parentId = (Int.ofNat id,
        { k.modify index (fun d => { d with id, parentId, sp, next := none }) with
          nextUniqueTaskId := k.nextUniqueTaskId + 1, currentStackAddress := address }) := by
  rw [taskCreate]
  split
  · exact Or.inl ⟨Int.negSucc_lt_zero _, rfl⟩
  rename_i hArgs
  split
  · exact Or.inl ⟨Int.negSucc_lt_zero _, rfl⟩
  dsimp only
  split
  · exact Or.inl ⟨Int.negSucc_lt_zero _, rfl⟩
  have hMaxP : taskMaxPriority = 32 := rfl
  exact Or.inr ⟨_, ⟨k.nextUniqueTaskId, _⟩, _, _, rfl, taskGetIndexById_makeId (by omega), rfl⟩

theorem Placement.create {id parentId : Nat} {index : TaskPtr} {sp address : Word}
    (h : Placement k lists place) (hIndex : index.val = k.nextUniqueTaskId)
    (hId : taskGetIndexById id = index) (hPos : 0 < k.nextUniqueTaskId) :
    Placement { k.modify index (fun d => { d with id, parentId, sp, next := none }) with
      nextUniqueTaskId := k.nextUniqueTaskId + 1, currentStackAddress := address } lists
      (update place index .running) := by
  have hAt := h.at_place index
  rw [h.absent_of_fresh hIndex.ge] at hAt
  have hNone : (k.tasks index).next = none := hAt.loose rfl
  have hLive : id ≠ 0 := by
    rintro rfl
    have hZero : index.val = 0 := by rw [← hId]; rfl
    omega
  let edit (d : TaskDescriptor) : TaskDescriptor := { d with id, parentId, sp }
  have hEdit : LinkFree edit := fun _ _ => rfl
  have hModify : k.modify index (fun d => { d with id, parentId, sp, next := none }) =
      k.modify index edit := by
    simp only [State.modify, edit]
    rw [hNone]
  rw [hModify]
  refine h.move ((h.linked.modify (t := index) hEdit).congr rfl rfl rfl) ?_ ?_
  · exact hAt.create hEdit rfl (fun _ => rfl) hLive hId (by omega) rfl rfl
      (Nat.lt_succ_of_le hIndex.le)
  · intro x hx hAtx
    exact (hAtx.modify_ne hEdit hx).frame rfl (fun _ => Iff.rfl) (fun _ => Iff.rfl)
      (fun _ hNil => hNil) (fun _ => rfl) (Nat.le_succ _)

theorem Placement.taskExit (h : Placement k lists place) (ht : place t = .running) :
    Placement (taskExit k t) lists (update place t .absent) := by
  have hAt := h.at_place t
  rw [ht] at hAt
  let edit (d : TaskDescriptor) : TaskDescriptor :=
    { TaskDescriptor.cleared d.originalReceiverId d.ret with next := d.next }
  have hEdit : LinkFree edit := fun _ _ => rfl
  have hNone : (k.tasks t).next = none := hAt.loose rfl
  have hExit : Kernel.taskExit k t = k.modify t edit := by
    simp only [Kernel.taskExit, State.modify, edit]
    rw [hNone]
    rfl
  rw [hExit]
  refine h.move (h.linked.modify hEdit) ?_ fun x hx hAtx => hAtx.modify_ne hEdit hx
  refine ⟨⟨?_, ?_, fun hp => absurd rfl hp, by simp⟩, ?_, ?_, by simp, ?_,
    fun hp => absurd rfl hp⟩
  · rw [card_modify _ _ hEdit, update_self]
    rfl
  · rw [card_modify _ _ hEdit, update_self]
    exact iff_of_false (fun hp => hp rfl) (fun hp => hp rfl)
  · intro i
    exact iff_of_false (hAt.not_mem_of_free trivial i) (by simp [Place.queue])
  · intro e
    exact (hAt.event e).trans (iff_of_false (by simp) (by simp))
  · intro _
    rw [next_modify _ _ hEdit]
    exact hAt.loose rfl

end TrainKernel.Kernel
