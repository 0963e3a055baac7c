import TrainKernel.Kernel.Queues

/-!
# The scheduler as lists by priority

The bit mask, the De Bruijn lookup and the linked queues stand for one list of tasks for
each priority. A run of calls that never queues a task twice gives what the lists give.
-/

namespace TrainKernel.Kernel

open Function Library.Links

inductive SchedulerCall where
  | queueTask (task : TaskPtr)
  | addToFront (task : TaskPtr)
  | schedule
deriving DecidableEq, Repr

def initScheduler (k : State) : State :=
  { k with readyQueues := fun _ => ⟨none, none⟩, queueStatus := 0 }

def SchedulerCall.run (k : State) : SchedulerCall → Option TaskPtr × State
  | .queueTask task => (none, Kernel.queueTask k task)
  | .addToFront task => (none, Kernel.addToFront k task)
  | .schedule =>
    match Kernel.schedule k with
    | none => (none, k)
    | some (active, k') => (some active, k')

/-- The answers of the calls, and the state after them. -/
def runScheduler : State → List SchedulerCall → List (Option TaskPtr) × State
  | k, [] => ([], k)
  | k, call :: calls =>
    let (answer, k) := call.run k
    let (answers, k) := runScheduler k calls
    (answer :: answers, k)

/-- The tasks that are ready at each priority, the next one first. -/
abbrev ReadyLists := Priority → List TaskPtr

namespace ReadyLists

def urgent (q : ReadyLists) : Option Priority := Fin.find? fun p => !(q p).isEmpty

def schedule (q : ReadyLists) : Option TaskPtr × ReadyLists :=
  match q.urgent with
  | none => (none, q)
  | some p => ((q p).head?, update q p (q p).tail)

def call (priority : TaskPtr → Priority) (q : ReadyLists) :
    SchedulerCall → Option TaskPtr × ReadyLists
  | .queueTask task => (none, update q (priority task) (q (priority task) ++ [task]))
  | .addToFront task => (none, update q (priority task) (task :: q (priority task)))
  | .schedule => q.schedule

def calls (priority : TaskPtr → Priority) :
    ReadyLists → List SchedulerCall → List (Option TaskPtr) × ReadyLists
  | q, [] => ([], q)
  | q, c :: cs =>
    let (answer, q) := q.call priority c
    let (answers, q) := calls priority q cs
    (answer :: answers, q)

/-- A call inserts a task only while the task is ready nowhere. -/
def Admits (q : ReadyLists) : SchedulerCall → Prop
  | .queueTask task | .addToFront task => ∀ p, task ∉ q p
  | .schedule => True

def AdmitsAll (priority : TaskPtr → Priority) : ReadyLists → List SchedulerCall → Prop
  | _, [] => True
  | q, c :: cs => q.Admits c ∧ AdmitsAll priority (q.call priority c).2 cs

instance (q : ReadyLists) : DecidablePred q.Admits
  | .queueTask task | .addToFront task => inferInstanceAs (Decidable (∀ p, task ∉ q p))
  | .schedule => isTrue trivial

instance instDecidableAdmitsAll (priority : TaskPtr → Priority) :
    ∀ (q : ReadyLists) (cs : List SchedulerCall), Decidable (AdmitsAll priority q cs)
  | _, [] => isTrue trivial
  | q, c :: cs =>
    have := instDecidableAdmitsAll priority (q.call priority c).2 cs
    instDecidableAnd

variable {q : ReadyLists} {p : Priority} {t : TaskPtr} {l : List TaskPtr}

theorem urgent_eq_none_iff : q.urgent = none ↔ ∀ p, q p = [] := by
  simp [urgent]

theorem urgent_eq_some_iff : q.urgent = some p ↔ q p ≠ [] ∧ ∀ p' < p, q p' = [] := by
  simp [urgent]

theorem schedule_eq (hp : q p = t :: l) (hUrgent : ∀ p' < p, q p' = []) :
    q.schedule = (some t, update q p l) := by
  have hFind : q.urgent = some p := by
    refine urgent_eq_some_iff.mpr ⟨?_, hUrgent⟩
    simp [hp]
  unfold schedule
  rw [hFind]
  simp only [hp, List.head?_cons, List.tail_cons]

theorem schedule_of_nil (h : ∀ p, q p = []) : q.schedule = (none, q) := by
  unfold schedule
  rw [urgent_eq_none_iff.mpr h]

end ReadyLists

variable {k k' : State} {q : ReadyLists} {t : TaskPtr} {priority : TaskPtr → Priority}

def priorityOf (k : State) (t : TaskPtr) : Priority := taskGetPriority (k.tasks t)

/-- The ready queues alone: a task that is in no ready queue may still be in a send queue, whose
links the scheduler does not care for. -/
def State.withoutMail (k : State) : State := { k with sendQueues := fun _ => ⟨none, none⟩ }

theorem queueTask_withoutMail (k : State) (t : TaskPtr) :
    queueTask k.withoutMail t = (queueTask k t).withoutMail := by
  simp only [queueTask, State.withoutMail]
  split <;> rfl

theorem addToFront_withoutMail (k : State) (t : TaskPtr) :
    addToFront k.withoutMail t = (addToFront k t).withoutMail := by
  simp only [addToFront, State.withoutMail]
  split <;> rfl

theorem schedule_withoutMail (k : State) : schedule k.withoutMail =
    (schedule k).map fun (active, k') => (active, k'.withoutMail) := by
  rw [schedule, schedule, State.withoutMail]
  by_cases hStatus : k.queueStatus = 0
  · rw [if_pos hStatus, if_pos hStatus]
    rfl
  rw [if_neg hStatus, if_neg hStatus]
  dsimp only
  cases (k.readyQueues (scheduleIndex k.queueStatus)).head with
  | none => rfl
  | some active => split_ifs <;> rfl

def ReadyLists.all (q : ReadyLists) : QueueId → List TaskPtr
  | .ready p => q p
  | .mail _ => []

theorem ReadyLists.all_update (q : ReadyLists) (p : Priority) (l : List TaskPtr) :
    ReadyLists.all (update q p l) = update q.all (.ready p) l := by
  funext i
  cases i with
  | ready p' => by_cases hp : p' = p <;> simp [ReadyLists.all, hp]
  | mail r => simp [ReadyLists.all]

/-- The mask and the queues of the scheduler stand for the lists. -/
structure Schedules (k : State) (q : ReadyLists) : Prop where
  bits : ∀ p : Priority, k.queueStatus.getLsbD p = true ↔ q p ≠ []
  queues : ∀ p, Represents k.next (k.readyQueues p) (q p)

def Readies (priority : TaskPtr → Priority) (k : State) (q : ReadyLists) : Prop :=
  Linked k.withoutMail q.all ∧ priorityOf k = priority

theorem Readies.schedules (h : Readies priority k q) : Schedules k q :=
  ⟨h.1.bits, fun p => h.1.family.represents (.ready p)⟩

theorem priorityOf_congr (hCard : k'.card = k.card) : priorityOf k' = priorityOf k := by
  funext t
  have hPriority : taskGetPriority (k'.card t) = taskGetPriority (k.card t) := by rw [hCard]
  exact hPriority

theorem readies_init (k : State) :
    Readies (priorityOf k) (initScheduler k) fun _ => [] := by
  refine ⟨⟨⟨?_, ?_⟩, ?_⟩, rfl⟩
  · intro i
    cases i <;> exact ⟨rfl, rfl⟩
  · intro i j x hx
    cases i <;> exact absurd hx List.not_mem_nil
  · intro p
    simp [initScheduler, State.withoutMail, ReadyLists.all]

theorem not_mem_all (ht : ∀ p, t ∉ q p) (i : QueueId) : t ∉ q.all i := by
  cases i with
  | ready p => exact ht p
  | mail r => exact List.not_mem_nil

theorem Readies.queueTask (h : Readies priority k q) (ht : ∀ p, t ∉ q p) :
    Readies priority (queueTask k t) (update q (priority t) (q (priority t) ++ [t])) := by
  obtain ⟨hLinked, rfl⟩ := h
  refine ⟨?_, priorityOf_congr (queueTask_card k t)⟩
  rw [← queueTask_withoutMail, ReadyLists.all_update]
  exact hLinked.queueTask (not_mem_all ht)

theorem Readies.addToFront (h : Readies priority k q) (ht : ∀ p, t ∉ q p) :
    Readies priority (addToFront k t) (update q (priority t) (t :: q (priority t))) := by
  obtain ⟨hLinked, rfl⟩ := h
  refine ⟨?_, priorityOf_congr (addToFront_card k t)⟩
  rw [← addToFront_withoutMail, ReadyLists.all_update]
  exact hLinked.addToFront (not_mem_all ht)

theorem Linked.nil_of_schedule {lists : QueueId → List TaskPtr} (h : Linked k lists)
    (hNone : Kernel.schedule k = none) (p : Priority) : lists (.ready p) = [] := by
  by_contra hReady
  have hStatus : k.queueStatus ≠ 0 := by
    intro hZero
    have hSet := (h.bits p).mpr hReady
    rw [hZero] at hSet
    simp at hSet
  have hLowest := (scheduleIndex_lowest hStatus).1
  obtain ⟨x, l, hl⟩ := List.exists_cons_of_ne_nil ((h.bits _).mp hLowest)
  have hHead : (k.readyQueues (scheduleIndex k.queueStatus)).head = some x := by
    rw [show k.readyQueues _ = k.queue (.ready _) from rfl, (h.family.represents _).head, hl]
    rfl
  rw [Kernel.schedule, if_neg hStatus] at hNone
  simp only [hHead, reduceCtorEq] at hNone

theorem Readies.schedule (h : Readies priority k q) :
    (SchedulerCall.schedule.run k).1 = q.schedule.1 ∧
      Readies priority (SchedulerCall.schedule.run k).2 q.schedule.2 := by
  obtain ⟨hLinked, rfl⟩ := h
  rw [SchedulerCall.run]
  cases hSchedule : Kernel.schedule k with
  | none =>
    have hNone : Kernel.schedule k.withoutMail = none := by
      rw [schedule_withoutMail, hSchedule]
      rfl
    have hNil : ∀ p, q p = [] := hLinked.nil_of_schedule hNone
    rw [ReadyLists.schedule_of_nil hNil]
    exact ⟨rfl, hLinked, rfl⟩
  | some r =>
    obtain ⟨active, k'⟩ := r
    have hSchedule' : Kernel.schedule k.withoutMail = some (active, k'.withoutMail) := by
      rw [schedule_withoutMail, hSchedule]
      rfl
    obtain ⟨p, l, hp, hUrgent, hLinked', -, hCard, -⟩ := hLinked.schedule hSchedule'
    rw [ReadyLists.schedule_eq hp hUrgent]
    refine ⟨rfl, ?_, priorityOf_congr hCard⟩
    rw [ReadyLists.all_update]
    exact hLinked'

theorem Readies.call (h : Readies priority k q) {call : SchedulerCall} (hAdmits : q.Admits call) :
    (call.run k).1 = (q.call priority call).1 ∧
      Readies priority (call.run k).2 (q.call priority call).2 := by
  cases call with
  | queueTask task => exact ⟨rfl, h.queueTask hAdmits⟩
  | addToFront task => exact ⟨rfl, h.addToFront hAdmits⟩
  | schedule => exact h.schedule

theorem Readies.run {calls : List SchedulerCall} (h : Readies priority k q)
    (hAdmits : q.AdmitsAll priority calls) :
    (runScheduler k calls).1 = (q.calls priority calls).1 ∧
      Readies priority (runScheduler k calls).2 (q.calls priority calls).2 := by
  induction calls generalizing k q with
  | nil => exact ⟨rfl, h⟩
  | cons call calls ih =>
    obtain ⟨hAnswer, hReadies⟩ := h.call hAdmits.1
    obtain ⟨hAnswers, hRun⟩ := ih hReadies hAdmits.2
    exact ⟨congrArg₂ List.cons hAnswer hAnswers, hRun⟩

/-- The scheduler answers as the lists do, its mask and its queues show what the lists hold, and
the De Bruijn expression names the lowest set bit of every mask. -/
theorem scheduler_refines_lists (k : State) (calls : List SchedulerCall)
    (hAdmits : ReadyLists.AdmitsAll (priorityOf k) (fun _ => []) calls) :
    (runScheduler (initScheduler k) calls).1
        = (ReadyLists.calls (priorityOf k) (fun _ => []) calls).1 ∧
      Schedules (runScheduler (initScheduler k) calls).2
        (ReadyLists.calls (priorityOf k) (fun _ => []) calls).2 ∧
      ∀ x : Word, x ≠ 0 → x.getLsbD (scheduleIndex x) = true ∧
        ∀ i < scheduleIndex x, x.getLsbD i = false := by
  obtain ⟨hAnswers, hReadies⟩ := (readies_init k).run hAdmits
  exact ⟨hAnswers, hReadies.schedules, fun _ => scheduleIndex_lowest⟩

/-- Tasks of two priorities. -/
def twoPriorities : State :=
  { initState (fun _ => 0) 0 0 with
    tasks := fun t => { initTasks t with id := makeId t (t.val % 2) t } }

theorem scheduler_refines_lists_twoPriorities :
    (runScheduler (initScheduler twoPriorities)
      [.queueTask 1, .queueTask 3, .queueTask 2, .schedule, .addToFront 5, .schedule, .schedule,
        .schedule, .schedule]).1
      = [none, none, none, some 2, none, some 5, some 1, some 3, none] :=
  (scheduler_refines_lists twoPriorities _ (by decide)).1.trans rfl

end TrainKernel.Kernel
