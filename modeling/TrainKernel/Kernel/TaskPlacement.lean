import TrainKernel.Kernel.Tracking

/-!
# Every live task is in exactly one place

The invariant of the handlers holds in every state of the main loop. Read without the
invariant it says where each task that is live and does not run can be found.
-/

namespace TrainKernel.Kernel

open Function Library.Links Library.Rendezvous

variable {k k' : State} {h : History} {t : TaskPtr} {running : Option TaskPtr}

theorem initState_placed (mem : Mem) (uart1Ctlr uart2Ctlr : Word) :
    Placed (initState mem uart1Ctlr uart2Ctlr) (fun _ => []) fun _ => .absent := by
  refine ⟨fun _ => [], fun _ => rfl, ⟨⟨?_, (by simp)⟩, ?_⟩, ?_⟩
  · intro i
    cases i <;> exact ⟨rfl, rfl⟩
  · intro p
    simp [initState]
  · intro x
    refine ⟨⟨rfl, iff_of_false (fun hId => hId rfl) (fun hp => hp rfl), fun hp => absurd rfl hp,
      by simp⟩, ?_, ?_, by simp, fun _ => rfl, fun hp => absurd rfl hp⟩
    · intro i
      simp [Place.queue]
    · intro e
      simp [initState]

theorem taskCreate_bootstrap (mem : Mem) (uart1Ctlr uart2Ctlr : Word) {bootstrapTask : Word}
    (hCode : bootstrapTask ≠ 0) :
    (taskCreate (initState mem uart1Ctlr uart2Ctlr) priorityInit bootstrapTask 0).1 =
      Int.ofNat (makeId 1 0 1) := by
  have hArgs :
      ¬(priorityInit < 0 ∨ (taskMaxPriority : Int) ≤ priorityInit ∨ bootstrapTask = 0) := by
    rintro (hLow | hHigh | hNull)
    · exact absurd hLow (by decide)
    · exact absurd hHigh (by decide)
    · exact hCode hNull
  have hRoom : ¬taskMaxTasks ≤ (initState mem uart1Ctlr uart2Ctlr).nextUniqueTaskId :=
    (by decide : ¬taskMaxTasks ≤ 1)
  have hStack : ¬(initState mem uart1Ctlr uart2Ctlr).currentStackAddress - 4 * taskStackSize -
      4 * taskTrapSize < taskStackLow :=
    (by decide : ¬taskStackHigh - 4 * taskStackSize - 4 * taskTrapSize < taskStackLow)
  simp only [taskCreate, if_neg hArgs, dif_neg hRoom, if_neg hStack]
  rfl

theorem initKernel_placed (mem : Mem) (uart1Ctlr uart2Ctlr : Word) {bootstrapTask : Word}
    (hCode : bootstrapTask ≠ 0) : Placed (initKernel mem uart1Ctlr uart2Ctlr bootstrapTask)
      (fun _ => []) (update (fun _ => .absent) 1 .ready) := by
  have hRet := taskCreate_bootstrap mem uart1Ctlr uart2Ctlr hCode
  rcases Keeps.taskCreate (initState_placed mem uart1Ctlr uart2Ctlr) Nat.one_pos priorityInit
    bootstrapTask 0 with ⟨hFail, -⟩ | ⟨id, index, hId, hIndex, -, -, hKeeps⟩
  · rw [hRet] at hFail
    exact absurd hFail (by decide)
  · obtain rfl : makeId 1 0 1 = id := Int.ofNat.inj (hRet.symm.trans hId)
    obtain rfl : 1 = index := hIndex
    have hGet : taskGetTDById (Int.ofNat (makeId 1 0 1)).toNat = some 1 := by decide
    have hQueued := hKeeps.placed.queueTask (update_self ..)
    rw [update_idem] at hQueued
    simp only [initKernel, hRet, hGet]
    exact hQueued

theorem parked_start (mem : Mem) (uart1Ctlr uart2Ctlr : Word) {bootstrapTask : Word}
    (hCode : bootstrapTask ≠ 0) :
    Parked (initKernel mem uart1Ctlr uart2Ctlr bootstrapTask) .start := by
  have hIdle : ∀ x : TaskPtr, (update (fun _ => Place.absent) 1 .ready x).phase = .idle := by
    intro x
    by_cases hx : x = 1 <;> simp [hx, Place.phase]
  refine ⟨_, _, ⟨initKernel_placed mem uart1Ctlr uart2Ctlr hCode, ?_, ?_, ?_⟩, ?_⟩
  · have hInitial : exchange .start (fun _ => []) (update (fun _ => Place.absent) 1 .ready) =
        Exchange.initial TaskPtr := by
      simp only [exchange, hIdle]
      rfl
    rw [hInitial]
    exact .initial
  · intro x
    rw [hIdle]
    trivial
  · intro x
    have hBootstrap : History.start.live x = decide (x = 1) := by
      rw [Bool.eq_iff_iff, decide_eq_true_iff, Fin.ext_iff]
      exact decide_eq_true_iff
    rw [hBootstrap]
    by_cases hx : x = 1 <;> simp [hx]
  · intro x
    by_cases hx : x = 1 <;> simp [hx]

theorem Parked.dispatch {turn : Turn} (hPark : Parked k h)
    (hDispatch : dispatch k turn = some (t, k')) : Running t k' h := by
  obtain ⟨mail, place, hTracks, hIdle⟩ := hPark
  rw [Kernel.dispatch, Option.map_eq_some_iff] at hDispatch
  obtain ⟨⟨t', k₁⟩, hSchedule, hEq⟩ := hDispatch
  cases hEq
  obtain ⟨hPlaced, hReady, hCard⟩ := hTracks.placed.schedule hSchedule
  have hPhase (x : TaskPtr) : (update place t .running x).phase = (place x).phase :=
    phase_update (by rw [hReady]; rfl) rfl x
  refine ⟨mail, _, ⟨(hPlaced.setMem turn.mem).modify_running (fun _ _ => rfl) (update_self ..)
    (fun _ => rfl) fun _ => rfl, ?_, ?_, ?_⟩, ?_⟩
  · simp only [exchange, hPhase]
    exact hTracks.protocol
  · intro x
    rw [hPhase]
    by_cases hx : x = t
    · subst hx
      rw [hReady]
      trivial
    · rw [card_modify _ _ fun _ _ => rfl, update_of_ne hx, setMem_card, hCard]
      exact hTracks.holds x
  · exact live_update hTracks.live (by simp [hReady]) (by simp)
  · intro x
    by_cases hx : x = t
    · subst hx
      simp
    · simp [hx, hIdle]

/-- Between two iterations no task runs, and while a task runs only that one does. -/
theorem Reaches.tracked (hReach : Reaches running k h) : ∃ mail place, Tracks k mail place h ∧
    ∀ x, place x = .running ↔ running = some x := by
  induction hReach with
  | start mem uart1Ctlr uart2Ctlr hCode =>
    obtain ⟨mail, place, hTracks, hIdle⟩ := parked_start mem uart1Ctlr uart2Ctlr hCode
    exact ⟨mail, place, hTracks, by simp [hIdle]⟩
  | dispatch _ hDispatch ih =>
    obtain ⟨mail, place, hTracks, hIdle⟩ := ih
    obtain ⟨mail, place, hTracks, hOnly⟩ :=
      Parked.dispatch ⟨mail, place, hTracks, by simpa using hIdle⟩ hDispatch
    exact ⟨mail, place, hTracks, by simp [hOnly, eq_comm]⟩
  | handle _ hAllowed hHandle ih =>
    obtain ⟨mail, place, hTracks, hOnly⟩ := ih
    obtain ⟨mail, place, hTracks, hIdle⟩ := Running.handleRequest
      ⟨mail, place, hTracks, by simpa [eq_comm] using hOnly⟩ hAllowed hHandle
    exact ⟨mail, place, hTracks, by simp [hIdle]⟩

inductive Spot where
  | readyQueue
  | sendQueue (r : TaskPtr)
  | receive
  | reply (r : TaskPtr)
  | event (e : Event)

def Spot.queued : Spot → Bool
  | .readyQueue => true
  | .sendQueue _ => true
  | _ => false

/-- Task `t` is found at the spot, when the queues hold `lists`. -/
def Found (k : State) (lists : QueueId → List TaskPtr) (h : History) (t : TaskPtr) :
    Spot → Prop
  | .readyQueue => (lists (.ready (taskGetPriority (k.tasks t)))).count t = 1
  | .sendQueue r => (lists (.mail r)).count t = 1 ∧ (k.tasks t).status = .sendBlock ∧
      sendTarget (h.lastSend t).2 = some r
  | .receive => (k.tasks t).status = .receiveBlock ∧ lists (.mail t) = []
  | .reply r => (k.tasks t).status = .replyBlock ∧ (k.tasks t).originalReceiverId = r ∧
      sendTarget (h.lastSend t).2 = some r
  | .event e => k.eventTable e = some t

def Place.spot : Place → Option Spot
  | .ready => some .readyQueue
  | .sending r => some (.sendQueue r)
  | .receiving => some .receive
  | .replying r => some (.reply r)
  | .awaiting e => some (.event e)
  | _ => none

theorem Place.spot_isSome {p : Place} (hAbsent : p ≠ .absent) (hRunning : p ≠ .running) :
    ∃ spot, p.spot = some spot := by
  cases p <;> first | exact ⟨_, rfl⟩ | exact absurd rfl hAbsent | exact absurd rfl hRunning

theorem Place.queue_of_spot {p : Place} {spot : Spot} (hSpot : p.spot = some spot)
    (hQueued : spot.queued = false) (priority : Priority) : p.queue priority = none := by
  cases p <;> first | rfl | (cases hSpot; cases hQueued)

variable {lists : QueueId → List TaskPtr} {p : Place}

theorem At.found_iff (hAt : At k lists t p) (hNodup : ∀ i, (lists i).Nodup)
    (hHolds : Holds (k.card t) (h.lastSend t).2 (h.lastReceive t) p.phase) (spot : Spot) :
    Found k lists h t spot ↔ p.spot = some spot := by
  have hStatus : (k.tasks t).status = p.status := hAt.fits.status
  have hCount (i : QueueId) : (lists i).count t = 1 ↔
      p.queue (taskGetPriority (k.tasks t)) = some i := by
    have hOne : (lists i).count t = 1 ↔ t ∈ lists i := by
      rw [(hNodup i).count]
      simp
    exact hOne.trans (hAt.member i)
  cases spot with
  | readyQueue =>
    rw [Found, hCount]
    cases p <;> simp [Place.queue, Place.spot]
  | sendQueue r =>
    rw [Found, hCount, hStatus]
    cases p <;> simp [Place.queue, Place.spot, Place.status]
    rintro rfl
    exact hHolds.1
  | receive =>
    rw [Found, hStatus]
    cases p <;> simp [Place.spot, Place.status]
    exact hAt.quiet rfl
  | reply r =>
    rw [Found, hStatus]
    cases p <;> simp [Place.spot, Place.status]
    rename_i r'
    have hOrigin : (k.tasks t).originalReceiverId = r' := hAt.fits.origin r' rfl
    have hTarget : sendTarget (h.lastSend t).2 = some r' := hHolds.1
    rw [hOrigin, hTarget]
    simp only [Option.some.injEq, Fin.ext_iff]
    omega
  | event e =>
    rw [Found, hAt.event]
    cases p <;> simp [Place.spot]

/-- In every state of the main loop each ready queue and each send queue holds a list, the
lists have no task in common and none twice, a live task that is not running is found at
exactly one spot, which is in a list only if it is a queue, and the running task and the tasks
that are not live at none. -/
theorem task_placement (hReach : Reaches running k h) : ∃ lists : QueueId → List TaskPtr,
    (∀ i, Represents k.next (k.queue i) (lists i)) ∧ (∀ i, (lists i).Nodup) ∧
    (∀ i j x, x ∈ lists i → x ∈ lists j → i = j) ∧
    (∀ t, h.live t = true → running ≠ some t → ∃! spot, Found k lists h t spot) ∧
    (∀ t spot, Found k lists h t spot → spot.queued = false → ∀ i, t ∉ lists i) ∧
    ∀ t, (h.live t = false ∨ running = some t) → ∀ spot, ¬Found k lists h t spot := by
  obtain ⟨mail, place, hTracks, hRunning⟩ := hReach.tracked
  obtain ⟨lists, -, hPlaced⟩ := hTracks.placed
  have hFamily := hPlaced.linked.family
  have hFound (t : TaskPtr) (spot : Spot) :
      Found k lists h t spot ↔ (place t).spot = some spot :=
    (hPlaced.at_place t).found_iff hFamily.nodup (hTracks.holds t) spot
  refine ⟨lists, hFamily.represents, hFamily.nodup, hFamily.apart, ?_, ?_, ?_⟩
  · intro t hLive hNot
    obtain ⟨spot, hSpot⟩ := Place.spot_isSome ((hTracks.live t).mp hLive)
      fun hRun => hNot ((hRunning t).mp hRun)
    refine ⟨spot, (hFound t spot).mpr hSpot, ?_⟩
    intro spot' hSpot'
    exact Option.some.inj (((hFound t spot').mp hSpot').symm.trans hSpot)
  · intro t spot hSpot hQueued i hMem
    have hQueue := ((hPlaced.at_place t).member i).mp hMem
    rw [Place.queue_of_spot ((hFound t spot).mp hSpot) hQueued] at hQueue
    cases hQueue
  · rintro t hOut spot hSpot
    rw [hFound] at hSpot
    rcases hOut with hDead | hRun
    · have hAbsent : place t = .absent := by
        by_contra hLive
        rw [(hTracks.live t).mpr hLive] at hDead
        cases hDead
      rw [hAbsent] at hSpot
      cases hSpot
    · rw [(hRunning t).mpr hRun] at hSpot
      cases hSpot

/-- The tasks make these calls, each the one that is scheduled, and memory stays as the kernel
leaves it. -/
def runCalls (k : State) (h : History) : List Syscall → Option (State × History)
  | [] => some (k, h)
  | call :: calls => do
    let (t, k) ← dispatch k ⟨.request call, k.mem, 0⟩
    let k' ← handleRequest k t (.request call)
    runCalls k' (h.record k t (.request call)) calls

theorem Reaches.runCalls {calls : List Syscall} (hReach : Reaches none k h)
    (hAwait : ∀ call ∈ calls, call.type ≠ sysAwaitEvent) {r : State × History}
    (hRun : runCalls k h calls = some r) : Reaches none r.1 r.2 := by
  induction calls generalizing k h with
  | nil =>
    cases hRun
    exact hReach
  | cons call calls ih =>
    obtain ⟨⟨t, k₁⟩, hDispatch, hRun⟩ := Option.bind_eq_some_iff.mp hRun
    obtain ⟨k₂, hHandle, hRun⟩ := Option.bind_eq_some_iff.mp hRun
    have hAllowed : Allowed k₁ (.request call) := fun hType =>
      absurd hType (hAwait call List.mem_cons_self)
    exact ih ((hReach.dispatch hDispatch).handle hAllowed hHandle)
      (fun call hCall => hAwait call (List.mem_cons_of_mem _ hCall)) hRun

/-- Two more tasks are created, of which the second one waits in Receive. The third one and the
first one send to it; it replies to the third one, which goes on to Receive itself. -/
def exchangeCalls : List Syscall :=
  [{ type := sysCreate, arg1 := 0, arg2 := 1 },
    { type := sysReceive, arg1 := 0x100, arg2 := 0x200, arg3 := 8 },
    { type := sysCreate, arg1 := 0, arg2 := 1 },
    { type := sysSend, arg1 := 2, arg2 := 0x300, arg3 := 5, arg4 := 0x400, arg5 := 4 },
    { type := sysSend, arg1 := 2, arg2 := 0x500, arg3 := 3, arg4 := 0x600, arg5 := 4 },
    { type := sysReply, arg1 := 3, arg2 := 0x200, arg3 := 4 },
    { type := sysReceive, arg1 := 0x100, arg2 := 0x700, arg3 := 8 }]

theorem task_placement_exchange : ∃ k h, Reaches none k h ∧ ∃ lists : QueueId → List TaskPtr,
    (lists (.mail 2) = [1] ∧ ∃! spot, Found k lists h 1 spot) ∧
    (lists (.ready 0) = [2] ∧ ∃! spot, Found k lists h 2 spot) ∧
    (∃! spot, Found k lists h 3 spot) ∧ Found k lists h 3 .receive ∧ ∀ i, 3 ∉ lists i := by
  have hAny : (runCalls (initKernel (fun _ => 0) 0 0 1) .start exchangeCalls).any (fun r =>
      decide ((r.1.next 1 = none ∧ (r.1.sendQueues 2).head = some 1 ∧
        (r.1.sendQueues 2).tail = some 1) ∧
      (r.1.next 2 = none ∧ (r.1.readyQueues 0).head = some 2 ∧
        (r.1.readyQueues 0).tail = some 2) ∧
      ((r.1.tasks 3).status = .receiveBlock ∧ (r.1.sendQueues 3).head = none ∧
        (r.1.sendQueues 3).tail = none) ∧
      r.2.live 1 = true ∧ r.2.live 2 = true ∧ r.2.live 3 = true)) = true := by
    decide +kernel
  obtain ⟨⟨k, h⟩, hRun, hFacts⟩ := (Option.any_eq_true _ _).mp hAny
  obtain ⟨⟨hNext, hHead, hTail⟩, ⟨hNext', hHead', hTail'⟩, ⟨hStatus, hEmpty, hEmpty'⟩, hLive⟩ :=
    of_decide_eq_true hFacts
  have hReach : Reaches none k h := (Reaches.start (fun _ => 0) 0 0 (by decide)).runCalls
    (by decide : ∀ call ∈ exchangeCalls, call.type ≠ sysAwaitEvent) hRun
  obtain ⟨lists, hRep, -, -, hOne, hApart, -⟩ := task_placement hReach
  have hThird : Found k lists h 3 .receive :=
    ⟨hStatus, (hRep (.mail 3)).unique ⟨hEmpty, hEmpty'⟩⟩
  refine ⟨k, h, hReach, lists, ⟨?_, hOne 1 hLive.1 (by decide)⟩,
    ⟨?_, hOne 2 hLive.2.1 (by decide)⟩, hOne 3 hLive.2.2 (by decide), hThird,
    hApart 3 .receive hThird rfl⟩
  · exact (hRep (.mail 2)).unique ⟨⟨hHead, hNext⟩, hTail⟩
  · exact (hRep (.ready 0)).unique ⟨⟨hHead', hNext'⟩, hTail'⟩

end TrainKernel.Kernel
