import TrainKernel.Kernel.EventRuns
import TrainKernel.Kernel.Queues

/-!
# Enable bits and waiting tasks

AwaitEvent enables the interrupt that it waits for and the interrupt's branch disables it again.
For the two receive interrupts and the transmit interrupt of UART 2 the bit then says whether
somebody waits, so no byte is read that nobody gets.
-/

namespace TrainKernel.Kernel

open Function Library.Runs

/-- The event of an interrupt that an enable bit holds back. -/
def Cause.event? : Cause → Option Event
  | .uart1Xmit => some uart1XmitEvent
  | .uart1Recv _ => some uart1RecvEvent
  | .uart2Recv _ => some uart2RecvEvent
  | .uart2Xmit => some uart2XmitEvent
  | _ => none

/-- What has been read from a data register. -/
def Cause.byte? : Cause → Option Byte
  | .uart1Recv c | .uart2Recv c => some c
  | _ => none

/-- An interrupt is raised only while it is enabled, and each event has one waiting task at most. -/
def oneWaiter (_ : EventHistory) (k : State) (i : EventInput) : Prop :=
  (∀ cause event, i.cause? = some cause → cause.event? = some event → k.enabled event = true) ∧
    ∀ active word event, i = .awaitEvent active word → word.toNat = event.val →
      k.eventTable event = none

def matchedEvents : List Event := [uart1RecvEvent, uart2RecvEvent, uart2XmitEvent]

/-- The byte is the result of the task's AwaitEvent, and the task is the last one in its queue. -/
structure HandsOver (k k' : State) (event : Event) (c : Byte) (t : TaskPtr) : Prop where
  waiting : k.eventTable event = some t
  free : k'.eventTable event = none
  ret : (k'.tasks t).ret = c.setWidth 32
  ready : (k'.readyQueues (taskGetPriority (k'.tasks t))).tail = some t

def Events.Matched (v : Events) : Prop :=
  ∀ event ∈ matchedEvents, v.enabled event = (v.waiting event).isSome

variable {v v' : Events} {cause : Cause} {event : Event} {t : TaskPtr} {c : Byte}
variable {mem : Mem} {uart1Ctlr uart2Ctlr : Word} {h : EventHistory} {k k' : State}
variable {i : EventInput} {o : Option TaskPtr}

/-- It is enough to look at the one event that a step is about. -/
theorem Events.Matched.congr (hMatched : v.Matched) (event : Event)
    (hOther : ∀ other, other ≠ event →
      v'.waiting other = v.waiting other ∧ v'.enabled other = v.enabled other)
    (hSelf : event ∈ matchedEvents → v'.enabled event = (v'.waiting event).isSome) :
    v'.Matched := by
  intro other hMem
  by_cases hEvent : other = event
  · subst hEvent
    exact hSelf hMem
  · obtain ⟨hWaiting, hEnabled⟩ := hOther other hEvent
    rw [hWaiting, hEnabled]
    exact hMatched other hMem

theorem Events.Matched.passByte (hMatched : v.Matched) (event : Event) :
    (v.passByte event).Matched := by
  rw [Events.passByte]
  split
  · exact hMatched
  · refine hMatched.congr event (fun other hOther => ?_) fun _ => ?_
    · exact ⟨unblock_of_ne hOther, enable_of_ne (v := v.unblock event) hOther⟩
    · have hFree : ((v.unblock event).enable event false).waiting event = none := unblock_self
      rw [hFree]
      exact enable_self

theorem Events.Matched.respond (hMatched : v.Matched) (cause : Cause) :
    (v.respond cause).Matched := by
  have hTimer : timerEvent ∉ matchedEvents := by decide
  have hXmit : uart1XmitEvent ∉ matchedEvents := by decide
  cases cause with
  | timer =>
    exact hMatched.congr timerEvent (fun _ hOther => ⟨unblock_of_ne hOther, rfl⟩)
      fun hMem => absurd hMem hTimer
  | modem clearToSend =>
    rw [Events.respond]
    split
    · exact hMatched.congr uart1XmitEvent (fun _ hOther => ⟨unblock_of_ne hOther, rfl⟩)
        fun hMem => absurd hMem hXmit
    · exact hMatched
  | uart1Xmit =>
    refine hMatched.congr uart1XmitEvent (fun other hOther => ?_) fun hMem => absurd hMem hXmit
    have hEnabled : (v.enable uart1XmitEvent false).enabled other = v.enabled other :=
      enable_of_ne hOther
    rw [Events.respond]
    split
    · exact ⟨unblock_of_ne hOther, hEnabled⟩
    · exact ⟨rfl, hEnabled⟩
  | uart1Recv c => exact hMatched.passByte uart1RecvEvent
  | uart2Recv c => exact hMatched.passByte uart2RecvEvent
  | uart2Xmit =>
    refine hMatched.congr uart2XmitEvent (fun other hOther => ?_) fun _ => ?_
    · exact ⟨unblock_of_ne hOther, enable_of_ne (v := v) hOther⟩
    · have hDisabled : (v.enable uart2XmitEvent false).enabled uart2XmitEvent = false :=
        enable_self
      rw [Events.respond, unblock_self]
      exact hDisabled
  | uart1Other => exact hMatched
  | soft => exact hMatched

theorem Events.Matched.await (hMatched : v.Matched) (active : TaskPtr) (event : Event) :
    (v.await active event).Matched := by
  refine hMatched.congr event (fun _ hOther => await_of_ne v active hOther) fun hMem => ?_
  have hEvent : event ≠ timerEvent := fun hTimer => by
    subst hTimer
    exact absurd hMem (by decide)
  obtain ⟨hWaiting, hEnabled⟩ := await_self v active hEvent
  rw [hWaiting, hEnabled]
  rfl

theorem Events.Matched.after (hMatched : v.Matched) (i : EventInput) : (v.after i).Matched := by
  cases i with
  | interrupt hw =>
    rw [Events.after]
    cases hw.cause with
    | none => exact hMatched
    | some cause => exact hMatched.respond cause
  | awaitEvent active event =>
    rw [Events.after]
    split
    · exact hMatched.await active _
    · exact hMatched
  | other => exact hMatched

theorem setUARTCtrl_frame (k : State) (event : Event) (val : Bool) :
    (setUARTCtrl k event val).tasks = k.tasks ∧
      (setUARTCtrl k event val).readyQueues = k.readyQueues ∧
      (setUARTCtrl k event val).eventTable = k.eventTable := by
  obtain ⟨uart1Ctlr, uart2Ctlr, hSame⟩ := setUARTCtrl_eq k event val
  rw [hSame]
  exact ⟨rfl, rfl, rfl⟩

theorem queueTask_tail (k : State) (t : TaskPtr) :
    ((queueTask k t).readyQueues (taskGetPriority (k.tasks t))).tail = some t := by
  rw [queueTask]
  dsimp only
  split <;> simp

/-- The task that `unblock` puts into its queue. -/
theorem unblock_task (hTask : k.eventTable event = some t) (ret : Word) :
    (unblock k event ret).tasks = (queueTask (taskSetRet k t ret) t).tasks ∧
      (unblock k event ret).readyQueues = (queueTask (taskSetRet k t ret) t).readyQueues ∧
      (unblock k event ret).eventTable event = none := by
  rw [unblock]
  split
  case h_1 hNone =>
    rw [hTask] at hNone
    cases hNone
  case h_2 td hSome =>
    obtain rfl := Option.some.inj (hSome.symm.trans hTask)
    exact ⟨rfl, rfl, update_self ..⟩

theorem passByte_handsOver (hTask : k.eventTable event = some t) (c : Byte) :
    HandsOver k (passByte k event c) event c t := by
  obtain ⟨hTasks, hReady, hFree⟩ := unblock_task hTask (c.setWidth 32)
  obtain ⟨hTasks', hReady', hFree'⟩ := setUARTCtrl_frame (unblock k event (c.setWidth 32)) event
    false
  have hCard := congrFun (queueTask_card (taskSetRet k t (c.setWidth 32)) t) t
  have hRet : ((queueTask (taskSetRet k t (c.setWidth 32)) t).tasks t).ret = c.setWidth 32 :=
    (congrArg TaskDescriptor.ret hCard).trans (by simp [State.card, taskSetRet, State.modify])
  have hId : taskGetPriority ((queueTask (taskSetRet k t (c.setWidth 32)) t).tasks t) =
      taskGetPriority ((taskSetRet k t (c.setWidth 32)).tasks t) :=
    (congrArg taskGetPriority hCard :)
  rw [passByte, if_neg (by simp [hTask])]
  refine ⟨hTask, ?_, ?_, ?_⟩
  · rw [hFree', hFree]
  · rw [hTasks', hTasks, hRet]
  · rw [hTasks', hReady', hTasks, hReady, hId]
    exact queueTask_tail _ t

theorem run_matched (hClear : ∀ event, (initState mem uart1Ctlr uart2Ctlr).enabled event = false)
    (hRun : (eventMachine mem uart1Ctlr uart2Ctlr).Run oneWaiter h k) : k.events.Matched := by
  refine hRun.invariant (fun _ k => k.events.Matched) (fun event _ => hClear event) ?_
  intro h k i k' o hMatched _ hStep
  rw [EventStep.events hStep]
  exact hMatched.after i

theorem received_passByte (k : State) (hEvent : cause.event? = some event)
    (hByte : cause.byte? = some c) : respond k cause = passByte k event c := by
  cases cause with
  | uart1Recv c | uart2Recv c =>
    cases hEvent
    cases hByte
    rfl
  | _ => cases hByte

/-- A bit is set exactly when somebody waits, and every byte that is read has somebody to get it. -/
theorem enabled_iff_waiting
    (hClear : ∀ event, (initState mem uart1Ctlr uart2Ctlr).enabled event = false)
    (hRun : (eventMachine mem uart1Ctlr uart2Ctlr).Run oneWaiter h k) :
    (∀ event ∈ matchedEvents, k.enabled event = (k.eventTable event).isSome) ∧
      ∀ i k' o cause event c, oneWaiter h k i → EventStep k i k' o → i.cause? = some cause →
        cause.event? = some event → cause.byte? = some c → ∃ t, HandsOver k k' event c t := by
  have hMatched := run_matched hClear hRun
  refine ⟨hMatched, ?_⟩
  intro i k' o cause event c hAllowed hStep hCause hEvent hByte
  have hEnabled := hAllowed.1 cause event hCause hEvent
  have hMem : event ∈ matchedEvents := by
    cases cause with
    | uart1Recv | uart2Recv =>
      cases hEvent
      decide
    | _ => cases hByte
  have hWaiting : (k.eventTable event).isSome := (hMatched event hMem).symm.trans hEnabled
  obtain ⟨t, hTask⟩ := Option.isSome_iff_exists.mp hWaiting
  obtain ⟨rfl, -⟩ := hStep.responds hCause
  rw [received_passByte k hEvent hByte]
  exact ⟨t, passByte_handsOver hTask c⟩

/-- Somebody waits for the terminal and an `A` comes in. -/
theorem enabled_iff_waiting_key : ∃ k k' t,
    (eventMachine (fun _ => 0) 0 0).Run oneWaiter [(.awaitEvent 5 3, none)] k ∧
      k.enabled uart2RecvEvent = (k.eventTable uart2RecvEvent).isSome ∧
      handleInterrupt k ⟨1 <<< 25, 0, 0, 0, 0, 0x41⟩ = some k' ∧
      HandsOver k k' uart2RecvEvent 0x41 t := by
  have hStart : EventsReached (fun _ => 0) 0 0 oneWaiter [] _ := EventsReached.start
  obtain ⟨k, hRun, hk⟩ := hStart.awaitEvent 5 uart2RecvEvent fun k hk =>
    ⟨nofun, fun _ _ event _ _ => congrArg (fun v => v.waiting event) hk⟩
  have hCause : EventInput.cause? (.interrupt ⟨1 <<< 25, 0, 0, 0, 0, 0x41⟩) =
      some (.uart2Recv 0x41) := by decide
  have hHandle : handleInterrupt k ⟨1 <<< 25, 0, 0, 0, 0, 0x41⟩ =
      some (respond k (.uart2Recv 0x41)) := by
    rw [handleInterrupt_eq]
    exact congrArg (Option.map (respond k)) hCause
  have hAllowed : oneWaiter [(.awaitEvent 5 3, none)] k
      (.interrupt ⟨1 <<< 25, 0, 0, 0, 0, 0x41⟩) := by
    refine ⟨fun cause event hOf hEvent => ?_, nofun⟩
    cases hCause.symm.trans hOf
    cases hEvent
    exact congrArg (fun v => v.enabled uart2RecvEvent) hk
  obtain ⟨hBits, hBytes⟩ := enabled_iff_waiting (by decide) hRun
  obtain ⟨t, hOver⟩ := hBytes _ _ _ _ _ _ hAllowed (.interrupt hHandle) hCause rfl rfl
  exact ⟨k, _, t, hRun, hBits uart2RecvEvent (by decide), hHandle, hOver⟩

end TrainKernel.Kernel
