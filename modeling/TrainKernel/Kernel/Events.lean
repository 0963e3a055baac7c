import TrainKernel.Kernel.Main
import TrainKernel.Library.Runs

/-!
# Who waits for which event

Interrupts and AwaitEvent look at the event table, the two flags of UART 1 and the enable bits of
the UART control registers. What they do to them is told here apart from the rest of the kernel,
which does not touch them.
-/

namespace TrainKernel.Kernel

open Function Library.Runs

/-- What an interrupt turns out to be, with the byte that a receive interrupt has read. -/
inductive Cause where
  | timer
  | modem (clearToSend : Bool)
  | uart1Xmit
  | uart1Recv (c : Byte)
  | uart1Other
  | uart2Recv (c : Byte)
  | uart2Xmit
  | soft
deriving DecidableEq

def Hardware.cause (hw : Hardware) : Option Cause :=
  if hw.vic2Status &&& timer3Mask ≠ 0 then some .timer
  else if hw.vic2Status &&& uart1OrMask ≠ 0 then
    if hw.uart1IntStatus &&& orModemMask ≠ 0 then
      some (.modem (hw.uart1ModemStatus &&& ctsnMask ≠ 0 ∧ hw.uart1ModemStatus &&& dctsMask ≠ 0))
    else if hw.uart1IntStatus &&& orXmitMask ≠ 0 then some .uart1Xmit
    else if hw.uart1IntStatus &&& orRecvMask ≠ 0 then some (.uart1Recv hw.uart1Data)
    else some .uart1Other
  else if hw.vic1Status &&& uart2RecvMask ≠ 0 then some (.uart2Recv hw.uart2Data)
  else if hw.vic1Status &&& uart2XmitMask ≠ 0 then some .uart2Xmit
  else if hw.vic1Status &&& 1 ≠ 0 then some .soft
  else none

def passByte (k : State) (event : Event) (c : Byte) : State :=
  if k.eventTable event = none then k
  else setUARTCtrl (unblock k event (c.setWidth 32)) event false

def respond (k : State) : Cause → State
  | .timer => unblock k timerEvent 0
  | .modem clearToSend =>
    if clearToSend ∧ k.xmitRdy ≠ 0 then
      unblock { k with ctsOn := 0, xmitRdy := 0 } uart1XmitEvent (uart1Base + uartDataOffset)
    else { k with ctsOn := if clearToSend then 1 else 0 }
  | .uart1Xmit =>
    let k := setUARTCtrl k uart1XmitEvent false
    if k.ctsOn = 1 then
      unblock { k with ctsOn := 0, xmitRdy := 0 } uart1XmitEvent (uart1Base + uartDataOffset)
    else { k with xmitRdy := 1 }
  | .uart1Recv c => passByte k uart1RecvEvent c
  | .uart2Recv c => passByte k uart2RecvEvent c
  | .uart2Xmit =>
    unblock (setUARTCtrl k uart2XmitEvent false) uart2XmitEvent (uart2Base + uartDataOffset)
  | .uart1Other | .soft => k

theorem respond_modem (k : State) (cts dcts : Prop) [Decidable cts] [Decidable dcts] :
    (let k := { k with ctsOn := if cts ∧ dcts then 1 else 0 }
      if k.ctsOn ≠ 0 ∧ k.xmitRdy ≠ 0 then
        some (unblock { k with ctsOn := 0, xmitRdy := 0 } uart1XmitEvent
          (uart1Base + uartDataOffset))
      else some k) = some (respond k (.modem (cts ∧ dcts))) := by
  rw [respond]
  by_cases hClear : cts ∧ dcts
  · by_cases hReady : k.xmitRdy ≠ 0
    · simp [hClear, hReady]
    · simp [hClear, hReady]
  · simp [hClear]

theorem handleInterrupt_eq (k : State) (hw : Hardware) :
    handleInterrupt k hw = hw.cause.map (respond k) := by
  rw [handleInterrupt, Hardware.cause]
  simp only [apply_ite (Option.map (respond k)), Option.map_some, Option.map_none]
  rw [← respond_modem]
  congr
  · rw [respond]
    split <;> rfl
  · rw [respond, passByte]
    split <;> rfl
  · rw [respond, passByte]
    split <;> rfl

structure Events where
  waiting : Event → Option TaskPtr
  enabled : Event → Bool
  ctsOn : Int
  xmitRdy : Int

/-- The bit of a UART control register that lets the interrupt of the event through. -/
def State.enabled (k : State) (event : Event) : Bool :=
  if event = uart1RecvEvent then k.uart1Ctlr &&& rienMask ≠ 0
  else if event = uart1XmitEvent then k.uart1Ctlr &&& tienMask ≠ 0
  else if event = uart2RecvEvent then k.uart2Ctlr &&& rienMask ≠ 0
  else if event = uart2XmitEvent then k.uart2Ctlr &&& tienMask ≠ 0
  else false

def State.events (k : State) : Events := ⟨k.eventTable, k.enabled, k.ctsOn, k.xmitRdy⟩

namespace Events

variable (v : Events)

def unblock (event : Event) : Events := { v with waiting := update v.waiting event none }

def enable (event : Event) (val : Bool) : Events :=
  { v with enabled := update v.enabled event val }

/-- The transmitter is ready and clear to send: the task that waits may send one byte. -/
def spend : Events := { v with ctsOn := 0, xmitRdy := 0 }.unblock uart1XmitEvent

def passByte (event : Event) : Events :=
  if v.waiting event = none then v else (v.unblock event).enable event false

def respond : Cause → Events
  | .timer => v.unblock timerEvent
  | .modem clearToSend =>
    if clearToSend ∧ v.xmitRdy ≠ 0 then v.spend
    else { v with ctsOn := if clearToSend then 1 else 0 }
  | .uart1Xmit =>
    let v := v.enable uart1XmitEvent false
    if v.ctsOn = 1 then v.spend else { v with xmitRdy := 1 }
  | .uart1Recv _ => v.passByte uart1RecvEvent
  | .uart2Recv _ => v.passByte uart2RecvEvent
  | .uart2Xmit => (v.enable uart2XmitEvent false).unblock uart2XmitEvent
  | .uart1Other | .soft => v

def await (active : TaskPtr) (event : Event) : Events :=
  let v := if event = timerEvent then v else v.enable event true
  { v with waiting := update v.waiting event (some active) }

variable {v} {event other : Event}

theorem unblock_self : (v.unblock event).waiting event = none := by
  simp [unblock]

theorem unblock_of_ne (hOther : other ≠ event) :
    (v.unblock event).waiting other = v.waiting other := by
  simp [unblock, hOther]

theorem enable_self {val : Bool} : (v.enable event val).enabled event = val := by
  simp [enable]

theorem enable_of_ne {val : Bool} (hOther : other ≠ event) :
    (v.enable event val).enabled other = v.enabled other := by
  simp [enable, hOther]

theorem await_flags (v : Events) (active : TaskPtr) (event : Event) :
    (v.await active event).ctsOn = v.ctsOn ∧ (v.await active event).xmitRdy = v.xmitRdy := by
  rw [await]
  split <;> exact ⟨rfl, rfl⟩

theorem await_self (v : Events) (active : TaskPtr) (hEvent : event ≠ timerEvent) :
    (v.await active event).waiting event = some active ∧
      (v.await active event).enabled event = true := by
  rw [await, if_neg hEvent]
  exact ⟨by simp, enable_self⟩

theorem await_of_ne (v : Events) (active : TaskPtr) (hOther : other ≠ event) :
    (v.await active event).waiting other = v.waiting other ∧
      (v.await active event).enabled other = v.enabled other := by
  rw [await]
  split
  · simp [hOther]
  · exact ⟨by simp [hOther, enable], enable_of_ne hOther⟩

end Events

variable {k k' : State} {event : Event}

theorem event_cases : ∀ event : Event, event = timerEvent ∨ event = uart1RecvEvent ∨
    event = uart1XmitEvent ∨ event = uart2RecvEvent ∨ event = uart2XmitEvent := by
  decide

theorem put_and_self (mask : Word) (hMask : mask ≠ 0) (ctrl : Word) (val : Bool) :
    decide ((if val then ctrl ||| mask else ctrl &&& ~~~mask) &&& mask ≠ 0) = val := by
  cases val with
  | true =>
    have hSet : (ctrl ||| mask) &&& mask = mask := by
      ext i hi
      simp only [BitVec.getElem_and, BitVec.getElem_or]
      grind
    rw [if_pos rfl, hSet]
    exact decide_eq_true hMask
  | false =>
    have hClear : ctrl &&& ~~~mask &&& mask = 0 := by
      ext i hi
      simp only [BitVec.getElem_and, BitVec.getElem_not]
      grind
    rw [if_neg Bool.false_ne_true, hClear]
    rfl

theorem put_and_other (mask other : Word) (hApart : mask &&& other = 0) (ctrl : Word)
    (val : Bool) :
    (if val then ctrl ||| mask else ctrl &&& ~~~mask) &&& other = ctrl &&& other := by
  have hBits (i : Nat) (hi : i < 32) : (mask[i] && other[i]) = false := by
    rw [← BitVec.getElem_and, hApart]
    simp
  cases val with
  | true =>
    rw [if_pos rfl]
    ext i hi
    have := hBits i hi
    simp only [BitVec.getElem_and, BitVec.getElem_or]
    grind
  | false =>
    rw [if_neg Bool.false_ne_true]
    ext i hi
    have := hBits i hi
    simp only [BitVec.getElem_and, BitVec.getElem_not]
    grind

theorem setUARTCtrl_enabled (k : State) (hEvent : event ≠ timerEvent) (val : Bool) :
    (setUARTCtrl k event val).enabled = update k.enabled event val := by
  have hRecv (ctrl : Word) := put_and_self rienMask (by decide) ctrl val
  have hXmit (ctrl : Word) := put_and_self tienMask (by decide) ctrl val
  have hRecvXmit (ctrl : Word) := congrArg (fun word : Word => decide (word ≠ 0))
    (put_and_other rienMask tienMask (by decide) ctrl val)
  have hXmitRecv (ctrl : Word) := congrArg (fun word : Word => decide (word ≠ 0))
    (put_and_other tienMask rienMask (by decide) ctrl val)
  funext other
  rcases event_cases event with rfl | rfl | rfl | rfl | rfl
  · exact absurd rfl hEvent
  all_goals
    rcases event_cases other with rfl | rfl | rfl | rfl | rfl
    all_goals
      first
      | rfl
      | exact hRecv _
      | exact hXmit _
      | exact hRecvXmit _
      | exact hXmitRecv _

theorem setUARTCtrl_eq (k : State) (event : Event) (val : Bool) : ∃ uart1Ctlr uart2Ctlr,
    setUARTCtrl k event val = { k with uart1Ctlr := uart1Ctlr, uart2Ctlr := uart2Ctlr } := by
  simp only [setUARTCtrl]
  split
  · exact ⟨_, k.uart2Ctlr, rfl⟩
  split
  · exact ⟨_, k.uart2Ctlr, rfl⟩
  split
  · exact ⟨k.uart1Ctlr, _, rfl⟩
  split
  · exact ⟨k.uart1Ctlr, _, rfl⟩
  · exact ⟨k.uart1Ctlr, k.uart2Ctlr, rfl⟩

theorem setUARTCtrl_events (k : State) (hEvent : event ≠ timerEvent) (val : Bool) :
    (setUARTCtrl k event val).events = k.events.enable event val := by
  rw [State.events, setUARTCtrl_enabled k hEvent]
  obtain ⟨uart1Ctlr, uart2Ctlr, hSame⟩ := setUARTCtrl_eq k event val
  rw [hSame]
  rfl

@[simp] theorem modify_events (k : State) (t : TaskPtr) (f : TaskDescriptor → TaskDescriptor) :
    (k.modify t f).events = k.events := rfl

@[simp] theorem queueTask_events (k : State) (t : TaskPtr) :
    (queueTask k t).events = k.events := by
  rw [queueTask]
  split <;> rfl

theorem unblock_events (k : State) (event : Event) (ret : Word) :
    (unblock k event ret).events = k.events.unblock event := by
  rw [unblock]
  split
  · rename_i hNone
    rw [Events.unblock, update_eq_self_iff.mpr (show none = k.events.waiting event from hNone.symm)]
  · rename_i td hTask
    dsimp only
    have hQueued := queueTask_events (taskSetRet k td ret) td
    rw [taskSetRet, modify_events] at hQueued
    rw [← hQueued]
    rfl

theorem passByte_events (k : State) (hEvent : event ≠ timerEvent) (c : Byte) :
    (passByte k event c).events = k.events.passByte event := by
  rw [passByte, Events.passByte, ← unblock_events k event (c.setWidth 32),
    ← setUARTCtrl_events _ hEvent]
  exact apply_ite State.events _ _ _

theorem respond_events (k : State) (cause : Cause) :
    (respond k cause).events = k.events.respond cause := by
  cases cause with
  | timer => exact unblock_events k timerEvent 0
  | modem clearToSend =>
    rw [respond, apply_ite State.events, unblock_events]
    rfl
  | uart1Xmit =>
    have hEnable := setUARTCtrl_events k (by decide : uart1XmitEvent ≠ timerEvent) false
    rw [respond, Events.respond, ← hEnable, apply_ite State.events, unblock_events]
    rfl
  | uart1Recv c => exact passByte_events k (by decide) c
  | uart1Other => rfl
  | uart2Recv c => exact passByte_events k (by decide) c
  | uart2Xmit =>
    rw [respond, unblock_events, setUARTCtrl_events k (by decide)]
    rfl
  | soft => rfl

theorem awaitInterrupt_events (k : State) (active : TaskPtr) (event : Word) :
    (awaitInterrupt k active event).2.events =
      if h : event.toNat < 5 then k.events.await active ⟨event.toNat, h⟩ else k.events := by
  rw [awaitInterrupt]
  split
  · rw [dif_neg (by omega)]
  · rw [dif_pos (by omega), Events.await]
    dsimp only
    split
    · rfl
    · rename_i hEvent
      rw [← setUARTCtrl_events k hEvent]
      rfl

@[simp] theorem setMem_events (k : State) (mem : Mem) : (k.setMem mem).events = k.events := rfl

theorem addToFront_events (k : State) (t : TaskPtr) : (addToFront k t).events = k.events := by
  rw [addToFront]
  split <;> rfl

theorem finish_events (k : State) (t : TaskPtr) (ret : Word) :
    (finish k t ret).events = k.events := by
  rw [finish, queueTask_events]
  rfl

theorem enqueueSender_events (k : State) (sendingTask receivingTask : TaskPtr) :
    (enqueueSender k sendingTask receivingTask).events = k.events := by
  rw [enqueueSender]
  split <;> rfl

theorem handleSend_events (k : State) (t : TaskPtr) (request : Syscall) :
    (handleSend k t request).events = k.events := by
  rw [handleSend]
  split
  · exact finish_events k t _
  split
  · exact finish_events k t _
  dsimp only
  split
  · rw [receiveFirst, queueTask_events]
    rfl
  · rw [sendFirst, modify_events, enqueueSender_events]
    rfl

theorem handleReceive_events (k : State) (t : TaskPtr) (request : Syscall) :
    (handleReceive k t request).events = k.events := by
  rw [handleReceive]
  split
  · rfl
  · rw [queueTask_events]
    rfl

theorem handleReply_events (k : State) (t : TaskPtr) (request : Syscall) :
    (handleReply k t request).events = k.events := by
  rw [handleReply]
  split
  · exact finish_events k t _
  split
  · exact finish_events k t _
  dsimp only
  split
  · exact finish_events k t _
  split
  · exact finish_events k t _
  · rw [queueTask_events, queueTask_events]
    rfl

theorem taskCreate_events (k : State) (priority : Int) (code : Word) (parentId : Nat) :
    (taskCreate k priority code parentId).2.events = k.events := by
  rw [taskCreate]
  split
  · rfl
  split
  · rfl
  dsimp only
  split <;> rfl

theorem taskSpawn_events (k : State) (priority : Int) (code argument : Word) (parentId : Nat) :
    (taskSpawn k priority code argument parentId).2.events = k.events := by
  have hCreate := taskCreate_events k priority code parentId
  rw [taskSpawn]
  dsimp only
  split <;> exact hCreate

theorem requestCreate_events (k : State) (t : TaskPtr) (request : Syscall) :
    (requestCreate k t request).events = k.events := by
  have hCreate := taskCreate_events k request.arg1.toInt request.arg2 (taskGetIndex (k.tasks t))
  rw [requestCreate]
  dsimp only
  split
  · split
    · exact hCreate
    · rw [queueTask_events]
      exact hCreate
  · exact hCreate

theorem requestSpawn_events (k : State) (t : TaskPtr) (request : Syscall) :
    (requestSpawn k t request).events = k.events := by
  have hSpawn := taskSpawn_events k request.arg1.toInt request.arg2 request.arg3
    (taskGetIndex (k.tasks t))
  rw [requestSpawn]
  split
  case h_1 hNone =>
    rw [hNone] at hSpawn
    exact hSpawn
  case h_2 hSome =>
    rw [hSome] at hSpawn
    dsimp only
    rw [taskSetRet, modify_events, queueTask_events]
    exact hSpawn

theorem dispatch_events {turn : Turn} {t : TaskPtr} (h : dispatch k turn = some (t, k')) :
    k'.events = k.events := by
  rw [dispatch, Option.map_eq_some_iff] at h
  obtain ⟨⟨task, k₁⟩, hSchedule, hRest⟩ := h
  obtain ⟨rfl, rfl⟩ := Prod.mk.inj hRest
  rw [modify_events, setMem_events]
  rw [schedule] at hSchedule
  split at hSchedule
  · cases hSchedule
  dsimp only at hSchedule
  split at hSchedule
  · cases hSchedule
  · obtain ⟨-, rfl⟩ := Prod.mk.inj (Option.some.inj hSchedule)
    split <;> rfl

end TrainKernel.Kernel
