import TrainKernel.Kernel.Events

/-!
# Runs of interrupts and waits

Any sequence of interrupts and AwaitEvent calls, by any tasks, while between them the kernel does
whatever leaves the event part of its state alone. The main loop makes such runs.
-/

namespace TrainKernel.Kernel

open Function Library.Runs

inductive EventInput where
  | interrupt (hw : Hardware)
  | awaitEvent (active : TaskPtr) (event : Word)
  | other
deriving DecidableEq

def EventInput.cause? : EventInput → Option Cause
  | .interrupt hw => hw.cause
  | _ => none

/-- The task that no longer waits for `UART1_XMIT_EVENT`. -/
def released (k k' : State) : Option TaskPtr :=
  if k'.eventTable uart1XmitEvent = none then k.eventTable uart1XmitEvent else none

inductive EventStep : State → EventInput → State → Option TaskPtr → Prop
  | interrupt {k k' : State} {hw : Hardware} : handleInterrupt k hw = some k' →
      EventStep k (.interrupt hw) k' (released k k')
  | awaitEvent {k k' : State} {active : TaskPtr} {event : Word} {ret : Int} :
      awaitInterrupt k active event = (ret, k') → EventStep k (.awaitEvent active event) k' none
  | other {k k' : State} : k'.events = k.events → EventStep k .other k' none

def eventMachine (mem : Mem) (uart1Ctlr uart2Ctlr : Word) :
    Machine State EventInput (Option TaskPtr) where
  start := initState mem uart1Ctlr uart2Ctlr
  step := EventStep

abbrev EventHistory := List (EventInput × Option TaskPtr)

def anyOrder (_ : EventHistory) (_ : State) (_ : EventInput) : Prop := True

variable {mem : Mem} {uart1Ctlr uart2Ctlr : Word} {h : EventHistory} {k k' : State}
variable {i : EventInput} {o : Option TaskPtr} {cause : Cause}

def Events.after (v : Events) : EventInput → Events
  | .interrupt hw => hw.cause.elim v v.respond
  | .awaitEvent active event =>
    if h : event.toNat < 5 then v.await active ⟨event.toNat, h⟩ else v
  | .other => v

def Events.released (v v' : Events) : Option TaskPtr :=
  if v'.waiting uart1XmitEvent = none then v.waiting uart1XmitEvent else none

theorem EventStep.events (hStep : EventStep k i k' o) :
    k'.events = k.events.after i := by
  cases hStep with
  | interrupt hHandle =>
    rw [handleInterrupt_eq, Option.map_eq_some_iff] at hHandle
    obtain ⟨cause, hCause, rfl⟩ := hHandle
    rw [Events.after, hCause, respond_events]
    rfl
  | @awaitEvent _ active event ret hAwait =>
    have hEvents := awaitInterrupt_events k active event
    rw [hAwait] at hEvents
    exact hEvents
  | other hSame => exact hSame

theorem EventStep.responds (hStep : EventStep k i k' o) (hCause : i.cause? = some cause) :
    k' = respond k cause ∧ o = released k k' := by
  cases hStep with
  | @interrupt _ hw hHandle =>
    rw [handleInterrupt_eq, show hw.cause = some cause from hCause] at hHandle
    obtain rfl := Option.some.inj hHandle
    exact ⟨rfl, rfl⟩
  | awaitEvent => cases hCause
  | other => cases hCause

theorem EventStep.respond_events (hStep : EventStep k i k' o) (hCause : i.cause? = some cause) :
    k'.events = k.events.respond cause := by
  obtain ⟨rfl, -⟩ := hStep.responds hCause
  exact Kernel.respond_events k cause

/-- A run that has come to this event part of the state. -/
def EventsReached (mem : Mem) (uart1Ctlr uart2Ctlr : Word)
    (allowed : EventHistory → State → EventInput → Prop) (h : EventHistory) (v : Events) : Prop :=
  ∃ k, (eventMachine mem uart1Ctlr uart2Ctlr).Run allowed h k ∧ k.events = v

variable {allowed : EventHistory → State → EventInput → Prop} {v : Events}

theorem EventsReached.start : EventsReached mem uart1Ctlr uart2Ctlr allowed []
    (initState mem uart1Ctlr uart2Ctlr).events :=
  ⟨_, Machine.Run.start, rfl⟩

theorem EventsReached.interrupt (hReached : EventsReached mem uart1Ctlr uart2Ctlr allowed h v)
    {hw : Hardware} (hCause : hw.cause = some cause)
    (hAllowed : ∀ k, k.events = v → allowed h k (.interrupt hw)) :
    EventsReached mem uart1Ctlr uart2Ctlr allowed
      (h ++ [(.interrupt hw, v.released (v.respond cause))]) (v.respond cause) := by
  obtain ⟨k, hRun, rfl⟩ := hReached
  have hHandle : handleInterrupt k hw = some (respond k cause) := by
    rw [handleInterrupt_eq, hCause]
    rfl
  have hEvents := respond_events k cause
  refine ⟨respond k cause, ?_, hEvents⟩
  rw [← hEvents]
  exact hRun.next (hAllowed k rfl) (.interrupt hHandle)

theorem EventsReached.awaitEvent (hReached : EventsReached mem uart1Ctlr uart2Ctlr allowed h v)
    (active : TaskPtr) (event : Event)
    (hAllowed : ∀ k, k.events = v → allowed h k (.awaitEvent active (BitVec.ofNat 32 event))) :
    EventsReached mem uart1Ctlr uart2Ctlr allowed
      (h ++ [(.awaitEvent active (BitVec.ofNat 32 event), none)]) (v.await active event) := by
  obtain ⟨k, hRun, rfl⟩ := hReached
  have hEvents := awaitInterrupt_events k active (BitVec.ofNat 32 event)
  have hEvent : (BitVec.ofNat 32 event).toNat = event := by
    rw [BitVec.toNat_ofNat]
    omega
  rw [dif_pos (by omega)] at hEvents
  have hStep : EventStep k (.awaitEvent active (BitVec.ofNat 32 event))
    (awaitInterrupt k active (BitVec.ofNat 32 event)).2 none := .awaitEvent rfl
  refine ⟨_, hRun.next (hAllowed k rfl) hStep, ?_⟩
  rw [hEvents]
  congr

theorem initKernel_events (mem : Mem) (uart1Ctlr uart2Ctlr bootstrapTask : Word) :
    (initKernel mem uart1Ctlr uart2Ctlr bootstrapTask).events =
      (initState mem uart1Ctlr uart2Ctlr).events := by
  have hCreate := taskCreate_events (initState mem uart1Ctlr uart2Ctlr) priorityInit
    bootstrapTask 0
  rw [initKernel]
  dsimp only
  split
  · exact hCreate
  · rw [queueTask_events]
    exact hCreate

theorem some_events {k₁ : State} (hSame : k₁.events = v) :
    ∀ k', some k₁ = some k' → k'.events = v := by
  rintro k' ⟨⟩
  exact hSame

theorem ite_events {p : Prop} [Decidable p] {x y : Option State}
    (hx : ∀ k', x = some k' → k'.events = v) (hy : ∀ k', y = some k' → k'.events = v) :
    ∀ k', (if p then x else y) = some k' → k'.events = v := by
  split
  · exact hx
  · exact hy

/-- What does not await an event leaves the event part alone. -/
theorem handleRequest_events {t : TaskPtr} {call : Syscall} (hCall : call.type ≠ sysAwaitEvent)
    (hHandle : handleRequest k t (.request call) = some k') : k'.events = k.events := by
  rw [handleRequest, if_neg hCall] at hHandle
  have hCreate : (queueTask (requestCreate k t call) t).events = k.events := by
    rw [queueTask_events, requestCreate_events]
  have hSpawn : (queueTask (requestSpawn k t call) t).events = k.events := by
    rw [queueTask_events, requestSpawn_events]
  revert k'
  apply ite_events (some_events (handleSend_events k t call))
  apply ite_events (some_events (handleReceive_events k t call))
  apply ite_events (some_events (handleReply_events k t call))
  apply ite_events (some_events hCreate)
  apply ite_events (some_events hSpawn)
  apply ite_events (some_events (queueTask_events _ t))
  apply ite_events (some_events (queueTask_events _ t))
  apply ite_events (some_events (queueTask_events _ t))
  apply ite_events (some_events rfl)
  apply ite_events
  · intro k' hHalt
    cases hHalt
  · exact some_events (queueTask_events _ t)

/-- A turn of the main loop handles one interrupt or one AwaitEvent, or nothing of the kind. -/
theorem mainLoop_steps {turn : Turn} (hLoop : mainLoop k turn = some k') : ∃ k₁ k₂ i o,
    EventStep k .other k₁ none ∧ EventStep k₁ i k₂ o ∧ EventStep k₂ .other k' none := by
  rw [mainLoop, Option.bind_eq_some_iff] at hLoop
  obtain ⟨⟨t, k₁⟩, hDispatch, hHandle⟩ := hLoop
  have hBefore : EventStep k .other k₁ none := .other (dispatch_events hDispatch)
  dsimp only at hHandle
  cases hTrap : turn.trap with
  | interrupt hw =>
    rw [hTrap, handleRequest, Option.map_eq_some_iff] at hHandle
    obtain ⟨k₂, hInterrupt, rfl⟩ := hHandle
    exact ⟨k₁, k₂, _, _, hBefore, .interrupt hInterrupt, .other (addToFront_events k₂ t)⟩
  | request call =>
    rw [hTrap] at hHandle
    by_cases hCall : call.type = sysAwaitEvent
    · rw [handleRequest, if_pos hCall] at hHandle
      refine ⟨k₁, (awaitInterrupt k₁ t call.arg1).2, .awaitEvent t call.arg1, none, hBefore,
        .awaitEvent rfl, .other ?_⟩
      dsimp only at hHandle
      rw [← Option.some.inj hHandle]
      split
      · exact queueTask_events _ t
      · rfl
    · exact ⟨k₁, k₁, .other, none, hBefore, .other rfl, .other (handleRequest_events hCall hHandle)⟩

theorem mainLoop_run {turn : Turn}
    (hRun : (eventMachine mem uart1Ctlr uart2Ctlr).Run anyOrder h k)
    (hLoop : mainLoop k turn = some k') :
    ∃ h', (eventMachine mem uart1Ctlr uart2Ctlr).Run anyOrder (h ++ h') k' := by
  obtain ⟨k₁, k₂, i, o, hBefore, hStep, hAfter⟩ := mainLoop_steps hLoop
  have hAll := ((hRun.next trivial hBefore).next trivial hStep).next trivial hAfter
  rw [List.append_assoc, List.append_assoc] at hAll
  exact ⟨_, hAll⟩

theorem initKernel_run (mem : Mem) (uart1Ctlr uart2Ctlr bootstrapTask : Word) :
    (eventMachine mem uart1Ctlr uart2Ctlr).Run anyOrder [(.other, none)]
      (initKernel mem uart1Ctlr uart2Ctlr bootstrapTask) :=
  Machine.Run.start.next trivial (.other (initKernel_events mem uart1Ctlr uart2Ctlr bootstrapTask))

end TrainKernel.Kernel
