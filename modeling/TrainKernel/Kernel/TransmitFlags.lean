import TrainKernel.Kernel.EventRuns

/-!
# When UART 1 may transmit

A byte for the trains may be sent when the transmitter is ready and clear to send. The two
indications come in separate interrupts, in either order, and two flags remember the first of them.
-/

namespace TrainKernel.Kernel

open Function Library.Runs

def Cause.modem? : Cause → Option Bool
  | .modem clearToSend => some clearToSend
  | _ => none

/-- What the latest modem interrupt has reported. -/
def lastModem (h : EventHistory) : Option Bool :=
  (h.filterMap fun x => x.1.cause?.bind Cause.modem?).getLast?

/-- Both indications are there with this interrupt, and the flags are reset. -/
def Events.Spends (v : Events) (cause : Cause) : Prop :=
  cause = .modem true ∧ v.xmitRdy ≠ 0 ∨ cause = .uart1Xmit ∧ v.ctsOn = 1

variable {v : Events} {cause : Cause} {i : EventInput} {o : Option TaskPtr}
variable {mem : Mem} {uart1Ctlr uart2Ctlr : Word} {h : EventHistory} {k k' : State}

theorem respond_spends (hSpends : v.Spends cause) :
    (v.respond cause).ctsOn = 0 ∧ (v.respond cause).xmitRdy = 0 ∧
      (v.respond cause).waiting uart1XmitEvent = none := by
  rcases hSpends with ⟨rfl, hReady⟩ | ⟨rfl, hClear⟩
  · rw [Events.respond, if_pos ⟨rfl, hReady⟩]
    exact ⟨rfl, rfl, Events.unblock_self⟩
  · have hClear : (v.enable uart1XmitEvent false).ctsOn = 1 := hClear
    rw [Events.respond, if_pos hClear]
    exact ⟨rfl, rfl, Events.unblock_self⟩

theorem passByte_flags (v : Events) (event : Event) (hEvent : event ≠ uart1XmitEvent) :
    (v.passByte event).ctsOn = v.ctsOn ∧ (v.passByte event).xmitRdy = v.xmitRdy ∧
      (v.passByte event).waiting uart1XmitEvent = v.waiting uart1XmitEvent ∧
      (v.passByte event).enabled uart1XmitEvent = v.enabled uart1XmitEvent := by
  rw [Events.passByte]
  split
  · exact ⟨rfl, rfl, rfl, rfl⟩
  · exact ⟨rfl, rfl, Events.unblock_of_ne hEvent.symm, Events.enable_of_ne hEvent.symm⟩

/-- Only a transmit interrupt takes the transmitter's enable bit away. -/
theorem respond_enabled (v : Events) (cause : Cause) :
    (v.respond cause).enabled uart1XmitEvent =
      if cause = .uart1Xmit then false else v.enabled uart1XmitEvent := by
  cases cause with
  | timer | uart1Other | soft => rfl
  | uart2Xmit =>
    have hOther : (v.enable uart2XmitEvent false).enabled uart1XmitEvent =
        v.enabled uart1XmitEvent := Events.enable_of_ne (by decide)
    exact hOther
  | uart1Recv c => exact (passByte_flags v uart1RecvEvent (by decide)).2.2.2
  | uart2Recv c => exact (passByte_flags v uart2RecvEvent (by decide)).2.2.2
  | modem clearToSend =>
    rw [Events.respond]
    split <;> rfl
  | uart1Xmit =>
    have hOff : (v.enable uart1XmitEvent false).enabled uart1XmitEvent = false :=
      Events.enable_self
    rw [Events.respond, if_pos rfl]
    split <;> exact hOff

theorem respond_waits (hKeeps : ¬v.Spends cause) :
    (v.respond cause).waiting uart1XmitEvent = v.waiting uart1XmitEvent ∧
      (v.respond cause).xmitRdy = (if cause = .uart1Xmit then 1 else v.xmitRdy) ∧
      (v.respond cause).ctsOn =
        (cause.modem?.elim v.ctsOn fun clearToSend => if clearToSend then 1 else 0) := by
  cases cause with
  | timer => exact ⟨Events.unblock_of_ne (by decide), rfl, rfl⟩
  | uart1Other | soft => exact ⟨rfl, rfl, rfl⟩
  | uart2Xmit => exact ⟨Events.unblock_of_ne (by decide), rfl, rfl⟩
  | uart1Recv c =>
    obtain ⟨hClear, hReady, hWaiting, -⟩ := passByte_flags v uart1RecvEvent (by decide)
    exact ⟨hWaiting, hReady, hClear⟩
  | uart2Recv c =>
    obtain ⟨hClear, hReady, hWaiting, -⟩ := passByte_flags v uart2RecvEvent (by decide)
    exact ⟨hWaiting, hReady, hClear⟩
  | modem clearToSend =>
    have hNot : ¬(clearToSend = true ∧ v.xmitRdy ≠ 0) := fun hBoth =>
      hKeeps (Or.inl ⟨congrArg Cause.modem hBoth.1, hBoth.2⟩)
    rw [Events.respond, if_neg hNot]
    exact ⟨rfl, rfl, rfl⟩
  | uart1Xmit =>
    have hNot : ¬(v.enable uart1XmitEvent false).ctsOn = 1 := fun hClear =>
      hKeeps (Or.inr ⟨rfl, hClear⟩)
    rw [Events.respond, if_neg hNot]
    exact ⟨rfl, rfl, rfl⟩

theorem EventStep.quiet (hStep : EventStep k i k' o) (hCause : i.cause? = none) :
    o = none ∧ k'.ctsOn = k.ctsOn ∧ k'.xmitRdy = k.xmitRdy := by
  cases hStep with
  | @interrupt _ hw hHandle =>
    rw [handleInterrupt_eq, show hw.cause = none from hCause] at hHandle
    cases hHandle
  | @awaitEvent _ active event ret hAwait =>
    have hEvents := (EventStep.awaitEvent hAwait).events
    rw [Events.after] at hEvents
    split at hEvents
    · obtain ⟨hClear, hReady⟩ := Events.await_flags k.events active _
      exact ⟨rfl, (congrArg Events.ctsOn hEvents).trans hClear,
        (congrArg Events.xmitRdy hEvents).trans hReady⟩
    · exact ⟨rfl, (congrArg Events.ctsOn hEvents :), (congrArg Events.xmitRdy hEvents :)⟩
  | other hSame => exact ⟨rfl, (congrArg Events.ctsOn hSame :), (congrArg Events.xmitRdy hSame :)⟩

/-- A task is released only when both indications are there. -/
theorem EventStep.spends (hStep : EventStep k i k' o) (hReleased : o.isSome) :
    ∃ cause, i.cause? = some cause ∧ k.events.Spends cause := by
  cases hCause : i.cause? with
  | none =>
    rw [(hStep.quiet hCause).1] at hReleased
    cases hReleased
  | some cause =>
    refine ⟨cause, rfl, ?_⟩
    have hEvents := hStep.respond_events hCause
    obtain ⟨-, rfl⟩ := hStep.responds hCause
    by_contra hNot
    have hWaiting : k'.eventTable uart1XmitEvent = k.eventTable uart1XmitEvent :=
      (congrArg (fun v : Events => v.waiting uart1XmitEvent) hEvents).trans (respond_waits hNot).1
    rw [released, hWaiting] at hReleased
    split at hReleased
    case isTrue hNone =>
      rw [hNone] at hReleased
      cases hReleased
    case isFalse => cases hReleased

/-- Since a task has been released, each flag that is set was set by an interrupt of its kind. -/
structure Paced (h : EventHistory) (k : State) : Prop where
  latest : k.ctsOn = 1 → lastModem h = some true
  clear {x between} : x :: between <:+ h → x.2.isSome → k.ctsOn = 1 →
    ∃ z ∈ between, z.1.cause? = some (.modem true)
  ready {x between} : x :: between <:+ h → x.2.isSome → k.xmitRdy ≠ 0 →
    ∃ z ∈ between, z.1.cause? = some .uart1Xmit

theorem lastModem_concat (h : EventHistory) (i : EventInput) (o : Option TaskPtr) :
    lastModem (h ++ [(i, o)]) = (i.cause?.bind Cause.modem?).or (lastModem h) := by
  rw [lastModem, List.filterMap_append, List.getLast?_append]
  cases hModem : i.cause?.bind Cause.modem? with
  | none => simp [hModem, lastModem]
  | some clearToSend => simp [hModem]

/-- Both flags are reset with a release, so what is set afterwards was set afterwards. -/
theorem EventStep.reset (hStep : EventStep k i k' o) (hReleased : o.isSome) :
    k'.ctsOn = 0 ∧ k'.xmitRdy = 0 := by
  obtain ⟨cause, hCause, hSpends⟩ := hStep.spends hReleased
  have hEvents := hStep.respond_events hCause
  obtain ⟨hClear, hReady, -⟩ := respond_spends hSpends
  rw [← hEvents] at hClear hReady
  exact ⟨hClear, hReady⟩

/-- A flag that is set after a step was set before it, or the step is the interrupt that sets it. -/
theorem EventStep.ctsOn_cases (hStep : EventStep k i k' o) (hClear : k'.ctsOn = 1) :
    i.cause? = some (.modem true) ∨ k.ctsOn = 1 ∧ i.cause?.bind Cause.modem? = none := by
  cases hCause : i.cause? with
  | none =>
    rw [(hStep.quiet hCause).2.1] at hClear
    exact Or.inr ⟨hClear, rfl⟩
  | some cause =>
    have hEvents := hStep.respond_events hCause
    have hFlag : (k.events.respond cause).ctsOn = 1 := by
      rw [← hEvents]
      exact hClear
    by_cases hSpends : k.events.Spends cause
    · rw [(respond_spends hSpends).1] at hFlag
      exact absurd hFlag (by decide)
    · rw [(respond_waits hSpends).2.2] at hFlag
      cases cause with
      | modem clearToSend =>
        cases clearToSend with
        | true => exact Or.inl rfl
        | false => exact absurd hFlag (by decide : (0 : Int) ≠ 1)
      | _ => exact Or.inr ⟨hFlag, rfl⟩

theorem EventStep.xmitRdy_cases (hStep : EventStep k i k' o) (hReady : k'.xmitRdy ≠ 0) :
    i.cause? = some .uart1Xmit ∨ k'.xmitRdy = k.xmitRdy := by
  cases hCause : i.cause? with
  | none => exact Or.inr (hStep.quiet hCause).2.2
  | some cause =>
    have hEvents := hStep.respond_events hCause
    have hFlag : k'.xmitRdy = (k.events.respond cause).xmitRdy := congrArg Events.xmitRdy hEvents
    by_cases hSpends : k.events.Spends cause
    · rw [(respond_spends hSpends).2.1] at hFlag
      exact absurd hFlag hReady
    · rw [(respond_waits hSpends).2.1] at hFlag
      by_cases hXmit : cause = .uart1Xmit
      · exact Or.inl (congrArg some hXmit)
      · rw [if_neg hXmit] at hFlag
        exact Or.inr hFlag

theorem paced_start (mem : Mem) (uart1Ctlr uart2Ctlr : Word) :
    Paced [] (initState mem uart1Ctlr uart2Ctlr) where
  latest hClear := absurd hClear (by decide : (-1 : Int) ≠ 1)
  clear hSuffix := by simp at hSuffix
  ready hSuffix := by simp at hSuffix

/-- What has come since an entry of a longer history. -/
theorem since_concat {α : Type} {x y : α} {between before : List α}
    (hSuffix : x :: between <:+ before ++ [y]) :
    x = y ∧ between = [] ∨ ∃ between', between = between' ++ [y] ∧ x :: between' <:+ before := by
  obtain hNil | ⟨between', hEq, hBefore⟩ := List.suffix_concat_iff.mp hSuffix
  · cases hNil
  cases between' with
  | nil => exact Or.inl (List.cons.inj hEq)
  | cons x' between' =>
    obtain ⟨rfl, rfl⟩ := List.cons.inj hEq
    exact Or.inr ⟨between', rfl, hBefore⟩

theorem Paced.next (hPaced : Paced h k) (hStep : EventStep k i k' o) :
    Paced (h ++ [(i, o)]) k' where
  latest hClear := by
    rw [lastModem_concat]
    rcases hStep.ctsOn_cases hClear with hModem | ⟨hSet, hNone⟩
    · rw [hModem]
      rfl
    · rw [hNone, Option.none_or]
      exact hPaced.latest hSet
  clear {x between} hSuffix hReleased hClear := by
    obtain ⟨rfl, rfl⟩ | ⟨between', rfl, hBefore⟩ := since_concat hSuffix
    · rw [(hStep.reset hReleased).1] at hClear
      exact absurd hClear (by decide)
    · rcases hStep.ctsOn_cases hClear with hModem | ⟨hSet, -⟩
      · exact ⟨_, List.mem_concat_self, hModem⟩
      · obtain ⟨z, hz, hModem⟩ := hPaced.clear hBefore hReleased hSet
        exact ⟨z, List.mem_append_left _ hz, hModem⟩
  ready {x between} hSuffix hReleased hReady := by
    obtain ⟨rfl, rfl⟩ | ⟨between', rfl, hBefore⟩ := since_concat hSuffix
    · exact absurd (hStep.reset hReleased).2 hReady
    · rcases hStep.xmitRdy_cases hReady with hXmit | hSame
      · exact ⟨_, List.mem_concat_self, hXmit⟩
      · rw [hSame] at hReady
        obtain ⟨z, hz, hXmit⟩ := hPaced.ready hBefore hReleased hReady
        exact ⟨z, List.mem_append_left _ hz, hXmit⟩

theorem run_paced (hRun : (eventMachine mem uart1Ctlr uart2Ctlr).Run anyOrder h k) : Paced h k :=
  hRun.invariant Paced (paced_start mem uart1Ctlr uart2Ctlr) fun _ _ _ _ _ hPaced _ hStep =>
    hPaced.next hStep

/-- Between two releases there are an interrupt of the transmitter and one that clears to send. -/
theorem transmit_paced {before between : EventHistory} {x y : EventInput × Option TaskPtr}
    (hRun : (eventMachine mem uart1Ctlr uart2Ctlr).Run anyOrder h k)
    (hBoth : before ++ x :: between ++ [y] <+: h) (hFirst : x.2.isSome) (hSecond : y.2.isSome) :
    (∃ z ∈ between ++ [y], z.1.cause? = some .uart1Xmit) ∧
      (∃ z ∈ between ++ [y], z.1.cause? = some (.modem true)) ∧
      lastModem (before ++ x :: between ++ [y]) = some true := by
  obtain ⟨i, o⟩ := y
  obtain ⟨k₁, k₂, hEarlier, -, hStep⟩ := hRun.split hBoth
  have hPaced := run_paced hEarlier
  have hSuffix : x :: between <:+ before ++ x :: between := List.suffix_append ..
  obtain ⟨cause, hCause, hSpends⟩ := hStep.spends hSecond
  rw [lastModem_concat, hCause]
  rcases hSpends with ⟨rfl, hReady⟩ | ⟨rfl, hClear⟩
  · obtain ⟨z, hz, hXmit⟩ := hPaced.ready hSuffix hFirst hReady
    exact ⟨⟨z, List.mem_append_left _ hz, hXmit⟩, ⟨_, List.mem_concat_self, hCause⟩, rfl⟩
  · obtain ⟨z, hz, hModem⟩ := hPaced.clear hSuffix hFirst hClear
    exact ⟨⟨_, List.mem_concat_self, hCause⟩, ⟨z, List.mem_append_left _ hz, hModem⟩,
      hPaced.latest hClear⟩

def modemReady : Hardware := ⟨0, 0x100000, 1, 0x11, 0, 0⟩

def xmitReady : Hardware := ⟨0, 0x100000, 4, 0, 0, 0⟩

theorem modemReady_cause : modemReady.cause = some (.modem true) := by decide

theorem xmitReady_cause : xmitReady.cause = some .uart1Xmit := by decide

/-- Two bytes of a task go out. -/
def served (t : TaskPtr) : EventHistory :=
  [(.awaitEvent t 2, none), (.interrupt modemReady, some t), (.awaitEvent t 2, none),
    (.interrupt xmitReady, none), (.interrupt modemReady, some t)]

theorem served_run (t : TaskPtr) :
    ∃ k, (eventMachine (fun _ => 0) 0 0).Run anyOrder (served t) k := by
  have hStart : EventsReached (fun _ => 0) 0 0 anyOrder [] _ := EventsReached.start
  have hFirst := (hStart.awaitEvent t uart1XmitEvent fun _ _ => trivial).interrupt modemReady_cause
    fun _ _ => trivial
  have hSecond := ((hFirst.awaitEvent t uart1XmitEvent fun _ _ => trivial).interrupt xmitReady_cause
    fun _ _ => trivial).interrupt modemReady_cause fun _ _ => trivial
  obtain ⟨k, hRun, -⟩ := hSecond
  exact ⟨k, hRun⟩

theorem transmit_paced_served :
    (∃ z ∈ (served 0).drop 2, z.1.cause? = some .uart1Xmit) ∧
      (∃ z ∈ (served 0).drop 2, z.1.cause? = some (.modem true)) ∧
      lastModem (served 0) = some true := by
  obtain ⟨k, hRun⟩ := served_run 0
  have hBoth : [(.awaitEvent 0 2, none)] ++ (.interrupt modemReady, some 0) ::
    [(.awaitEvent 0 2, none), (.interrupt xmitReady, none)] ++
      [(.interrupt modemReady, some 0)] <+: served 0 := List.prefix_rfl
  exact transmit_paced hRun hBoth rfl rfl

/-! ## One notifier -/

/-- A transmit interrupt comes only while it is enabled, and nobody else waits for one already. -/
def singleNotifier (_ : EventHistory) (k : State) (i : EventInput) : Prop :=
  (i.cause? = some .uart1Xmit → k.enabled uart1XmitEvent = true) ∧
    ∀ active event, i = .awaitEvent active event → event.toNat = uart1XmitEvent →
      k.eventTable uart1XmitEvent = none

/-- Nothing clears to send while `xmitRdy` still has its initial value, which counts as true. -/
def xmitFirst (h : EventHistory) (k : State) (i : EventInput) : Prop :=
  singleNotifier h k i ∧ (i.cause? = some (.modem true) → k.xmitRdy ≠ -1)

/-- Whenever both flags are reset for a byte that may be sent, there is a task to send it. -/
def KeepsReadiness (mem : Mem) (uart1Ctlr uart2Ctlr : Word)
    (allowed : EventHistory → State → EventInput → Prop) : Prop :=
  ∀ h k i k' o cause, (eventMachine mem uart1Ctlr uart2Ctlr).Run allowed h k → allowed h k i →
    EventStep k i k' o → i.cause? = some cause → k.events.Spends cause →
    ∃ t, k.eventTable uart1XmitEvent = some t ∧ o = some t

/-- The transmitter is ready only for a task that still waits. -/
structure Events.Ready (v : Events) : Prop where
  enabled : v.enabled uart1XmitEvent = true →
    v.waiting uart1XmitEvent ≠ none ∧ (v.xmitRdy = 0 ∨ v.xmitRdy = -1)
  waits : v.waiting uart1XmitEvent = none → v.xmitRdy = 0 ∨ v.xmitRdy = -1

theorem Events.Ready.waiting (hReady : v.Ready)
    (hEnabled : cause = .uart1Xmit → v.enabled uart1XmitEvent = true)
    (hFirst : cause = .modem true → v.xmitRdy ≠ -1) (hSpends : v.Spends cause) :
    v.waiting uart1XmitEvent ≠ none := by
  rcases hSpends with ⟨rfl, hSet⟩ | ⟨rfl, -⟩
  · intro hNone
    exact (hReady.waits hNone).elim hSet (hFirst rfl)
  · exact (hReady.enabled (hEnabled rfl)).1

theorem Events.Ready.respond (hReady : v.Ready)
    (hEnabled : cause = .uart1Xmit → v.enabled uart1XmitEvent = true)
    (hFirst : cause = .modem true → v.xmitRdy ≠ -1) : (v.respond cause).Ready := by
  have hOff := respond_enabled v cause
  by_cases hSpends : v.Spends cause
  · obtain ⟨-, hReset, -⟩ := respond_spends hSpends
    refine ⟨fun hOn => ?_, fun _ => Or.inl hReset⟩
    rw [hOff] at hOn
    rcases hSpends with ⟨rfl, hSet⟩ | ⟨rfl, -⟩
    · exact absurd (hReady.enabled hOn).2 (not_or.mpr ⟨hSet, hFirst rfl⟩)
    · cases hOn
  · obtain ⟨hWaiting, hSet, -⟩ := respond_waits hSpends
    by_cases hXmit : cause = .uart1Xmit
    · rw [if_pos hXmit] at hOff
      refine ⟨fun hOn => absurd (hOff.symm.trans hOn) Bool.false_ne_true, fun hNone => ?_⟩
      rw [hWaiting] at hNone
      exact absurd hNone (hReady.enabled (hEnabled hXmit)).1
    · rw [if_neg hXmit] at hOff hSet
      constructor
      · rw [hOff, hWaiting, hSet]
        exact hReady.enabled
      · rw [hWaiting, hSet]
        exact hReady.waits

theorem Events.Ready.await {active : TaskPtr} {event : Event} (hReady : v.Ready)
    (hFree : event = uart1XmitEvent → v.waiting uart1XmitEvent = none) :
    (v.await active event).Ready := by
  by_cases hXmit : event = uart1XmitEvent
  · have hSet := hReady.waits (hFree hXmit)
    subst hXmit
    have hWaits := (await_self v active (by decide : uart1XmitEvent ≠ timerEvent)).1
    exact ⟨fun _ => ⟨by simp [hWaits], hSet⟩, fun _ => hSet⟩
  · obtain ⟨hWaiting, hEnabled⟩ := await_of_ne v active (Ne.symm hXmit)
    constructor
    · rw [hWaiting, hEnabled, (await_flags v active event).2]
      exact hReady.enabled
    · rw [hWaiting, (await_flags v active event).2]
      exact hReady.waits

theorem Events.Ready.next (hReady : k.events.Ready) (hAllowed : xmitFirst h k i)
    (hStep : EventStep k i k' o) : k'.events.Ready := by
  rw [hStep.events]
  cases i with
  | interrupt hw =>
    rw [Events.after]
    cases hCause : hw.cause with
    | none => exact hReady
    | some cause =>
      exact hReady.respond (fun hXmit => hAllowed.1.1 (hXmit ▸ hCause))
        (fun hModem => hAllowed.2 (hModem ▸ hCause))
  | awaitEvent active event =>
    rw [Events.after]
    split
    · exact hReady.await fun hXmit => hAllowed.1.2 active event rfl (congrArg Fin.val hXmit)
    · exact hReady
  | other => exact hReady

theorem ready_start (mem : Mem) (hOff : uart1Ctlr &&& tienMask = 0) :
    (initState mem uart1Ctlr uart2Ctlr).events.Ready where
  enabled hOn := by
    have hClear : (initState mem uart1Ctlr uart2Ctlr).enabled uart1XmitEvent = false :=
      decide_eq_false (not_not.mpr hOff)
    exact absurd (hClear.symm.trans hOn) Bool.false_ne_true
  waits _ := Or.inr rfl

theorem readiness_kept (hOff : uart1Ctlr &&& tienMask = 0) :
    KeepsReadiness mem uart1Ctlr uart2Ctlr xmitFirst := by
  intro h k i k' o cause hRun hAllowed hStep hCause hSpends
  have hReady : k.events.Ready := hRun.invariant (fun _ k => k.events.Ready)
    (ready_start mem hOff) fun _ _ _ _ _ hReady hAllowed hStep => hReady.next hAllowed hStep
  have hWaits := hReady.waiting (fun hXmit => hAllowed.1.1 (hXmit ▸ hCause))
    (fun hModem => hAllowed.2 (hModem ▸ hCause)) hSpends
  obtain ⟨t, hTask⟩ := Option.ne_none_iff_exists'.mp hWaits
  have hEvents := hStep.respond_events hCause
  obtain ⟨-, rfl⟩ := hStep.responds hCause
  have hFree : k'.events.waiting uart1XmitEvent = none := by
    rw [hEvents]
    exact (respond_spends hSpends).2.2
  exact ⟨t, hTask, (if_pos hFree).trans hTask⟩

theorem modemReady_allowed (h : EventHistory) (k : State) :
    singleNotifier h k (.interrupt modemReady) := by
  refine ⟨fun hXmit => ?_, fun _ _ hAwait => by cases hAwait⟩
  have hModem : EventInput.cause? (.interrupt modemReady) = some (.modem true) := modemReady_cause
  rw [hModem] at hXmit
  cases hXmit

theorem readiness_kept_served : ∃ k k' t,
    (eventMachine (fun _ => 0) 0 0).Run xmitFirst
      [(.awaitEvent 7 2, none), (.interrupt xmitReady, none)] k ∧
    EventStep k (.interrupt modemReady) k' (some t) ∧ k.eventTable uart1XmitEvent = some t := by
  have hStart : EventsReached (fun _ => 0) 0 0 xmitFirst [] _ := EventsReached.start
  have hAwait := hStart.awaitEvent 7 uart1XmitEvent fun k hk =>
    ⟨⟨nofun, fun _ _ _ _ => congrArg (fun v => v.waiting uart1XmitEvent) hk⟩, nofun⟩
  have hXmit := hAwait.interrupt xmitReady_cause fun k hk =>
    ⟨⟨fun _ => congrArg (fun v => v.enabled uart1XmitEvent) hk, nofun⟩,
      fun hModem => nomatch xmitReady_cause.symm.trans hModem⟩
  obtain ⟨k, hRun, hk⟩ := hXmit
  have hReady : k.xmitRdy ≠ -1 := by
    have hSet : k.xmitRdy = 1 := congrArg Events.xmitRdy hk
    omega
  have hStep : EventStep k (.interrupt modemReady) (respond k (.modem true)) _ := .interrupt (by
    rw [handleInterrupt_eq, modemReady_cause]
    rfl)
  have hSpends : k.events.Spends (.modem true) := by
    rw [hk]
    exact Or.inl ⟨rfl, by decide⟩
  obtain ⟨t, hTask, hReleased⟩ := readiness_kept (by decide) _ _ _ _ _ _ hRun
    ⟨modemReady_allowed _ k, fun _ => hReady⟩ hStep modemReady_cause hSpends
  rw [hReleased] at hStep
  exact ⟨k, _, t, hRun, hStep, hTask⟩

/-- The first clear to send comes before anybody waits, and it is spent on nobody. -/
theorem readiness_lost : ¬KeepsReadiness (fun _ => 0) 0 0 singleNotifier := by
  intro hKeeps
  have hStep : EventStep (initState (fun _ => 0) 0 0) (.interrupt modemReady)
      (respond (initState (fun _ => 0) 0 0) (.modem true)) _ := .interrupt (by
    rw [handleInterrupt_eq, modemReady_cause]
    rfl)
  have hSpends : (initState (fun _ => 0) 0 0).events.Spends (.modem true) :=
    Or.inl ⟨rfl, (by decide : (-1 : Int) ≠ 0)⟩
  obtain ⟨t, hTask, -⟩ := hKeeps [] _ _ _ _ _ Machine.Run.start (modemReady_allowed [] _) hStep
    modemReady_cause hSpends
  cases hTask

end TrainKernel.Kernel
