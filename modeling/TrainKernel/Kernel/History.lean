import TrainKernel.Kernel.Handlers

/-!
# Runs of the kernel and what they have handed over

A history remembers what no table of the kernel keeps: the last Send and the last
Receive of each task, the messages sent, received and answered so far, and the tasks
created and not yet exited. It is read off the traps; the kernel never looks at it.
-/

namespace TrainKernel.Kernel

open Function Library.Links Library.Rendezvous

structure History where
  turns : Nat
  lastSend : TaskPtr → Nat × Syscall
  lastReceive : TaskPtr → Syscall
  log : List (Entry TaskPtr)
  live : TaskPtr → Bool

def sendTarget (call : Syscall) : Option TaskPtr :=
  if call.type = sysSend then taskGetTDByIndex call.arg1.toInt else none

def replyTarget (k : State) (t : TaskPtr) (call : Syscall) : Option TaskPtr :=
  if call.type = sysReply then
    (taskGetTDByIndex call.arg1.toInt).filter fun s =>
      (k.tasks s).status = .replyBlock ∧
        (k.tasks s).originalReceiverId = taskGetIndex (k.tasks t)
  else none

def createdTask (k : State) (t : TaskPtr) (call : Syscall) : Option TaskPtr :=
  if call.type = sysCreate then
    let id := (taskCreate k call.arg1.toInt call.arg2 (taskGetIndex (k.tasks t))).1
    if 0 ≤ id then some (taskGetIndexById id.toNat) else none
  else if call.type = sysSpawn then
    (taskSpawn k call.arg1.toInt call.arg2 call.arg3 (taskGetIndex (k.tasks t))).1
  else none

namespace History

def start : History where
  turns := 0
  lastSend _ := (0, { type := 0 })
  lastReceive _ := { type := 0 }
  log := []
  live t := t.val = 1

/-- The messages that a call of `t` sends, receives or answers in state `k`. -/
def entries (h : History) (k : State) (t : TaskPtr) (call : Syscall) : List (Entry TaskPtr) :=
  match sendTarget call with
  | some r =>
    ⟨.sent, h.turns, t, r⟩ ::
      if (k.tasks r).status = .receiveBlock then [⟨.received, h.turns, t, r⟩] else []
  | none =>
    if call.type = sysReceive then
      match (k.sendQueues (taskGetIndex (k.tasks t))).head with
      | none => []
      | some s => [⟨.received, (h.lastSend s).1, s, t⟩]
    else match replyTarget k t call with
      | none => []
      | some s => [⟨.answered, (h.lastSend s).1, s, t⟩]

/-- The history after `t` has trapped in state `k`. -/
def record (h : History) (k : State) (t : TaskPtr) : Trap → History
  | .interrupt _ => { h with turns := h.turns + 1 }
  | .request call =>
    { turns := h.turns + 1
      lastSend := if (sendTarget call).isSome then update h.lastSend t (h.turns, call)
        else h.lastSend
      lastReceive := if call.type = sysReceive then update h.lastReceive t call
        else h.lastReceive
      log := h.log ++ h.entries k t call
      live := if call.type = sysExit then update h.live t false
        else match createdTask k t call with
          | none => h.live
          | some i => update h.live i true }

end History

/-- What the notifiers promise: no event is awaited by two tasks at a time. -/
def Allowed (k : State) : Trap → Prop
  | .interrupt _ => True
  | .request call => call.type = sysAwaitEvent →
      ∀ e : Event, call.arg1.toNat = e.val → k.eventTable e = none

/-- The states of the main loop, with the task that is running, if there is one. -/
inductive Reaches : Option TaskPtr → State → History → Prop
  | start (mem : Mem) (uart1Ctlr uart2Ctlr : Word) {bootstrapTask : Word}
      (hCode : bootstrapTask ≠ 0) :
      Reaches none (initKernel mem uart1Ctlr uart2Ctlr bootstrapTask) .start
  | dispatch {k k' : State} {h : History} {turn : Turn} {t : TaskPtr} (hReach : Reaches none k h)
      (hDispatch : dispatch k turn = some (t, k')) : Reaches (some t) k' h
  | handle {k k' : State} {h : History} {trap : Trap} {t : TaskPtr} (hReach : Reaches (some t) k h)
      (hAllowed : Allowed k trap) (hHandle : handleRequest k t trap = some k') :
      Reaches none k' (h.record k t trap)

/-- Two steps of a run are one iteration of the main loop. -/
theorem mainLoop_eq_some_iff {k k' : State} {turn : Turn} : mainLoop k turn = some k' ↔
    ∃ t k₁, dispatch k turn = some (t, k₁) ∧ handleRequest k₁ t turn.trap = some k' := by
  simp [mainLoop, Option.bind_eq_some_iff]

/-- The card of a blocked task shows its last call. -/
def Holds (d : TaskDescriptor) (send receive : Syscall) : Phase TaskPtr → Prop
  | .idle => True
  | .sending r => sendTarget send = some r ∧ d.sendBuf = send.arg2 ∧ d.sendLen = send.arg3 ∧
      d.recvBuf = send.arg4 ∧ d.recvLen = send.arg5
  | .receiving => receive.type = sysReceive ∧ d.sendId = receive.arg1 ∧
      d.recvBuf = receive.arg2 ∧ d.recvLen = receive.arg3
  | .replying r => sendTarget send = some r ∧ d.recvBuf = send.arg4 ∧ d.recvLen = send.arg5

/-- The protocol state that a history and the places of the tasks amount to. -/
def exchange (h : History) (mail : TaskPtr → List TaskPtr) (place : TaskPtr → Place) :
    Exchange TaskPtr where
  phase x := (place x).phase
  mail := mail
  serial x := (h.lastSend x).1
  clock := h.turns
  log := h.log

structure Tracks (k : State) (mail : TaskPtr → List TaskPtr) (place : TaskPtr → Place)
    (h : History) : Prop where
  placed : Placed k mail place
  protocol : Reachable (exchange h mail place)
  holds : ∀ x, Holds (k.card x) (h.lastSend x).2 (h.lastReceive x) (place x).phase
  live : ∀ x, h.live x = true ↔ place x ≠ .absent

variable {k k' : State} {mail : TaskPtr → List TaskPtr} {place place' : TaskPtr → Place}
variable {h h' : History} {t r s : TaskPtr} {p : Place}

theorem Tracks.pass (hTracks : Tracks k mail place h) (hKeeps : Keeps k mail place k' place')
    (hTurns : h'.turns = h.turns + 1) (hSend : h'.lastSend = h.lastSend)
    (hReceive : h'.lastReceive = h.lastReceive) (hLog : h'.log = h.log)
    (hLive : ∀ x, h'.live x = true ↔ place' x ≠ .absent) : Tracks k' mail place' h' := by
  refine ⟨hKeeps.placed, ?_, ?_, hLive⟩
  · have hStep := hTracks.protocol.step .pass
    rw [show exchange h' mail place' =
      { exchange h mail place with clock := (exchange h mail place).clock + 1 } by
        simp only [exchange, hTurns, hSend, hLog, hKeeps.phase]]
    exact hStep
  · intro x
    rw [hKeeps.phase, hSend, hReceive]
    cases hPhase : (place x).phase with
    | idle => trivial
    | _ =>
      rw [hKeeps.card x (by simp [hPhase]), ← hPhase]
      exact hTracks.holds x

theorem live_update (hLive : ∀ x, h.live x = true ↔ place x ≠ .absent) (ht : place t ≠ .absent)
    (hp : p ≠ .absent) (x : TaskPtr) : h.live x = true ↔ update place t p x ≠ .absent := by
  by_cases hx : x = t
  · subst hx
    rw [update_self, hLive]
    exact iff_of_true ht hp
  · rw [update_of_ne hx]
    exact hLive x

end TrainKernel.Kernel
