import TrainKernel.User.QueueContents
import TrainKernel.User.SensorClaims

/-!
# The order of the commands

The command worker asks for one command after the other. Those that are issued in the meantime
stand in a queue for 31 of them. The parser is told of an overflow by an assertion that fails; a
stop at a target or for a reservation that was refused overflows the queue without a word.
-/

namespace TrainKernel.User

open Library.Outcome

variable {Node : Type} {world : EngineerWorld Node} {around : Surroundings Node}
variable {t t' : EngineerTurn Node} {o : Orders} {tid : Nat}
variable {issued before commands : List Command} {command : Command}

/-- All that has been issued was handed over before or in this turn, or it is in the queue. -/
structure Orders.Complete (o : Orders) (issued before : List Command) : Prop where
  wellFormed : o.commandQueue.WellFormed
  size : o.commandQueue.size = 32
  waiting : o.commandWorkerTid > 0 → o.commandQueue.contents = []
  issued : issued = before ++ o.handed ++ o.commandQueue.contents

namespace Orders.Complete

theorem issue (h : o.Complete issued before) (hRoom : o.HasRoom command) :
    (o.issue command).Complete (issued ++ [command]) before := by
  rw [Orders.issue]
  split_ifs with hWaits
  · have hEmpty := h.waiting hWaits
    refine ⟨h.wellFormed, h.size, fun hNone => absurd hNone (lt_irrefl 0), ?_⟩
    rw [h.issued]
    dsimp only
    rw [hEmpty, List.append_nil, List.append_nil, List.append_assoc]
  · have hKept : (enqueueCommand o.commandQueue command).2 = true := hRoom.resolve_left hWaits
    refine ⟨h.wellFormed.enqueue command, ?_, fun hOther => absurd hOther hWaits, ?_⟩
    · exact (RingBuffer.size_enqueue _ _).trans h.size
    have hContents : (enqueueCommand o.commandQueue command).1.contents
        = o.commandQueue.contents ++ [command] := h.wellFormed.contents_enqueue hKept
    dsimp only
    rw [hContents, h.issued, List.append_assoc _ o.commandQueue.contents]

theorem request (h : o.Complete issued before) (tid : Nat) :
    (o.request tid).Complete issued before := by
  rw [Orders.request]
  cases hNext : dequeueCommand o.commandQueue with
  | none =>
    have hEmpty : o.commandQueue.contents = [] := h.wellFormed.dequeue_eq_none_iff.mp hNext
    exact ⟨h.wellFormed, h.size, fun _ => hEmpty, h.issued⟩
  | some next =>
    obtain ⟨hContents, hWellFormed, hSize⟩ := h.wellFormed.contents_dequeue hNext
    refine ⟨hWellFormed, hSize.trans h.size, fun hWaits => ?_, ?_⟩
    · rw [h.waiting hWaits] at hContents
      cases hContents
    · rw [h.issued, hContents]
      simp

/-- A worker that waits takes the first command, and the queue the others. -/
theorem issueAll (h : o.Complete issued before)
    (hRoom : o.commandWorkerTid > 0 ∧ commands.length ≤ 32 ∨
      o.commandQueue.contents.length + commands.length < 32) :
    (commands.foldl Orders.issue o).Complete (issued ++ commands) before := by
  induction commands generalizing o issued with
  | nil =>
    rw [List.append_nil]
    exact h
  | cons command commands ih =>
    rw [List.length_cons] at hRoom
    have hFirst : o.HasRoom command := by
      cases hRoom with
      | inl hWaits => exact Or.inl hWaits.1
      | inr hRoom =>
        right
        apply h.wellFormed.kept_iff.mpr
        rw [h.size]
        omega
    have hNext : o.commandQueue.contents.length + 1 + commands.length < 33 ∨
        o.commandWorkerTid > 0 ∧ commands.length < 32 := by omega
    have hStep := h.issue hFirst
    rw [List.foldl_cons, List.append_cons]
    refine ih hStep (Or.inr ?_)
    by_cases hWaits : o.commandWorkerTid > 0
    · have hEmpty : (o.issue command).commandQueue.contents = [] := by
        rw [Orders.issue, if_pos hWaits]
        exact h.waiting hWaits
      rw [hEmpty, List.length_nil]
      omega
    · have hContents : (o.issue command).commandQueue.contents
          = o.commandQueue.contents ++ [command] := by
        rw [Orders.issue, if_neg hWaits]
        exact h.wellFormed.contents_enqueue (hFirst.resolve_left hWaits)
      rw [hContents, List.length_append, List.length_singleton]
      omega

end Orders.Complete

variable [DecidableEq Node]

/-- A location update that issues commands finds the worker waiting, or room in the queue. -/
def Engineer.HasRoomFor (world : EngineerWorld Node) (e : Engineer Node)
    (round : EngineerRound Node) : Prop :=
  round.message = .updateLocation → e.commandWorkerTid > 0 ∨
    e.commandQueue.contents.length +
      (updateCommands world round.around round.trackBitmap e).length < 32

instance (e : Engineer Node) : DecidablePred (e.HasRoomFor world) :=
  fun _ => inferInstanceAs (Decidable (_ → _))

theorem length_updateCommands_le (trackBitmap : TrackBitmap) (e : Engineer Node) :
    (updateCommands world around trackBitmap e).length ≤ 3 := by
  rw [updateCommands]
  split_ifs
  · exact Nat.zero_le 3
  · have hAll : Yields (fun commands => commands.length ≤ 3)
        (locationCommands world around trackBitmap e) := by
      refine Yields.skip fun l _ => Yields.skip fun stops _ => EndsWell.pure ?_
      have hTarget : (if stops then targetCommands l.engineer else []).length ≤ 2 := by
        rw [targetCommands]
        split_ifs <;> simp
      have hRefusal : (if l.Asks world then refusalCommands around l.engineer else []).length
          ≤ 1 := by
        rw [refusalCommands]
        split_ifs <;> simp
      rw [List.length_append]
      omega
    cases hCommands : locationCommands world around trackBitmap e with
    | error fault => exact Nat.zero_le 3
    | ok commands => exact hAll.of_ok hCommands

theorem engineerRound_complete {e : Engineer Node} {round : EngineerRound Node}
    (h : (round.turn e).orders.Complete issued before) (hRoom : e.HasRoomFor world round) :
    Yields (fun t => t.orders.Complete (issued ++ issuedCommands world e round) before)
      (engineerRound world e round) := by
  have hOne {command : Command} (hIssued : (round.turn e).orders.HasRoom command) :
      ([command].foldl Orders.issue (round.turn e).orders).Complete (issued ++ [command]) before :=
    h.issue hIssued
  have hNone {t : EngineerTurn Node} (hOrders : t.orders = (round.turn e).orders) :
      t.orders.Complete (issued ++ []) before := by
    rw [List.append_nil, hOrders]
    exact h
  rw [engineerRound, issuedCommands]
  cases hMessage : round.message with
  | updateLocation =>
    apply (updateLocation_does (t := round.turn e) round.tid).mono
    intro t hDoes
    rw [hDoes.orders]
    exact h.issueAll ((hRoom hMessage).imp_left fun hWaits =>
      ⟨hWaits, (length_updateCommands_le _ e).trans (by decide)⟩)
  | setSpeed speed =>
    apply (setSpeed_does (t := round.turn e) round.tid speed).mono
    intro t hDoes
    rw [hDoes.1.orders]
    exact hOne hDoes.2
  | setReverse =>
    apply (setReverse_does (t := round.turn e) round.tid).mono
    intro t hDoes
    rw [hDoes.1.orders]
    exact hOne hDoes.2
  | commandWorkerRequest =>
    apply (commandWorkerRequest_orders (t := round.turn e) round.tid).mono
    intro t hRequest
    rw [hRequest.2.2, List.append_nil]
    exact h.request round.tid
  | updateSensor sensor time =>
    exact (updateSensor_claims _ sensor time).mono fun t hSensor => hNone hSensor.1.orders
  | commandWorkerReverseSet =>
    exact (commandWorkerReverseSet_claims _).mono fun t hReversed => hNone hReversed.1.orders
  | sensorCourierRequest => exact EndsWell.ok (hNone (sensorCourierRequest_claims _).2.orders)
  | go index => exact (go_keeps_claims _ index).mono fun t hGo => hNone hGo.2
  | xMark index offset =>
    exact (xMark_does _ index offset).mono fun t hDoes => hNone hDoes.orders
  | commandWorkerSpeedSet speed =>
    exact EndsWell.ok (hNone (commandWorkerSpeedSet_does _ speed).orders)
  | timeoutSensor => exact Yields.error
  | initializeTrain trainNumber sensorIndex => exact Yields.error

structure CommandTrace where
  issued : List Command
  handed : List Command

def commandTrace (world : EngineerWorld Node) :
    Engineer Node → CommandTrace → List (EngineerRound Node) → CommandTrace :=
  recordRounds world fun trace e round t =>
    ⟨trace.issued ++ issuedCommands world e round, trace.handed ++ t.orders.handed⟩

omit [DecidableEq Node] in
/-- Between two rounds no command is on its way out of the engineer. -/
def Engineer.orders (e : Engineer Node) : Orders := ⟨e.commandWorkerTid, e.commandQueue, []⟩

omit [DecidableEq Node] in
def CommandTrace.Complete (e : Engineer Node) (trace : CommandTrace) : Prop :=
  e.orders.Complete trace.issued trace.handed

theorem CommandTrace.Complete.turn {e : Engineer Node} {round : EngineerRound Node}
    {trace : CommandTrace} (h : trace.Complete e) (hRoom : e.HasRoomFor world round) :
    Yields (fun t => CommandTrace.Complete t.engineer
      ⟨trace.issued ++ issuedCommands world e round, trace.handed ++ t.orders.handed⟩)
      (engineerRound world e round) := by
  apply (engineerRound_complete h hRoom).mono
  intro t hTurn
  refine ⟨hTurn.wellFormed, hTurn.size, hTurn.waiting, ?_⟩
  rw [hTurn.issued, Engineer.orders, List.append_nil]
  rfl

/-- The worker gets the commands in the order in which they are issued. -/
def HandsInOrder (world : EngineerWorld Node) (e : Engineer Node)
    (rounds : List (EngineerRound Node)) : Prop :=
  ∀ e', engineerServer world e rounds = .ok e' →
    (commandTrace world e ⟨[], []⟩ rounds).handed <+: (commandTrace world e ⟨[], []⟩ rounds).issued

theorem commands_in_order (world : EngineerWorld Node) (trainNumber creationTime : Int)
    (locationWorkerTid : Nat) (cmdBuf : Nat → Command) (outstandingClaim : SensorClaim)
    (locationMessage : LocationMessage Node) (ebook : Ebook Node)
    (rounds : List (EngineerRound Node))
    (hRoom : EveryRound world (fun e round => e.HasRoomFor world round)
      (Engineer.start trainNumber creationTime locationWorkerTid cmdBuf outstandingClaim
        locationMessage ebook) rounds) :
    HandsInOrder world (Engineer.start trainNumber creationTime locationWorkerTid cmdBuf
      outstandingClaim locationMessage ebook) rounds := by
  intro e' hRun
  have hWellFormed : (initCommandQueue 32 cmdBuf).WellFormed :=
    ⟨(by decide : (0 : Nat) < 32), (by decide : (0 : Nat) < 32)⟩
  have hStart : CommandTrace.Complete (Engineer.start trainNumber creationTime locationWorkerTid
      cmdBuf outstandingClaim locationMessage ebook) ⟨[], []⟩ :=
    ⟨hWellFormed, rfl, fun hWaits => absurd hWaits (lt_irrefl 0),
      (hWellFormed.contents_eq_nil_iff.mpr rfl).symm⟩
  have hComplete : (commandTrace world _ ⟨[], []⟩ rounds).Complete e' :=
    recordRounds_invariant CommandTrace.Complete (fun e trace round h hRoom => h.turn hRoom)
      hStart hRoom hRun
  rw [hComplete.issued]
  exact ⟨_, (List.append_assoc ..).symm⟩

def refusedRound (currentTime : Int) : EngineerRound (Bool × Bool) :=
  let round := circleRound 7 .updateLocation currentTime
  { round with around := { round.around with trackReply := .reserveFailSameDir } }

/-- The train meets a sensor and is to be reversed; the worker begins with the reversal. -/
def beforeRefusals : List (EngineerRound (Bool × Bool)) :=
  [circleRound 9 .commandWorkerRequest 10,
    circleRound 3 (.setSpeed 5) 20,
    circleRound 9 (.commandWorkerSpeedSet 5) 30,
    circleRound 9 .commandWorkerRequest 30,
    circleRound 8 (.updateSensor 0 100) 100,
    circleRound 7 .updateLocation 110,
    circleRound 3 .setReverse 140,
    circleRound 9 (.commandWorkerSpeedSet 0) 141]

/-- The worker ends the reversal and asks for the next command, twice. -/
def afterRefusals : List (EngineerRound (Bool × Bool)) :=
  [circleRound 9 .commandWorkerReverseSet 441,
    circleRound 9 (.commandWorkerSpeedSet 5) 456,
    circleRound 9 .commandWorkerRequest 460,
    circleRound 9 (.commandWorkerSpeedSet 0) 465,
    circleRound 3 (.setSpeed 5) 470,
    circleRound 9 .commandWorkerRequest 475]

def refusals (n : Nat) : List (EngineerRound (Bool × Bool)) :=
  beforeRefusals ++ (List.range n).map (fun i => refusedRound (150 + 9 * i)) ++ afterRefusals

theorem commands_in_order_circle : HandsInOrder circleWorld circleEngineer (refusals 2) :=
  commands_in_order circleWorld 66 0 7 _ _ _ _ (refusals 2) (by decide +kernel)

/-- The worker does what a worker does, and still the order to go on gets there before the stops. -/
theorem not_handsInOrder :
    followsWorker circleWorld (commandWorker 9) circleEngineer (refusals 32) = true ∧
      ¬HandsInOrder circleWorld circleEngineer (refusals 32) := by
  constructor
  · decide +kernel
  · intro hOrder
    have hEnds : (engineerServer circleWorld circleEngineer (refusals 32)).isOk = true := by
      decide +kernel
    cases hRun : engineerServer circleWorld circleEngineer (refusals 32) with
    | error fault =>
      rw [hRun] at hEnds
      cases hEnds
    | ok e' =>
      have hLost : ¬(commandTrace circleWorld circleEngineer ⟨[], []⟩ (refusals 32)).handed <+:
          (commandTrace circleWorld circleEngineer ⟨[], []⟩ (refusals 32)).issued := by
        decide +kernel
      exact hLost (hOrder e' hRun)

end TrainKernel.User
