import TrainKernel.User.EngineerPace
import TrainKernel.User.EngineerTurns

/-!
# Distances of a train

The engineer computes with the offset of its target, with the distance between its sensors and with
the time at which it passed its last node. None of them becomes negative, and no time is ahead of
the clock, as long as the clock does not go back and no sensor reports a hit that is yet to come.
-/

namespace TrainKernel.User

open Library.Outcome

variable {Node : Type} {world : EngineerWorld Node} {around : Surroundings Node}
variable {t t' : EngineerTurn Node} {tid : Nat} {clock : Int}

def EngineerMessage.reportedTime : EngineerMessage → Option Int
  | .updateSensor _ time => some time
  | _ => none

def EngineerMessage.markedOffset : EngineerMessage → Option Int
  | .xMark _ offset => some offset
  | _ => none

/-- `Time` never goes back, and a sensor's time has been taken before its report is handled. -/
def OnTime : Int → List (EngineerRound Node) → Prop
  | _, [] => True
  | clock, round :: rounds =>
    clock ≤ round.around.currentTime ∧
      (∀ time ∈ round.message.reportedTime, time ≤ round.around.currentTime) ∧
      OnTime round.around.currentTime rounds

abbrev EngineerRound.OffsetNonneg (round : EngineerRound Node) : Prop :=
  ∀ offset ∈ round.message.markedOffset, 0 ≤ offset

namespace Drive

variable {d d' : Drive}

/-- The two times that are kept of the last report agree once the train has passed a sensor. -/
structure Dated (d : Drive) : Prop where
  seen : d.state ≠ .ready → d.seen = true
  lastTime : d.seen = true → d.lastTime = d.creationTime

theorem Dated.lastTime_of_running (h : d.Dated) (hState : d.state = .running) :
    d.lastTime = d.creationTime := by
  apply h.lastTime
  apply h.seen
  rw [hState]
  decide

theorem Dated.withState (h : d.Dated) {state : TrainState} (hSeen : d.seen = true) :
    Dated { d with state := state } :=
  ⟨fun _ => hSeen, h.lastTime⟩

theorem Dated.setSpeed (h : d.Dated) (speed : Int) :
    Dated { d with
      prevSpeed := d.speed, speed := speed, state := stateAfterSpeed d.state speed } := by
  refine ⟨?_, h.lastTime⟩
  intro hState
  apply h.seen
  intro hReady
  apply hState
  dsimp only
  rw [hReady]
  rfl

theorem Dated.step {Learns : Drive → Int → Int → Prop} (h : d.Dated) (hStep : Step Learns d d') :
    d'.Dated := by
  cases hStep with
  | halt hState => exact h.withState (h.seen (by rw [hState]; decide))
  | turn hState => exact h.withState (h.seen (by rw [hState]; decide))
  | pass hTime => exact ⟨fun _ => rfl, fun _ => rfl⟩
  | learn hTime hState => exact ⟨fun _ => rfl, fun _ => rfl⟩
  | setSpeed h0 h14 => exact h.setSpeed _
  | setReverse hSeen => exact ⟨fun _ => rfl, fun _ => h.lastTime hSeen⟩

theorem Dated.invariant (Learns : Drive → Int → Int → Prop) : Drive.Invariant Learns Dated where
  step := Dated.step
  setSpeed h _ := h.setSpeed _

/-- The learned times are never negative, and no braking distance is kept for standing still. -/
structure Timed (d : Drive) : Prop extends d.Dated where
  timeDeltas : ∀ s i, 0 ≤ d.timeDeltas s i
  stoppingDistance : d.stoppingDistance = stoppingDist62 ∨ d.stoppingDistance = stoppingDist66

theorem Timed.learned_nonneg (h : d.Timed) {sensor time : Int} (hTime : d.creationTime < time)
    (hState : d.state = .running) (hRange : d.LearnsInRange sensor time) (s i : Int) :
    0 ≤ d.learned sensor time s i := by
  have hLast := h.lastTime_of_running hState
  apply forall_learned (P := fun _ v => 0 ≤ v) h.timeDeltas
  exact hRange.le_average le_rfl (by omega) (h.timeDeltas d.speed sensor)

theorem Timed.step (h : d.Timed) (hStep : Step LearnsInRange d d') : d'.Timed := by
  have hDated := h.toDated.step hStep
  cases hStep with
  | learn hTime hState hRange =>
    exact ⟨hDated, h.learned_nonneg hTime hState hRange, h.stoppingDistance⟩
  | halt | turn | pass | setSpeed | setReverse => exact ⟨hDated, h.timeDeltas, h.stoppingDistance⟩

theorem Timed.setSpeed (h : d.Timed) (speed : Int) :
    Timed { d with
      prevSpeed := d.speed, speed := speed, state := stateAfterSpeed d.state speed } :=
  ⟨h.toDated.setSpeed speed, h.timeDeltas, h.stoppingDistance⟩

theorem Timed.invariant : Drive.Invariant LearnsInRange Timed where
  step := Timed.step
  setSpeed h _ := h.setSpeed _

end Drive

structure Bearings where
  targetOffset : Int
  sensorDist : Int
  prevNodeTime : Int

def Engineer.bearings (e : Engineer Node) : Bearings :=
  ⟨e.targetOffset, e.sensorDist, e.prevNodeTime⟩

structure Bearings.Sound (clock : Int) (b : Bearings) : Prop where
  targetOffset : 0 ≤ b.targetOffset
  sensorDist : 0 ≤ b.sensorDist
  prevNodeTime : b.prevNodeTime ≤ clock

abbrev KeepsBearings (t : EngineerTurn Node) (x : Except EngineerFault (EngineerTurn Node)) :
    Prop :=
  Yields (fun t' => t'.engineer.bearings = t.engineer.bearings) x

abbrev SoundAt (clock : Int) (x : Except EngineerFault (EngineerTurn Node)) : Prop :=
  Yields (fun t' : EngineerTurn Node => t'.engineer.bearings.Sound clock) x

theorem KeepsBearings.soundAt {x : Except EngineerFault (EngineerTurn Node)}
    (h : KeepsBearings t x) (hSound : t.engineer.bearings.Sound clock) : SoundAt clock x :=
  h.mono fun _ hEq => hEq ▸ hSound

theorem issueCommand_bearings (command : Command) :
    (issueCommand t command).1.engineer.bearings = t.engineer.bearings := by
  rw [issueCommand]
  split
  · rfl
  · rfl

theorem issueChecked_bearings (type : CommandType) (speed : Int) :
    KeepsBearings t (issueChecked t type speed) :=
  EndsWell.ite (fun _ => EndsWell.ok (issueCommand_bearings _)) fun _ => Yields.error

theorem throwTurnout_engineer (turnop : Int) :
    Yields (fun t' => t'.engineer = t.engineer) (throwTurnout world t turnop) :=
  EndsWell.ite (fun _ => Yields.skip fun _ _ => EndsWell.pure rfl) fun _ => EndsWell.pure rfl

theorem throwTurnouts_engineer (ent : Enstruction Node) (rounds i : Nat) :
    Yields (fun t' => t'.engineer = t.engineer) (throwTurnouts world ent rounds i t) := by
  induction rounds generalizing i t with
  | zero => exact EndsWell.ok rfl
  | succ rounds ih =>
    refine EndsWell.ite (fun _ => Yields.error) fun _ => Yields.skip fun _ _ => ?_
    apply (throwTurnout_engineer (ent.turnops i)).bind
    intro t' hThrown
    exact (ih (i + 1)).mono fun t'' hRest => hRest.trans hThrown

/-- The offset of the next target is zero. -/
theorem setTargetFromEnstruction_soundAt (ent : Enstruction Node)
    (h : t.engineer.bearings.Sound clock) :
    SoundAt clock (setTargetFromEnstruction world t ent) := by
  refine (throwTurnouts_engineer ent _ 0).bind fun t' hEngineer =>
    Yields.skip fun destination _ => EndsWell.pure ?_
  rw [hEngineer]
  exact ⟨le_rfl, h.sensorDist, h.prevNodeTime⟩

theorem nextEnstruction_bearings :
    Yields (fun r => r.2.engineer.bearings = t.engineer.bearings) (nextEnstruction t) :=
  EndsWell.ite (fun _ => EndsWell.ok rfl) fun _ => Yields.error

theorem Bearings.Sound.later {b : Bearings} {now : Int} (h : b.Sound clock) (hClock : clock ≤ now) :
    b.Sound now :=
  ⟨h.targetOffset, h.sensorDist, h.prevNodeTime.trans hClock⟩

theorem reachTarget_soundAt (h : t.engineer.bearings.Sound clock) :
    SoundAt clock (reachTarget world t) := by
  have hIssued : (issueSpeedCommand t 0).engineer.bearings.Sound clock := by
    rw [issueSpeedCommand, issueCommand_bearings]
    exact h
  have hCleared : (clearTarget (issueSpeedCommand t 0)).engineer.bearings.Sound clock :=
    ⟨le_rfl, hIssued.sensorDist, hIssued.prevNodeTime⟩
  refine EndsWell.ite (fun _ => ?_) fun _ => EndsWell.pure hCleared
  apply nextEnstruction_bearings.bind
  intro r hNext
  apply (setTargetFromEnstruction_soundAt r.1 (hNext.symm ▸ hCleared)).bind
  intro t' hTarget
  exact (issueChecked_bearings _ _).soundAt hTarget

theorem requestTrack_bearings (nextNode prevNode : Node) :
    KeepsBearings t (requestTrack world around t nextNode prevNode) := by
  refine Yields.skip fun _ _ => Yields.skip fun _ _ => Yields.skip fun _ _ => ?_
  exact EndsWell.ite (fun _ => EndsWell.pure (issueCommand_bearings _)) fun _ => EndsWell.pure rfl

theorem updatePosition_soundAt (h : t.engineer.bearings.Sound around.currentTime)
    (prevNode nextNode : Node) (dist : Int) :
    SoundAt around.currentTime (updatePosition world around t tid prevNode nextNode dist) := by
  refine EndsWell.ite (fun _ => ?_) fun _ => EndsWell.ite (fun _ => ?_) fun _ => ?_
  · refine Yields.skip fun _ _ => Yields.skip fun _ _ => Yields.skip fun _ _ =>
      Yields.skip fun _ _ => (requestTrack_bearings _ _).soundAt ?_
    exact ⟨h.targetOffset, h.sensorDist, le_rfl⟩
  · exact Yields.skip fun _ _ => Yields.skip fun _ _ => EndsWell.pure h
  · exact (requestTrack_bearings _ _).soundAt h

theorem locate_bearings (trackBitmap : TrackBitmap) (e : Engineer Node) :
    Yields (fun l => l.engineer.bearings = e.bearings) (locate world around trackBitmap e) := by
  apply (locate_moves trackBitmap e).mono
  intro l hMoves
  obtain ⟨state, velocity, distSoFar, deceleration, hMoved⟩ := hMoves
  rw [hMoved]
  rfl

section messages

variable [DecidableEq Node]

theorem checkTarget_soundAt (h : t.engineer.bearings.Sound clock) :
    SoundAt clock (checkTarget world t) := by
  rw [checkTarget_eq]
  exact Yields.skip fun stops _ =>
    EndsWell.ite (fun _ => reachTarget_soundAt h) fun _ => EndsWell.pure h

theorem updateLocation_soundAt (h : t.engineer.bearings.Sound around.currentTime) :
    SoundAt around.currentTime (updateLocation world around t tid) := by
  by_cases hReady : t.engineer.state = .ready
  · rw [updateLocation]
    exact EndsWell.ite (fun _ => EndsWell.pure h) fun hNot => absurd hReady hNot
  cases hTriggered : t.engineer.triggeredSensor with
  | true =>
    rw [updateLocation]
    refine EndsWell.ite (fun hIs => absurd hIs hReady) fun _ => ?_
    exact EndsWell.ite (fun _ => EndsWell.pure h) fun hNot => absurd hTriggered hNot
  | false =>
    rw [updateLocation_eq world around t tid hReady hTriggered]
    apply (locate_bearings t.trackBitmap t.engineer).bind
    intro l hLocated
    have hSound : l.engineer.bearings.Sound around.currentTime := hLocated.symm ▸ h
    refine (checkTarget_soundAt (t := { t with engineer := l.engineer }) hSound).bind
      fun t' hChecked => ?_
    exact updatePosition_soundAt hChecked ..

omit [DecidableEq Node] in
theorem claimNext_bearings : KeepsBearings t (claimNext world t) := by
  refine EndsWell.ite (fun _ => ?_) fun _ => ?_
  · exact Yields.skip fun _ _ => EndsWell.pure rfl
  · exact Yields.skip fun _ _ => Yields.skip fun _ _ => EndsWell.pure rfl

omit [DecidableEq Node] in
theorem passSensor_bearings (t : EngineerTurn Node) :
    (passSensor t).engineer.bearings = t.engineer.bearings := by
  rw [passSensor]
  split_ifs
  · rfl
  · rfl
  · rfl
  · rfl

omit [DecidableEq Node] in
theorem recordSensor_bearings (e : Engineer Node) (sensor time : Int)
    (message : LocationMessage Node) :
    (recordSensor e sensor time message).bearings = e.bearings := by
  rw [recordSensor, learn]
  split_ifs
  · rfl
  · rfl
  · rfl

omit [DecidableEq Node] in
theorem assertThat_eq_ok {check : Check} {p : Bool} (h : assertThat check p = .ok ()) :
    p = true := by
  rw [assertThat] at h
  split_ifs at h with hp
  exact hp

theorem updateSensor_soundAt {sensor time : Int} (h : t.engineer.bearings.Sound clock)
    (hTime : time ≤ clock) : SoundAt clock (updateSensor world t tid sensor time) := by
  refine Yields.skip fun _ _ => EndsWell.ite (fun _ => EndsWell.pure h) fun _ => ?_
  refine Yields.skip fun nextSensor _ => Yields.skip fun sensorDist _ =>
    Yields.skip fun _ hDist => Yields.skip fun _ _ => Yields.skip fun _ _ =>
    Yields.skip fun _ _ => Yields.skip fun _ _ => Yields.skip fun expectedTime _ => ?_
  apply claimNext_bearings.soundAt
  rw [passSensor_bearings]
  change Bearings.Sound clock (recordSensor _ sensor time _).bearings
  rw [recordSensor_bearings]
  exact ⟨h.targetOffset, of_decide_eq_true (assertThat_eq_ok hDist), hTime⟩

theorem go_soundAt (h : t.engineer.bearings.Sound clock) (index : Int) :
    SoundAt clock (go world around t tid index) := by
  refine Yields.skip fun src _ => ?_
  dsimp only
  cases goRoute world around src (world.gTrack index) with
  | error fault => exact Yields.error
  | ok r =>
    refine EndsWell.ite (fun _ => EndsWell.pure h) fun _ => Yields.skip fun book _ => ?_
    refine EndsWell.ite (fun _ => ?_) fun _ => EndsWell.pure h
    apply nextEnstruction_bearings.bind
    intro r hNext
    exact setTargetFromEnstruction_soundAt r.1 (hNext.symm ▸ h)

omit [DecidableEq Node] in
theorem commandWorkerReverseSet_bearings :
    KeepsBearings t (commandWorkerReverseSet world t tid) := by
  refine Yields.skip fun _ _ => Yields.skip fun _ _ => Yields.skip fun _ _ =>
    Yields.skip fun _ _ => Yields.skip fun _ _ => ?_
  refine EndsWell.ite (fun _ => ?_) fun _ => EndsWell.ite (fun _ => ?_) fun _ => ?_
  · exact Yields.skip fun _ _ => EndsWell.pure rfl
  · exact Yields.skip fun _ _ => EndsWell.pure rfl
  · exact EndsWell.pure rfl

omit [DecidableEq Node] in
theorem commandWorkerRequest_bearings : KeepsBearings t (commandWorkerRequest t tid) := by
  refine Yields.skip fun _ _ => EndsWell.ite (fun _ => EndsWell.pure rfl) fun _ => ?_
  exact Yields.skip fun _ _ => EndsWell.pure rfl

theorem engineerRound_soundAt {e : Engineer Node} {round : EngineerRound Node}
    (h : e.bearings.Sound round.around.currentTime) (hOffset : round.OffsetNonneg)
    (hTime : ∀ time ∈ round.message.reportedTime, time ≤ round.around.currentTime) :
    SoundAt round.around.currentTime (engineerRound world e round) := by
  rw [engineerRound]
  cases hMessage : round.message with
  | updateLocation => exact updateLocation_soundAt h
  | updateSensor sensor time =>
    exact updateSensor_soundAt h (hTime time (by rw [hMessage]; rfl))
  | timeoutSensor => exact Yields.error
  | go index => exact go_soundAt h index
  | xMark index offset =>
    have hNonneg : 0 ≤ offset := hOffset offset (by rw [hMessage]; rfl)
    exact Yields.skip fun _ _ => EndsWell.pure ⟨hNonneg, h.sensorDist, h.prevNodeTime⟩
  | setSpeed speed => exact Yields.skip fun _ _ => (issueChecked_bearings _ _).soundAt h
  | setReverse => exact Yields.skip fun _ _ => (issueChecked_bearings _ _).soundAt h
  | initializeTrain trainNumber sensorIndex => exact Yields.error
  | commandWorkerRequest => exact commandWorkerRequest_bearings.soundAt h
  | commandWorkerSpeedSet speed => exact EndsWell.ok h
  | commandWorkerReverseSet => exact commandWorkerReverseSet_bearings.soundAt h
  | sensorCourierRequest =>
    apply EndsWell.ok
    rw [sensorCourierRequest]
    split_ifs
    · exact h
    · exact h

end messages

/-- What holds of the engineer as long as the clock and the offsets are as they should be. -/
structure Engineer.Steady (clock : Int) (e : Engineer Node) : Prop where
  paced : e.drive.Paced
  timed : e.drive.Timed
  bearings : e.bearings.Sound clock

theorem Engineer.start_steady (trainNumber creationTime : Int) (locationWorkerTid : Nat)
    (cmdBuf : Nat → Command) (outstandingClaim : SensorClaim)
    (locationMessage : LocationMessage Node) (ebook : Ebook Node) :
    (Engineer.start trainNumber creationTime locationWorkerTid cmdBuf outstandingClaim
      locationMessage ebook).Steady 0 where
  paced := ⟨le_rfl, trivial⟩
  timed := by
    refine ⟨⟨fun hState => absurd rfl hState, nofun⟩, ?_, ite_eq_or_eq ..⟩
    intro s i
    change 0 ≤ if s = 0 then (0 : Int) else 50
    split_ifs
    · decide
    · decide
  bearings := ⟨le_rfl, le_rfl, le_rfl⟩

theorem Engineer.Steady.round [DecidableEq Node] {e : Engineer Node} {round : EngineerRound Node}
    (h : e.Steady clock) (hClock : clock ≤ round.around.currentTime)
    (hTime : ∀ time ∈ round.message.reportedTime, time ≤ round.around.currentTime)
    (hOffset : round.OffsetNonneg) (hLearns : e.LearnsOnly Drive.LearnsInRange round) :
    Yields (fun t => t.engineer.Steady round.around.currentTime) (engineerRound world e round) := by
  have hBearings : SoundAt round.around.currentTime (engineerRound world e round) :=
    engineerRound_soundAt (h.bearings.later hClock) hOffset hTime
  have hDrive : Yields (fun t => t.engineer.drive.Paced ∧ t.engineer.drive.Timed)
      (engineerRound world e round) :=
    ((Drive.Paced.invariant _).round h.paced round hLearns).and
      (Drive.Timed.invariant.round h.timed round hLearns)
  exact (hDrive.and hBearings).mono fun t ht => ⟨ht.1.1, ht.1.2, ht.2⟩

/-- The engineer is steady whenever the next message comes. -/
theorem engineerServer_steady [DecidableEq Node] {e e' : Engineer Node}
    {rounds : List (EngineerRound Node)} {round : EngineerRound Node} (h : e.Steady clock)
    (hClock : OnTime clock (rounds ++ [round])) (hOffsets : ∀ r ∈ rounds, r.OffsetNonneg)
    (hLearns : EveryRound world (Engineer.LearnsOnly Drive.LearnsInRange) e rounds)
    (hRun : engineerServer world e rounds = .ok e') :
    e'.Steady round.around.currentTime := by
  induction rounds generalizing e clock with
  | nil =>
    obtain rfl := Except.ok.inj hRun
    exact ⟨h.paced, h.timed, h.bearings.later hClock.1⟩
  | cons first rounds ih =>
    obtain ⟨hNow, hTime, hLater⟩ := hClock
    obtain ⟨hLearn, hLearns⟩ := hLearns
    have hStep : Yields (fun t => t.engineer.Steady first.around.currentTime)
        (engineerRound world e first) :=
      h.round hNow hTime (hOffsets first List.mem_cons_self) hLearn
    obtain ⟨t, hTurn, hRest⟩ := exists_of_bind_eq_ok hRun
    rw [hTurn] at hLearns
    exact ih (hStep.of_ok hTurn) hLater
      (fun r hMem => hOffsets r (List.mem_cons_of_mem _ hMem)) hLearns hRest

end TrainKernel.User
