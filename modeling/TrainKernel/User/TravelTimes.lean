import TrainKernel.User.EngineerBearings

/-!
# Travel times

How long a train takes to a sensor is learned as a weighted average of what was known and of what
has just been measured. A report counts only if it is later than the last one that did, so what is
measured is at least one tick, and so is every average. The sums are those of exact integers as
long as the clock is below `2 ^ 24`.
-/

namespace TrainKernel.User

open Library.Int32 Library.Outcome

variable {Node : Type}

namespace Drive

variable {d d' : Drive}

/-- The clock stays below this bound. -/
def Early (_ : Drive) (_ time : Int) : Prop := time < 2 ^ 24

/-- The learned times of a train that moves are at least one tick, and none is longer than the
clock has been running, apart from the first guess. -/
structure Clocked (d : Drive) : Prop extends d.Timed where
  creationTime : 0 ≤ d.creationTime
  pos : ∀ s i, 1 ≤ s → 1 ≤ d.timeDeltas s i
  le : ∀ s i, d.timeDeltas s i ≤ max 50 d.creationTime

theorem Clocked.learnsInRange (h : d.Clocked) {sensor time : Int} (hTime : d.creationTime < time)
    (hState : d.state = .running) (hEarly : time < 2 ^ 24) : d.LearnsInRange sensor time := by
  have hLast := h.lastTime_of_running hState
  have hClock := h.creationTime
  have hPast := h.timeDeltas d.speed sensor
  have hPastBound : d.timeDeltas d.speed sensor < 2 ^ 24 :=
    (h.le d.speed sensor).trans_lt (by omega)
  have hNew : 0 ≤ time - d.lastTime ∧ time - d.lastTime < 2 ^ 24 := by omega
  constructor
  · rw [FitsInt]
    omega
  · rw [FitsInt, alpha]
    omega
  · simp only [FitsInt, alpha]
    omega
  · simp only [FitsInt, alpha]
    omega

/-- As long as the clock is early no average overflows. -/
theorem Clocked.inRange (h : d.Clocked) (hStep : Step Early d d') : Step LearnsInRange d d' := by
  cases hStep with
  | halt hState => exact .halt hState
  | turn hState => exact .turn hState
  | pass hTime => exact .pass hTime
  | learn hTime hState hEarly => exact .learn hTime hState (h.learnsInRange hTime hState hEarly)
  | setSpeed h0 h14 => exact .setSpeed h0 h14
  | setReverse hSeen => exact .setReverse hSeen

theorem Clocked.le_later (h : d.Clocked) {time : Int} (hTime : d.creationTime < time) (s i : Int) :
    d.timeDeltas s i ≤ max 50 time :=
  (h.le s i).trans (max_le_max_left 50 hTime.le)

theorem Clocked.learned_le (h : d.Clocked) {sensor time : Int} (hTime : d.creationTime < time)
    (hState : d.state = .running) (hEarly : time < 2 ^ 24) (s i : Int) :
    d.learned sensor time s i ≤ max 50 time := by
  have hLast := h.lastTime_of_running hState
  have hClock := h.creationTime
  apply forall_learned (P := fun _ v => v ≤ max 50 time) (h.le_later hTime)
  exact (h.learnsInRange hTime hState hEarly).average_le (by omega)
    (le_max_of_le_right (by omega)) (h.timeDeltas d.speed sensor) (h.le_later hTime d.speed sensor)

theorem Clocked.learned_pos (h : d.Clocked) {sensor time : Int} (hTime : d.creationTime < time)
    (hState : d.state = .running) (hEarly : time < 2 ^ 24) (s i : Int) (hs : 1 ≤ s) :
    1 ≤ d.learned sensor time s i := by
  have hLast := h.lastTime_of_running hState
  exact (h.learnsInRange hTime hState hEarly).learned_pos (hLast.trans_lt hTime) h.pos s i hs

theorem Clocked.step (h : d.Clocked) (hStep : Step Early d d') : d'.Clocked := by
  have hTimed := h.toTimed.step (h.inRange hStep)
  have hClock := h.creationTime
  cases hStep with
  | pass hTime => exact ⟨hTimed, hClock.trans hTime.le, h.pos, h.le_later hTime⟩
  | learn hTime hState hEarly =>
    exact ⟨hTimed, hClock.trans hTime.le, h.learned_pos hTime hState hEarly,
      h.learned_le hTime hState hEarly⟩
  | halt | turn | setSpeed | setReverse => exact ⟨hTimed, hClock, h.pos, h.le⟩

theorem Clocked.invariant : Drive.Invariant Early Clocked where
  step := Clocked.step
  setSpeed h _ := ⟨h.toTimed.setSpeed _, h.creationTime, h.pos, h.le⟩

end Drive

/-- Nothing overflows when the engineer learns from the sensor at that time. -/
abbrev Engineer.LearnsInRange (e : Engineer Node) (sensor time : Int) : Prop :=
  e.drive.LearnsInRange sensor time

/-- The time of a sensor's report, if the message is one, is below `2 ^ 24`. -/
abbrev EngineerRound.Early (round : EngineerRound Node) : Prop :=
  ∀ update ∈ round.message.sensorUpdate, update.time < 2 ^ 24

theorem Engineer.start_clocked {trainNumber creationTime : Int} {locationWorkerTid : Nat}
    {cmdBuf : Nat → Command} {outstandingClaim : SensorClaim}
    {locationMessage : LocationMessage Node} {ebook : Ebook Node} (hClock : 0 ≤ creationTime) :
    (Engineer.start trainNumber creationTime locationWorkerTid cmdBuf outstandingClaim
      locationMessage ebook).drive.Clocked where
  toTimed := (Engineer.start_steady ..).timed
  creationTime := hClock
  pos := by
    intro s i hs
    change 1 ≤ if s = 0 then (0 : Int) else 50
    rw [if_neg (by omega)]
    decide
  le := by
    intro s i
    change (if s = 0 then (0 : Int) else 50) ≤ max 50 creationTime
    split_ifs
    · exact le_max_of_le_left (by decide)
    · exact le_max_left 50 creationTime

variable [DecidableEq Node]

/-- A report that is not later than the last one that counted does not count. -/
theorem updateSensor_rejected {world : EngineerWorld Node} {t : EngineerTurn Node} {tid : Nat}
    {sensor time : Int} (hTime : time ≤ t.engineer.creationTime) :
    Yields (fun t' => t'.engineer = t.engineer) (updateSensor world t tid sensor time) :=
  Yields.skip fun _ _ =>
    EndsWell.ite (fun _ => EndsWell.pure rfl) fun hLate => absurd hTime hLate

/-- After any messages whose times are below `2 ^ 24` every time that has been learned for a train
that moves is at least one tick, and nothing overflows when the next one is learned. The two times
that are kept of the last report agree, so what is not later is rejected. -/
theorem learned_times_stay_positive (world : EngineerWorld Node) (trainNumber creationTime : Int)
    (locationWorkerTid : Nat) (cmdBuf : Nat → Command) (outstandingClaim : SensorClaim)
    (locationMessage : LocationMessage Node) (ebook : Ebook Node)
    (rounds : List (EngineerRound Node)) (e : Engineer Node)
    (hRun : engineerServer world (Engineer.start trainNumber creationTime locationWorkerTid cmdBuf
      outstandingClaim locationMessage ebook) rounds = .ok e) :
    (0 ≤ creationTime → (∀ round ∈ rounds, round.Early) →
      (∀ s j, 1 ≤ s → s ≤ 14 → 1 ≤ e.timeDeltas s j) ∧
        (e.state = .running → ∀ sensor time, e.creationTime < time → time < 2 ^ 24 →
          e.LearnsInRange sensor time)) ∧
      (e.prevNode.isSome → ∀ trackBitmap tid sensor time t, time ≤ e.lastUpdate.time →
        updateSensor world ⟨e, trackBitmap, []⟩ tid sensor time = .ok t → t.engineer = e) := by
  constructor
  · intro hClock hEarly
    have hClocked : e.drive.Clocked := (Drive.Clocked.invariant.server
      (Engineer.start_clocked hClock) (.of_forall fun round hMem _ update hUpdate _ _ =>
        hEarly round hMem update hUpdate)).of_ok hRun
    refine ⟨fun s j hs _ => hClocked.pos s j hs, ?_⟩
    intro hState sensor time hTime hBound
    exact hClocked.learnsInRange hTime hState hBound
  · intro hSeen trackBitmap tid sensor time t hTime hUpdate
    have hDated : e.drive.Dated := ((Drive.Dated.invariant fun _ _ _ => True).server
      (Engineer.start_steady ..).timed.toDated (.of_forall fun _ _ _ _ _ _ _ => trivial)).of_ok hRun
    have hLast : e.lastUpdate.time = e.creationTime := hDated.lastTime hSeen
    have hRejected : time ≤ e.creationTime := hTime.trans_eq hLast
    exact (updateSensor_rejected (t := ⟨e, trackBitmap, []⟩) hRejected).of_ok hUpdate

/-- The train meets a sensor at every tick, and one report comes twice. -/
def lap : List (EngineerRound (Bool × Bool)) :=
  [circleRound 9 (.commandWorkerSpeedSet 5) 30,
    circleRound 8 (.updateSensor 0 100) 100,
    circleRound 8 .sensorCourierRequest 101,
    circleRound 8 (.updateSensor 1 101) 102,
    circleRound 8 .sensorCourierRequest 103,
    circleRound 8 (.updateSensor 0 102) 104,
    circleRound 8 .sensorCourierRequest 105,
    circleRound 8 (.updateSensor 0 102) 106,
    circleRound 8 (.updateSensor 1 103) 107]

theorem learned_times_stay_positive_circle :
    ∃ e, engineerServer circleWorld circleEngineer lap = .ok e ∧ e.timeDeltas 5 0 = 8 ∧
      1 ≤ e.timeDeltas 5 0 ∧ e.LearnsInRange 0 104 := by
  have hEnds : (engineerServer circleWorld circleEngineer lap).toOption.map
      (fun e => (e.timeDeltas 5 0, e.state, e.creationTime)) = some (8, .running, 103) := by
    decide +kernel
  cases hRun : engineerServer circleWorld circleEngineer lap with
  | error fault =>
    rw [hRun] at hEnds
    cases hEnds
  | ok e =>
    rw [hRun] at hEnds
    obtain ⟨hTime, hState, hClock⟩ := Prod.mk.inj (Option.some.inj hEnds) |>.imp_right Prod.mk.inj
    obtain ⟨hPositive, hRange⟩ :=
      (learned_times_stay_positive circleWorld 66 0 7 _ _ _ _ lap e hRun).1 le_rfl (by decide)
    refine ⟨e, rfl, hTime, hPositive 5 0 (by decide) (by decide), ?_⟩
    exact hRange hState 0 104 (by omega) (by decide)

end TrainKernel.User
