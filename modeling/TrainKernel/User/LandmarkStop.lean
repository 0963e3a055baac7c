import TrainKernel.User.EngineerBearings

/-!
# Stopping at a landmark

The distance to a target that does not lie ahead is -1, and the engineer corrects it like any other
distance. Where the train has a speed and no sum overflows, nothing of what is subtracted can be
negative, and where it has none there is no braking distance, so that -1 never stops the train.
-/

namespace TrainKernel.User

open Library.Int32 Library.Outcome

variable {Node : Type} {world : EngineerWorld Node} {around : Surroundings Node}
variable {e : Engineer Node} {track : Track Node} {trackBitmap : TrackBitmap}

/-- The turnouts lead from the one node to the other. -/
def Track.LeadsTo (track : Track Node) (trackBitmap : TrackBitmap) : Node → Node → Prop :=
  Relation.TransGen fun n m => getNextNode track trackBitmap n = .ok (some m)

section walk

variable [DecidableEq Node]

theorem distanceLoop_leads {src dst : Node} {rounds : Nat} {total : Int} :
    Yields (fun dist => dist ≠ -1 → track.LeadsTo trackBitmap src dst)
      (distanceLoop track trackBitmap dst rounds src total) := by
  induction rounds generalizing src total with
  | zero => exact EndsWell.pure fun hNe => absurd rfl hNe
  | succ rounds ih =>
    rw [distanceLoop]
    refine Yields.skip fun nextEdge hEdge => ?_
    cases nextEdge with
    | none => exact EndsWell.pure fun hNe => absurd rfl hNe
    | some d =>
      dsimp only
      cases hDest : track.dest src d with
      | none => exact EndsWell.pure fun hNe => absurd rfl hNe
      | some node =>
        have hNext : getNextNode track trackBitmap src = .ok (some node) := by
          rw [getNextNode, hEdge]
          exact congrArg Except.ok hDest
        refine EndsWell.ite (fun hFound => EndsWell.pure fun _ => ?_) fun _ => ?_
        · rw [← hFound]
          exact .single hNext
        · exact ih.mono fun dist hRest hNe => .head hNext (hRest hNe)

theorem distanceBetween_leads {src dst : Option Node} {dist : Int}
    (hDist : distanceBetween track trackBitmap src dst = .ok dist) (hNe : dist ≠ -1) :
    ∃ n m, src = some n ∧ dst = some m ∧ track.LeadsTo trackBitmap n m := by
  have hYields : Yields (fun dist => dist ≠ -1 →
      ∃ n m, src = some n ∧ dst = some m ∧ track.LeadsTo trackBitmap n m)
      (distanceBetween track trackBitmap src dst) := by
    refine Yields.skip fun n hSrc => Yields.skip fun m hDst => ?_
    apply distanceLoop_leads.mono
    intro dist hLeads hNe
    exact ⟨n, m, known_eq_ok hSrc, known_eq_ok hDst, hLeads hNe⟩
  exact hYields.of_ok hDist hNe

end walk

/-- How far the train has come from the last node at the pace of the learned time. -/
def Engineer.travelled (world : EngineerWorld Node) (currentTime : Int) (e : Engineer Node)
    (nextSensor : Node) : Int :=
  (currentTime - e.prevNodeTime) *
    e.sensorDist.tdiv (e.timeDeltas e.speed (world.track.idx nextSensor))

/-- Unless the train comes to a stop, the distance is computed from the last node anew. -/
theorem updateDistance_nonneg (h : e.Steady around.currentTime) {nextSensor : Node}
    (hDecelerating : e.state ≠ .decelerating) (hStopped : e.state ≠ .stopped)
    (hFits : FitsInt (e.travelled world around.currentTime nextSensor)) :
    Yields (fun e' => 0 ≤ e'.distSoFar) (updateDistance world around e nextSensor) := by
  rw [updateDistance, if_neg hDecelerating, if_pos hStopped]
  have hDelta : Yields (fun delta => delta = e.timeDeltas e.speed (world.track.idx nextSensor))
      (e.timeDelta e.speed (world.track.idx nextSensor)) :=
    EndsWell.ite (fun _ => EndsWell.ok rfl) fun _ => Yields.error
  refine hDelta.bind fun delta hDelta => ?_
  rw [hDelta, divide]
  refine Yields.skip fun velocity hVelocity => EndsWell.pure ?_
  split_ifs at hVelocity with hZero
  have hElapsed : e.prevNodeTime ≤ around.currentTime := h.bearings.prevNodeTime
  have hPace : 0 ≤ velocity := by
    rw [← Except.ok.inj hVelocity]
    exact Int.tdiv_nonneg h.bearings.sensorDist (h.timed.timeDeltas _ _)
  have hProduct : (around.currentTime - e.prevNodeTime) * velocity =
      e.travelled world around.currentTime nextSensor := by
    rw [Engineer.travelled, Except.ok.inj hVelocity]
  change 0 ≤ wrap32 ((around.currentTime - e.prevNodeTime) * velocity)
  rw [wrap32_of_fits (hProduct ▸ hFits)]
  exact Int.mul_nonneg (Int.sub_nonneg_of_le hElapsed) hPace

theorem locate_nonneg (h : e.Steady around.currentTime) (hDecelerating : e.state ≠ .decelerating)
    (hStopped : e.state ≠ .stopped)
    (hFits : ∀ nextSensor ∈ e.nextSensor,
      FitsInt (e.travelled world around.currentTime nextSensor)) :
    Yields (fun l => 0 ≤ l.engineer.distSoFar) (locate world around trackBitmap e) := by
  refine Yields.skip fun _ _ => Yields.skip fun _ _ => Yields.skip fun nextSensor hNext =>
    Yields.skip fun _ _ => Yields.skip fun _ _ => Yields.skip fun _ _ => Yields.skip fun _ _ => ?_
  have hTravelled := hFits nextSensor (known_eq_ok hNext)
  exact (updateDistance_nonneg h hDecelerating hStopped hTravelled).bind fun e' hDist =>
    EndsWell.pure hDist

theorem stoppingDist_of_rest (h : e.drive.Timed) : e.stoppingDist 0 = .ok 0 := by
  rw [Engineer.stoppingDist]
  cases h.stoppingDistance with
  | inl hTable =>
    rw [show e.stoppingDistance = stoppingDist62 from hTable]
    rfl
  | inr hTable =>
    rw [show e.stoppingDistance = stoppingDist66 from hTable]
    rfl

variable [DecidableEq Node]

/-- The handler of a location update stops the train for its target. -/
structure StopsForTarget (world : EngineerWorld Node) (round : EngineerRound Node)
    (e : Engineer Node) : Prop where
  message : round.message = .updateLocation
  state : e.state ≠ .ready
  triggeredSensor : e.triggeredSensor = false
  stops : (do
    let located ← locate world round.around round.trackBitmap e
    stopsAtTarget world round.trackBitmap located.engineer) = .ok true

/-- What is left of the way to the target behind the place where the pick-up is. -/
def remainingDistance (world : EngineerWorld Node) (trackBitmap : TrackBitmap)
    (e : Engineer Node) : Except EngineerFault Int := do
  let dist ← distanceBetween world.track trackBitmap e.prevNode e.targetNode
  return dist - (if e.isForward then 0 else pickUpOffset) - e.targetOffset - e.distSoFar

/-- The sums of the location update that decide about the stop do not overflow. -/
structure Engineer.LocatesInRange (world : EngineerWorld Node) (e : Engineer Node)
    (round : EngineerRound Node) : Prop where
  travelled : e.state ≠ .decelerating → e.state ≠ .stopped → ∀ nextSensor ∈ e.nextSensor,
    FitsInt (e.travelled world round.around.currentTime nextSensor)
  remaining : ∀ located remaining, locate world round.around round.trackBitmap e = .ok located →
    remainingDistance world round.trackBitmap located.engineer = .ok remaining → FitsInt remaining

/-- The target lies ahead of the last node. -/
def TargetAhead (world : EngineerWorld Node) (trackBitmap : TrackBitmap) (e : Engineer Node) :
    Prop :=
  ∃ n m, e.prevNode = some n ∧ e.targetNode = some m ∧ world.track.LeadsTo trackBitmap n m

theorem stopsAtTarget_true (hStops : stopsAtTarget world trackBitmap e = .ok true) :
    ∃ remaining stoppingDist, remainingDistance world trackBitmap e = .ok remaining ∧
      e.stoppingDist e.speed = .ok stoppingDist ∧ 0 < stoppingDist ∧ 0 ≤ wrap32 remaining := by
  have hYields : Yields (fun stops => stops = true →
      ∃ remaining stoppingDist, remainingDistance world trackBitmap e = .ok remaining ∧
        e.stoppingDist e.speed = .ok stoppingDist ∧ 0 < stoppingDist ∧ 0 ≤ wrap32 remaining)
      (stopsAtTarget world trackBitmap e) := by
    refine EndsWell.ite (fun _ => EndsWell.pure (by simp)) fun _ => Yields.skip fun dist hDist =>
      Yields.skip fun stoppingDist hStopping => EndsWell.pure fun hTrue => ?_
    obtain ⟨hNonneg, hPos, -⟩ := of_decide_eq_true hTrue
    refine ⟨_, stoppingDist, ?_, hStopping, hPos, hNonneg⟩
    rw [remainingDistance, hDist]
    rfl
  exact hYields.of_ok hStops rfl

theorem pickUpOffset_nonneg (isForward : Bool) :
    0 ≤ if isForward then 0 else pickUpOffset := by
  cases isForward <;> decide

/-- A steady engineer has no braking distance, or a distance so far that is not negative. -/
theorem located_ahead {l : Located Node} {round : EngineerRound Node}
    (h : e.Steady round.around.currentTime) (hRange : e.LocatesInRange world round)
    (hLocate : locate world round.around round.trackBitmap e = .ok l)
    (hStops : stopsAtTarget world round.trackBitmap l.engineer = .ok true) :
    TargetAhead world round.trackBitmap e := by
  have hNonneg : e.state ≠ .decelerating → e.state ≠ .stopped → 0 ≤ l.engineer.distSoFar :=
    fun hDecelerating hStopped => (locate_nonneg h hDecelerating hStopped
      (hRange.travelled hDecelerating hStopped)).of_ok hLocate
  obtain ⟨state, velocity, distSoFar, deceleration, hMoved⟩ :=
    (locate_moves round.trackBitmap e).of_ok hLocate
  obtain ⟨remaining, stoppingDist, hRemaining, hStopping, hPos, hReached⟩ :=
    stopsAtTarget_true hStops
  rw [wrap32_of_fits (hRange.remaining l remaining hLocate hRemaining)] at hReached
  obtain ⟨dist, hDist, hLeft⟩ := exists_of_bind_eq_ok hRemaining
  rw [← Except.ok.inj hLeft] at hReached
  rw [hMoved] at hNonneg hDist hStopping hReached
  have hSpeed : e.speed ≠ 0 := by
    intro hZero
    have hRest : e.stoppingDist e.speed = .ok stoppingDist := hStopping
    rw [hZero, stoppingDist_of_rest h.timed] at hRest
    exact hPos.ne (Except.ok.inj hRest)
  have hFits : e.state = .stopped ∨ e.state = .decelerating → e.speed = 0 :=
    (TrainState.fits_iff.mp h.paced.fits).2
  have hSoFar : 0 ≤ distSoFar :=
    hNonneg (fun hState => hSpeed (hFits (.inr hState))) fun hState => hSpeed (hFits (.inl hState))
  have hOffset : 0 ≤ e.targetOffset := h.bearings.targetOffset
  have hPickUp := pickUpOffset_nonneg e.isForward
  change 0 ≤ dist - (if e.isForward then 0 else pickUpOffset) - e.targetOffset - distSoFar
    at hReached
  generalize (if e.isForward then 0 else pickUpOffset) = pickUp at hPickUp hReached
  exact distanceBetween_leads hDist (by omega)

theorem StopsForTarget.ahead {round : EngineerRound Node} (hStops : StopsForTarget world round e)
    (h : e.Steady round.around.currentTime) (hRange : e.LocatesInRange world round) :
    TargetAhead world round.trackBitmap e := by
  have hLocated := hStops.stops
  cases hLocate : locate world round.around round.trackBitmap e with
  | error fault =>
    rw [hLocate] at hLocated
    cases hLocated
  | ok l =>
    rw [hLocate] at hLocated
    exact located_ahead h hRange hLocate hLocated

omit [DecidableEq Node] in
theorem updatePosition_target {t : EngineerTurn Node} {tid : Nat} (prevNode nextNode : Node)
    (dist : Int) : Yields (fun t' => t'.engineer.targetNode = t.engineer.targetNode)
      (updatePosition world around t tid prevNode nextNode dist) := by
  have hIssue (t : EngineerTurn Node) (command : Command) :
      (issueCommand t command).1.engineer.targetNode = t.engineer.targetNode := by
    rw [issueCommand]
    split
    · rfl
    · rfl
  have hRequest (t : EngineerTurn Node) (nextNode prevNode : Node) :
      Yields (fun t' => t'.engineer.targetNode = t.engineer.targetNode)
        (requestTrack world around t nextNode prevNode) :=
    Yields.skip fun _ _ => Yields.skip fun _ _ => Yields.skip fun _ _ =>
      EndsWell.ite (fun _ => EndsWell.pure (hIssue _ _)) fun _ => EndsWell.pure rfl
  refine EndsWell.ite (fun _ => ?_) fun _ => EndsWell.ite (fun _ => ?_) fun _ => hRequest _ _ _
  · exact Yields.skip fun _ _ => Yields.skip fun _ _ => Yields.skip fun _ _ =>
      Yields.skip fun _ _ => hRequest _ _ _
  · exact Yields.skip fun _ _ => Yields.skip fun _ _ => EndsWell.pure rfl

/-- A location update that does not stop for the target leaves it as it is. -/
theorem updateLocation_target {round : EngineerRound Node}
    (hMessage : round.message = .updateLocation) (hStops : ¬StopsForTarget world round e) :
    Yields (fun t => t.engineer.targetNode = e.targetNode) (engineerRound world e round) := by
  rw [engineerRound, hMessage, handleMessage]
  by_cases hReady : e.state = .ready
  · exact EndsWell.ite (fun _ => EndsWell.pure rfl) fun hNot => absurd hReady hNot
  cases hTriggered : e.triggeredSensor with
  | true =>
    refine EndsWell.ite (fun hIs => absurd hIs hReady) fun _ => ?_
    exact EndsWell.ite (fun _ => EndsWell.pure rfl) fun hNot => absurd hTriggered hNot
  | false =>
    rw [updateLocation_eq world round.around _ round.tid hReady hTriggered]
    refine Yields.skip fun l hLocate => ?_
    obtain ⟨state, velocity, distSoFar, deceleration, hMoved⟩ :=
      (locate_moves round.trackBitmap e).of_ok hLocate
    have hKept : l.engineer.targetNode = e.targetNode := by rw [hMoved]; rfl
    rw [checkTarget_eq, bind_assoc]
    refine Yields.skip fun stops hStopsAt => ?_
    cases stops with
    | true =>
      refine absurd ⟨hMessage, hReady, hTriggered, ?_⟩ hStops
      rw [hLocate]
      exact hStopsAt
    | false => exact (updatePosition_target ..).mono fun t' hTarget => hTarget.trans hKept

/-- In any run without an overflow the train stops for its target, and the target is given up for
it, only if the turnouts lead there from the last node. -/
theorem landmark_stop_ahead (world : EngineerWorld Node) (trainNumber creationTime : Int)
    (locationWorkerTid : Nat) (cmdBuf : Nat → Command) (outstandingClaim : SensorClaim)
    (locationMessage : LocationMessage Node) (ebook : Ebook Node)
    (rounds : List (EngineerRound Node)) (e : Engineer Node) (round : EngineerRound Node)
    (hRun : engineerServer world (Engineer.start trainNumber creationTime locationWorkerTid cmdBuf
      outstandingClaim locationMessage ebook) rounds = .ok e)
    (hClock : OnTime 0 (rounds ++ [round])) (hOffsets : ∀ r ∈ rounds, r.OffsetNonneg)
    (hLearns : EveryRound world (Engineer.LearnsOnly Drive.LearnsInRange)
      (Engineer.start trainNumber creationTime locationWorkerTid cmdBuf outstandingClaim
        locationMessage ebook) rounds)
    (hRange : e.LocatesInRange world round) :
    (StopsForTarget world round e → TargetAhead world round.trackBitmap e) ∧
      ∀ t, round.message = .updateLocation → engineerRound world e round = .ok t →
        t.engineer.targetNode ≠ e.targetNode → TargetAhead world round.trackBitmap e := by
  have hSteady := engineerServer_steady (Engineer.start_steady trainNumber creationTime
    locationWorkerTid cmdBuf outstandingClaim locationMessage ebook) hClock hOffsets hLearns hRun
  constructor
  · intro hStops
    exact hStops.ahead hSteady hRange
  · intro t hMessage hTurn hChanged
    by_contra hBehind
    have hStops : ¬StopsForTarget world round e := fun hStops =>
      hBehind (hStops.ahead hSteady hRange)
    exact hChanged ((updateLocation_target hMessage hStops).of_ok hTurn)

/-- The train is set to speed 5, meets a sensor and is to stop at the next one. -/
def approach : List (EngineerRound (Bool × Bool)) :=
  [circleRound 9 (.commandWorkerSpeedSet 5) 30, circleRound 8 (.updateSensor 0 100) 100,
    circleRound 3 (.xMark 1 0) 105, circleRound 7 .updateLocation 110]

theorem landmark_stop_ahead_circle :
    ∃ e, engineerServer circleWorld circleEngineer approach = .ok e ∧
      StopsForTarget circleWorld (circleRound 7 .updateLocation 150) e ∧
      TargetAhead circleWorld 0 e := by
  have hClock : OnTime 0 (approach ++ [circleRound 7 .updateLocation 150]) :=
    ⟨by decide, by decide, by decide, by decide, by decide, by decide, by decide, by decide,
      by decide, by decide, trivial⟩
  obtain ⟨e, hRun, hStops, hRange⟩ :
      ∃ e, engineerServer circleWorld circleEngineer approach = .ok e ∧
        StopsForTarget circleWorld (circleRound 7 .updateLocation 150) e ∧
        e.LocatesInRange circleWorld (circleRound 7 .updateLocation 150) := by
    refine ⟨_, rfl, ⟨rfl, nofun, rfl, rfl⟩, ?_, ?_⟩
    · rintro - - nextSensor ⟨⟩
      decide
    · rintro located remaining ⟨⟩ ⟨⟩
      decide
  exact ⟨e, hRun, hStops, (landmark_stop_ahead circleWorld 66 0 7 _ _ _ _ approach e _ hRun hClock
    (by decide) (by decide) hRange).1 hStops⟩

end TrainKernel.User
