import TrainKernel.User.EngineerSafety

/-!
# State and speed of a train

A train that the engineer believes to move has a speed, and one that stops or stands has none.
While it is ready or reversing the engineer takes any speed, and the next sensor or the next
location update decides by it.
-/

namespace TrainKernel.User

open Library.Outcome

variable {Node : Type} {world : EngineerWorld Node} {e : Engineer Node}

/-- What a state says about the speed. -/
def TrainState.Fits : TrainState → Int → Prop
  | .accelerating, speed | .running, speed => 0 < speed
  | .stopped, speed | .decelerating, speed => speed = 0
  | _, _ => True

theorem TrainState.fits_iff {state : TrainState} {speed : Int} : state.Fits speed ↔
    (state = .accelerating ∨ state = .running → 0 < speed) ∧
      (state = .stopped ∨ state = .decelerating → speed = 0) := by
  cases state <;> simp [Fits]

theorem fits_stateAfterSpeed (state : TrainState) {speed : Int} (hSpeed : 0 ≤ speed) :
    (stateAfterSpeed state speed).Fits speed := by
  cases state with
  | init | ready | reversing => exact trivial
  | stopped | decelerating =>
    rw [stateAfterSpeed]
    split_ifs with hPos
    · exact hPos
    · exact le_antisymm (not_lt.mp hPos) hSpeed
  | running | accelerating =>
    rw [stateAfterSpeed]
    split_ifs with hZero
    · exact hZero
    · exact lt_of_le_of_ne hSpeed (Ne.symm hZero)

theorem reportedSpeed_cases (message : EngineerMessage) :
    message.reportedSpeed = none ∨ ∃ speed, message = .commandWorkerSpeedSet speed := by
  cases message with
  | commandWorkerSpeedSet speed => exact .inr ⟨speed, rfl⟩
  | _ => exact .inl rfl

theorem toChar_nonneg (x : Int) : 0 ≤ toChar x := Int.emod_nonneg x (by decide)

/-- What holds of the drive is kept by a step, and by any speed that the worker could report. -/
structure Drive.Invariant (Learns : Drive → Int → Int → Prop) (Inv : Drive → Prop) : Prop where
  step : ∀ {d d' : Drive}, Inv d → Drive.Step Learns d d' → Inv d'
  setSpeed : ∀ {d : Drive} {speed : Int}, Inv d → 0 ≤ speed → Inv { d with
    prevSpeed := d.speed, speed := speed, state := stateAfterSpeed d.state speed }

namespace Drive.Invariant

variable {Learns : Drive → Int → Int → Prop} {Inv : Drive → Prop} {d d' : Drive}

theorem steps (hInv : Drive.Invariant Learns Inv) (h : Inv d)
    (hSteps : Drive.Steps Learns d d') : Inv d' := by
  induction hSteps with
  | refl => exact h
  | tail _ hStep ih => exact hInv.step ih hStep

variable [DecidableEq Node]

theorem round (hInv : Drive.Invariant Learns Inv) (h : Inv e.drive) (round : EngineerRound Node)
    (hLearns : e.LearnsOnly Learns round) :
    Yields (fun t => Inv t.engineer.drive) (engineerRound world e round) := by
  rcases reportedSpeed_cases round.message with hNone | ⟨speed, hMessage⟩
  · have hNothing : round.SpeedInRange := by
      intro speed hSpeed
      rw [hNone] at hSpeed
      cases hSpeed
    exact (engineerRound_steps world nofun hNothing hLearns nofun).mono
      fun t hSteps => hInv.steps h hSteps
  · rw [engineerRound, hMessage]
    exact EndsWell.ok (hInv.setSpeed h (toChar_nonneg speed))

theorem server (hInv : Drive.Invariant Learns Inv) (h : Inv e.drive)
    {rounds : List (EngineerRound Node)}
    (hLearns : EveryRound world (Engineer.LearnsOnly Learns) e rounds) :
    Yields (fun e' => Inv e'.drive) (engineerServer world e rounds) := by
  apply engineerServer_invariant _ h hLearns
  exact fun e round _ hInvariant hRound => hInv.round hInvariant round hRound

end Drive.Invariant

structure Drive.Paced (d : Drive) : Prop where
  nonneg : 0 ≤ d.speed
  fits : d.state.Fits d.speed

namespace Drive.Paced

variable {d d' : Drive}

theorem arrived (h : d.Paced) : d.arrived.state.Fits d.speed := by
  have hFits := h.fits
  rw [Drive.arrived]
  cases hState : d.state with
  | ready =>
    dsimp only
    split_ifs with hSpeed
    · exact lt_of_le_of_ne h.nonneg (Ne.symm hSpeed)
    · exact not_not.mp hSpeed
  | init | stopped | accelerating | running | reversing | decelerating =>
    rw [hState] at hFits
    exact hFits

theorem step {Learns : Drive → Int → Int → Prop} (h : d.Paced) (hStep : Drive.Step Learns d d') :
    d'.Paced := by
  cases hStep with
  | halt hState =>
    have hFits := h.fits
    rw [hState] at hFits
    exact ⟨h.nonneg, hFits⟩
  | turn hState =>
    refine ⟨h.nonneg, ?_⟩
    dsimp only
    split_ifs with hZero
    · exact hZero
    · exact lt_of_le_of_ne h.nonneg (Ne.symm hZero)
  | pass hTime => exact ⟨h.nonneg, h.arrived⟩
  | learn hTime hState => exact ⟨h.nonneg, h.arrived⟩
  | setSpeed h0 h14 => exact ⟨h0, fits_stateAfterSpeed d.state h0⟩
  | setReverse hSeen =>
    refine ⟨h.nonneg, ?_⟩
    dsimp only
    split_ifs
    · exact trivial
    · exact trivial

theorem invariant (Learns : Drive → Int → Int → Prop) : Drive.Invariant Learns Drive.Paced where
  step := step
  setSpeed _ hSpeed := ⟨hSpeed, fits_stateAfterSpeed _ hSpeed⟩

end Drive.Paced

variable [DecidableEq Node]

/-- A train that accelerates or runs has a speed, and one that has stopped or decelerates has
none, after any messages. -/
theorem state_matches_speed (world : EngineerWorld Node) (trainNumber creationTime : Int)
    (locationWorkerTid : Nat) (cmdBuf : Nat → Command) (outstandingClaim : SensorClaim)
    (locationMessage : LocationMessage Node) (ebook : Ebook Node)
    (rounds : List (EngineerRound Node)) (e : Engineer Node)
    (hRun : engineerServer world (Engineer.start trainNumber creationTime locationWorkerTid cmdBuf
      outstandingClaim locationMessage ebook) rounds = .ok e) :
    (e.state = .accelerating ∨ e.state = .running → 0 < e.speed) ∧
      (e.state = .stopped ∨ e.state = .decelerating → e.speed = 0) := by
  have hStart : (Engineer.start trainNumber creationTime locationWorkerTid cmdBuf
      outstandingClaim locationMessage ebook).drive.Paced := ⟨le_rfl, trivial⟩
  have hPaced : e.drive.Paced :=
    ((Drive.Paced.invariant fun _ _ _ => True).server hStart
      (.of_forall fun _ _ _ _ _ _ _ => trivial)).of_ok hRun
  exact TrainState.fits_iff.mp hPaced.fits

/-- The train is set to speed 5, meets a sensor and is stopped. -/
def startAndStop : List (EngineerRound (Bool × Bool)) :=
  [circleRound 9 (.commandWorkerSpeedSet 5) 30, circleRound 8 (.updateSensor 0 100) 100,
    circleRound 9 (.commandWorkerSpeedSet 0) 110]

theorem state_matches_speed_circle :
    ∃ e, engineerServer circleWorld circleEngineer startAndStop = .ok e ∧
      e.state = .decelerating ∧
      (e.state = .accelerating ∨ e.state = .running → 0 < e.speed) ∧
        (e.state = .stopped ∨ e.state = .decelerating → e.speed = 0) :=
  ⟨_, rfl, rfl, state_matches_speed circleWorld 66 0 7 _ _ _ _ startAndStop _ rfl⟩

end TrainKernel.User
