import TrainKernel.User.CommandWorker
import TrainKernel.User.EngineerDriving

/-!
# Divisions of the engineer

The handler of location updates divides twice. Whether a divisor is zero depends on the whole
run: on the speeds that the command worker has reported and on the reversals between them.
-/

namespace TrainKernel.User

open Library.Outcome

variable {Node : Type} [DecidableEq Node] {world : EngineerWorld Node} {e : Engineer Node}

def EngineerMessage.sensorUpdate : EngineerMessage → Option SensorUpdate
  | .updateSensor sensor time => some ⟨sensor, time⟩
  | _ => none

/-- The engineer learns from the message, if at all, only as it may. -/
def Engineer.LearnsOnly (Learns : Drive → Int → Int → Prop) (e : Engineer Node)
    (round : EngineerRound Node) : Prop :=
  ∀ update ∈ round.message.sensorUpdate, e.creationTime < update.time → e.state = .running →
    Learns e.drive update.sensor update.time

instance (Learns : Drive → Int → Int → Prop) [∀ d sensor time, Decidable (Learns d sensor time)]
    (e : Engineer Node) : DecidablePred (e.LearnsOnly Learns) :=
  fun round => inferInstanceAs (Decidable (∀ update ∈ round.message.sensorUpdate, _))

/-- A location update is harmless unless it is computed while the engineer is at rest. -/
def Engineer.LooksInMotion (e : Engineer Node) (round : EngineerRound Node) : Prop :=
  round.message = .updateLocation → e.triggeredSensor = true ∨ ¬e.AtRest

instance : DecidablePred e.LooksInMotion :=
  fun round => inferInstanceAs (Decidable (round.message = .updateLocation → _))

def EngineerMessage.reportedSpeed : EngineerMessage → Option Int
  | .commandWorkerSpeedSet speed => some speed
  | _ => none

abbrev EngineerRound.SpeedInRange (round : EngineerRound Node) : Prop :=
  ∀ speed ∈ round.message.reportedSpeed, 0 ≤ speed ∧ speed ≤ 14

variable (world) in
theorem engineerRound_steps {Learns : Drive → Int → Int → Prop} {bad : EngineerFault → Prop}
    {round : EngineerRound Node} (hBad : ∀ fault, bad fault → fault = .divideByZero)
    (hSpeed : round.SpeedInRange) (hLearns : e.LearnsOnly Learns round)
    (hSafe : bad .divideByZero → e.drive.Sound ∧ e.LooksInMotion round) :
    EndsWell bad (fun t => Drive.Steps Learns e.drive t.engineer.drive)
      (engineerRound world e round) := by
  rw [engineerRound]
  cases hMessage : round.message with
  | updateLocation =>
    refine updateLocation_steps hBad fun hFault => ?_
    obtain ⟨hSound, hLooks⟩ := hSafe hFault
    refine ⟨hSound, fun hTriggered => ?_⟩
    exact (hLooks hMessage).resolve_left (Bool.eq_false_iff.mp hTriggered)
  | updateSensor sensor time =>
    have hUpdate : ⟨sensor, time⟩ ∈ round.message.sensorUpdate := by
      rw [hMessage]
      rfl
    exact (updateSensor_steps sensor time (hLearns ⟨sensor, time⟩ hUpdate)).weaken hBad
  | timeoutSensor => exact EndsWell.error fun h => nomatch hBad _ h
  | go index => exact (KeepsDrive.makesSteps (go_keeps index)).weaken hBad
  | xMark index offset => exact (xMark_steps index offset).weaken hBad
  | setSpeed speed => exact (setSpeed_steps speed).weaken hBad
  | setReverse => exact setReverse_steps.weaken hBad
  | initializeTrain trainNumber sensorIndex => exact EndsWell.error fun h => nomatch hBad _ h
  | commandWorkerRequest => exact (KeepsDrive.makesSteps commandWorkerRequest_keeps).weaken hBad
  | commandWorkerSpeedSet speed =>
    obtain ⟨h0, h14⟩ := hSpeed speed (by rw [hMessage]; rfl)
    exact EndsWell.ok (commandWorkerSpeedSet_steps ⟨e, round.trackBitmap, []⟩ h0 h14)
  | commandWorkerReverseSet => exact commandWorkerReverseSet_steps.weaken hBad
  | sensorCourierRequest => exact EndsWell.ok ((sensorCourierRequest_drive ⟨e, _, _⟩).symm ▸ .refl)

def EveryRound (world : EngineerWorld Node) (P : Engineer Node → EngineerRound Node → Prop) :
    Engineer Node → List (EngineerRound Node) → Prop
  | _, [] => True
  | e, round :: rounds =>
    P e round ∧ match engineerRound world e round with
      | .ok t => EveryRound world P t.engineer rounds
      | .error _ => True

instance instDecidableEveryRound (P : Engineer Node → EngineerRound Node → Prop)
    [∀ e round, Decidable (P e round)] :
    ∀ (rounds : List (EngineerRound Node)) (e : Engineer Node),
      Decidable (EveryRound world P e rounds)
  | [], _ => isTrue trivial
  | round :: rounds, e =>
    have : Decidable (match engineerRound world e round with
        | .ok t => EveryRound world P t.engineer rounds
        | .error _ => True) :=
      match engineerRound world e round with
      | .ok t => instDecidableEveryRound P rounds t.engineer
      | .error _ => isTrue trivial
    instDecidableAnd

theorem EveryRound.of_forall {P : Engineer Node → EngineerRound Node → Prop}
    {rounds : List (EngineerRound Node)} (h : ∀ round ∈ rounds, ∀ e, P e round) :
    EveryRound world P e rounds := by
  induction rounds generalizing e with
  | nil => trivial
  | cons round rounds ih =>
    refine ⟨h round List.mem_cons_self e, ?_⟩
    cases engineerRound world e round with
    | error => trivial
    | ok t => exact ih fun _ hMem => h _ (List.mem_cons_of_mem _ hMem)

theorem EveryRound.and {P Q : Engineer Node → EngineerRound Node → Prop}
    {rounds : List (EngineerRound Node)} (hP : EveryRound world P e rounds)
    (hQ : EveryRound world Q e rounds) :
    EveryRound world (fun e round => P e round ∧ Q e round) e rounds := by
  induction rounds generalizing e with
  | nil => trivial
  | cons round rounds ih =>
    refine ⟨⟨hP.1, hQ.1⟩, ?_⟩
    have hRestP := hP.2
    have hRestQ := hQ.2
    cases hRound : engineerRound world e round with
    | error => trivial
    | ok t =>
      rw [hRound] at hRestP hRestQ
      exact ih hRestP hRestQ

theorem engineerServer_invariant {bad : EngineerFault → Prop} {Inv : Engineer Node → Prop}
    {P : Engineer Node → EngineerRound Node → Prop} {rounds : List (EngineerRound Node)}
    (hStep : ∀ e, ∀ round ∈ rounds, Inv e → P e round →
      EndsWell bad (fun t => Inv t.engineer) (engineerRound world e round))
    (h : Inv e) (hRounds : EveryRound world P e rounds) :
    EndsWell bad Inv (engineerServer world e rounds) := by
  induction rounds generalizing e with
  | nil => exact EndsWell.ok h
  | cons round rounds ih =>
    obtain ⟨hRound, hRest⟩ := hRounds
    apply (hStep e round List.mem_cons_self h hRound).and_eq.bind
    intro t ht
    rw [ht.2] at hRest
    exact ih (fun e round hMem => hStep e round (List.mem_cons_of_mem _ hMem)) ht.1 hRest

theorem engineerServer_endsWell {rounds : List (EngineerRound Node)} (h : e.drive.Sound)
    (hSpeeds : ∀ round ∈ rounds, round.SpeedInRange)
    (hLooks : EveryRound world Engineer.LooksInMotion e rounds)
    (hLearns : EveryRound world (Engineer.LearnsOnly Drive.LearnsInRange) e rounds) :
    EndsWell (· = .divideByZero) (fun e' => e'.drive.Sound) (engineerServer world e rounds) := by
  apply engineerServer_invariant _ h (hLooks.and hLearns)
  intro e round hMem hSound hRound
  have hSteps := engineerRound_steps world (fun _ hFault => hFault) (hSpeeds round hMem) hRound.2
    fun _ => ⟨hSound, hRound.1⟩
  exact hSteps.mono fun t hSteps => hSteps.sound hSound

/-- A run divides by zero neither while the engineer is at rest, which no location update may find,
nor by a time that it has learned, as long as no average of times overflows. -/
theorem no_division_by_zero (world : EngineerWorld Node) (trainNumber creationTime : Int)
    (locationWorkerTid : Nat) (cmdBuf : Nat → Command) (outstandingClaim : SensorClaim)
    (locationMessage : LocationMessage Node) (ebook : Ebook Node)
    (rounds : List (EngineerRound Node)) (hSpeeds : ∀ round ∈ rounds, round.SpeedInRange)
    (hLooks : EveryRound world Engineer.LooksInMotion (Engineer.start trainNumber creationTime
      locationWorkerTid cmdBuf outstandingClaim locationMessage ebook) rounds)
    (hLearns : EveryRound world (Engineer.LearnsOnly Drive.LearnsInRange)
      (Engineer.start trainNumber creationTime locationWorkerTid cmdBuf outstandingClaim
        locationMessage ebook) rounds) :
    engineerServer world (Engineer.start trainNumber creationTime locationWorkerTid cmdBuf
      outstandingClaim locationMessage ebook) rounds ≠ .error .divideByZero :=
  (engineerServer_endsWell (Engineer.start_sound ..) hSpeeds hLooks hLearns).ne_error rfl

/-- Where no average overflows, the condition is exact: a run that goes on meets it. -/
theorem everyRound_of_ok {rounds : List (EngineerRound Node)} {e' : Engineer Node}
    (h : e.drive.Sound) (hSpeeds : ∀ round ∈ rounds, round.SpeedInRange)
    (hLearns : EveryRound world (Engineer.LearnsOnly Drive.LearnsInRange) e rounds)
    (hRun : engineerServer world e rounds = .ok e') :
    EveryRound world Engineer.LooksInMotion e rounds := by
  induction rounds generalizing e with
  | nil => trivial
  | cons round rounds ih =>
    obtain ⟨hLearn, hLearns⟩ := hLearns
    have hSteps : EndsWell (fun _ => False)
        (fun t => Drive.Steps Drive.LearnsInRange e.drive t.engineer.drive)
        (engineerRound world e round) :=
      engineerRound_steps world nofun (hSpeeds round List.mem_cons_self) hLearn nofun
    have hLooks : ∀ t, engineerRound world e round = .ok t → e.LooksInMotion round := by
      intro t hRound hMessage
      by_contra hRest
      rw [not_or, not_not] at hRest
      rw [engineerRound, hMessage] at hRound
      exact (updateLocation_atRest h hRest.2 hRest.1).of_ok hRound
    obtain ⟨t, hRound, hRest⟩ := exists_of_bind_eq_ok hRun
    rw [hRound] at hLearns
    rw [EveryRound, hRound]
    refine ⟨hLooks t hRound, ih ((hSteps.of_ok hRound).sound h) ?_ hLearns hRest⟩
    exact fun _ hMem => hSpeeds _ (List.mem_cons_of_mem _ hMem)

/-- A circle with two sensors, and the way back around it. -/
def circle : Track (Bool × Bool) where
  idx n := 2 * n.2.toNat + n.1.toNat
  type _ := .sensor
  num n := 2 * n.2.toNat + n.1.toNat
  reverse n := (n.1, !n.2)
  dest n d := if d = dirAhead then some (!n.1, n.2) else none
  dist _ _ := 100

def circleWorld : EngineerWorld (Bool × Bool) :=
  ⟨circle, fun i => (decide (i % 2 = 1), decide (2 ≤ i)), 5⟩

def circleEngineer : Engineer (Bool × Bool) :=
  Engineer.start 66 0 7 (fun _ => ⟨.setSpeed, 0, 0⟩) ⟨0, 0⟩ ⟨.init, 0, 0, 0, 0, none, none, none⟩
    ⟨fun _ => ⟨0, 0, ⟨none, 0⟩, fun _ => 0, fun _ => none⟩, 0⟩

def circleRound (tid : Nat) (message : EngineerMessage) (currentTime : Int) :
    EngineerRound (Bool × Bool) where
  tid := tid
  message := message
  around :=
    { currentTime := currentTime
      owner := Owners.free (Bool × Bool)
      trackReply := .success
      gNodes := fun _ => ⟨none, none, 0, 0, false⟩
      pb := ⟨0, 0, fun _ => none, fun _ => false⟩ }
  trackBitmap := 0

/-- The train is set to speed 5, meets a sensor and is reversed: it has been turned, and is not
yet set back to its speed. -/
def reversal : List (EngineerRound (Bool × Bool)) :=
  [circleRound 9 .commandWorkerRequest 10,
    circleRound 3 (.setSpeed 5) 20,
    circleRound 9 (.commandWorkerSpeedSet 5) 30,
    circleRound 9 .commandWorkerRequest 30,
    circleRound 8 (.updateSensor 0 100) 100,
    circleRound 7 .updateLocation 110,
    circleRound 7 .updateLocation 130,
    circleRound 3 .setReverse 140,
    circleRound 9 (.commandWorkerSpeedSet 0) 141,
    circleRound 7 .updateLocation 150,
    circleRound 9 .commandWorkerReverseSet 441]

def sped : List (EngineerRound (Bool × Bool)) :=
  reversal ++ [circleRound 9 (.commandWorkerSpeedSet 5) 456, circleRound 7 .updateLocation 460]

theorem divides_by_zero :
    followsWorker circleWorld (commandWorker 9) circleEngineer
      (reversal ++ [circleRound 7 .updateLocation 450]) = true ∧
    engineerServer circleWorld circleEngineer (reversal ++ [circleRound 7 .updateLocation 450])
      = .error .divideByZero := by
  exact ⟨rfl, rfl⟩

theorem no_division_by_zero_circle :
    followsWorker circleWorld (commandWorker 9) circleEngineer sped = true ∧
      engineerServer circleWorld circleEngineer sped ≠ .error .divideByZero :=
  ⟨rfl, no_division_by_zero circleWorld 66 0 7 _ _ _ _ sped (by decide) (by decide) (by decide)⟩

end TrainKernel.User
