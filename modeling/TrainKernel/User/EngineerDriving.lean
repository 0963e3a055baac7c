import TrainKernel.User.Driving
import TrainKernel.User.TurnFrames

/-!
# The engineer drives in steps

Every message that an engineer handles makes steps of its drive, and only an update of the
location can divide by zero.
-/

namespace TrainKernel.User

open Function Library.Outcome

variable {Node : Type} {α β : Type}

abbrev Harmless (x : Except EngineerFault α) : Prop :=
  EndsWell (· = EngineerFault.divideByZero) (fun _ => True) x

theorem Harmless.bind {x : Except EngineerFault α} {f : α → Except EngineerFault β}
    {P : β → Prop} (h : Harmless x)
    (hf : ∀ a, EndsWell (· = EngineerFault.divideByZero) P (f a)) :
    EndsWell (· = EngineerFault.divideByZero) P (x >>= f) :=
  EndsWell.bind h fun a _ => hf a

theorem Harmless.pure (a : α) : Harmless (Pure.pure a : Except EngineerFault α) := trivial

theorem Harmless.error {fault : EngineerFault} (h : fault ≠ .divideByZero) :
    Harmless (.error fault : Except EngineerFault α) := h

theorem Clean.harmless {x : Except EngineerFault α} (h : Clean x) : Harmless x :=
  h.weaken (by rintro _ rfl; trivial)

theorem harmless_known (check : Check) (pointer : Option α) : Harmless (known check pointer) := by
  cases pointer with
  | none => exact Harmless.error (by simp)
  | some x => trivial

theorem known_eq_ok {check : Check} {pointer : Option α} {x : α}
    (h : known check pointer = .ok x) : pointer = some x := by
  cases pointer with
  | none => exact nomatch h
  | some y => exact congrArg some (Except.ok.inj h)

theorem harmless_deref (name : Pointer) (pointer : Option α) : Harmless (deref name pointer) := by
  cases pointer with
  | none => exact Harmless.error (by simp)
  | some x => trivial

theorem harmless_assertThat (check : Check) (p : Bool) : Harmless (assertThat check p) :=
  EndsWell.ite (fun _ => trivial) fun _ => Harmless.error (by simp)

theorem harmless_distanceBetween [DecidableEq Node] (track : Track Node)
    (trackBitmap : TrackBitmap) (src dst : Option Node) :
    Harmless (distanceBetween track trackBitmap src dst) :=
  (harmless_known _ _).bind fun _ => (harmless_known _ _).bind fun _ =>
    (clean_distanceLoop ..).harmless

theorem harmless_getNextClaims (track : Track Node) (trackBitmap : TrackBitmap)
    (prevNode : Option Node) : Harmless (getNextClaims track trackBitmap prevNode) :=
  (harmless_known _ _).bind fun _ => (clean_getNextClaimsLoop ..).harmless

section keep

variable {t : EngineerTurn Node} {world : EngineerWorld Node} {around : Surroundings Node}

abbrev KeepsDrive (t : EngineerTurn Node) (x : Except EngineerFault (EngineerTurn Node)) : Prop :=
  EndsWell (· = EngineerFault.divideByZero)
    (fun t' : EngineerTurn Node => t'.engineer.drive = t.engineer.drive) x

@[simp] theorem issueCommand_drive (command : Command) :
    (issueCommand t command).1.engineer.drive = t.engineer.drive := by
  rw [issueCommand]
  split <;> rfl

@[simp] theorem sendLocation_drive (tid : Nat) (message : LocationMessage Node) :
    (sendLocation t tid message).engineer.drive = t.engineer.drive := rfl

theorem drive_frame :
    CommandFrame fun t t' : EngineerTurn Node => t'.engineer.drive = t.engineer.drive where
  toTurnFrame := .of_view (·.engineer.drive) (fun _ _ _ _ => rfl) fun _ _ _ _ => rfl
  issue _ command := issueCommand_drive command

theorem ofState_of_divides (fault : EngineerFault) (h : fault = .divideByZero) : fault.OfState := by
  rw [h]
  trivial

theorem issueChecked_keeps (type : CommandType) (speed : Int) :
    KeepsDrive t (issueChecked t type speed) :=
  issueChecked_frame drive_frame ofState_of_divides type speed

theorem requestTrack_keeps (nextNode prevNode : Node) :
    KeepsDrive t (requestTrack world around t nextNode prevNode) :=
  requestTrack_frame drive_frame ofState_of_divides (fun _ _ => rfl) nextNode prevNode

theorem checkTarget_keeps [DecidableEq Node] : KeepsDrive t (checkTarget world t) := by
  have hStops : Harmless (stopsAtTarget world t.trackBitmap t.engineer) :=
    EndsWell.ite (fun _ => trivial) fun _ => (harmless_distanceBetween ..).bind fun _ =>
      (clean_stoppingDist _ _).harmless.bind fun _ => trivial
  exact checkTarget_frame drive_frame ofState_of_divides hStops

end keep

/-- The engineer has no speed to compute with: it has reported the stop of a reversal and not
yet the restored speed, or it has reported two stops in a row before it looked. -/
def Engineer.AtRest (e : Engineer Node) : Prop :=
  e.state = .reversing ∧ e.speed = 0 ∨
    e.state = .decelerating ∧ e.deceleration = 0 ∧ e.prevSpeed = 0

instance (e : Engineer Node) : Decidable e.AtRest := inferInstanceAs (Decidable (_ ∨ _))

theorem Engineer.start_sound (trainNumber creationTime : Int) (locationWorkerTid : Nat)
    (cmdBuf : Nat → Command) (outstandingClaim : SensorClaim)
    (locationMessage : LocationMessage Node) (ebook : Ebook Node) :
    (Engineer.start trainNumber creationTime locationWorkerTid cmdBuf outstandingClaim
      locationMessage ebook).drive.Sound where
  speed := ⟨le_rfl, (by decide : (0 : Int) ≤ 14)⟩
  prevSpeed := ⟨le_rfl, (by decide : (0 : Int) ≤ 14)⟩
  state_ne := TrainState.noConfusion
  moving := by rintro (h | h) <;> exact nomatch h
  seen h := absurd rfl h
  lastTime h := nomatch h
  stoppingDistance := ite_eq_or_eq ..
  timeDeltas s i hs := by
    change 1 ≤ if s = 0 then (0 : Int) else 50
    rw [if_neg (by omega)]
    decide
  timeDeltas_zero _ := rfl

theorem stoppingDist_pos {e : Engineer Node} (h : e.drive.Sound) {speed dist : Int}
    (hSpeed : 1 ≤ speed) (hDist : e.stoppingDist speed = .ok dist) : 0 < dist := by
  have hTable : ∀ table : List Int, table = stoppingDist62 ∨ table = stoppingDist66 →
      ∀ dist ∈ table.tail, 0 < dist := by
    rintro table (rfl | rfl) <;> decide
  have hMem := hTable e.stoppingDistance h.stoppingDistance dist
  obtain ⟨n, rfl⟩ : ∃ n : Nat, speed = n + 1 := ⟨(speed - 1).toNat, by omega⟩
  rw [Engineer.stoppingDist] at hDist
  apply hMem
  split at hDist
  · rename_i d hGet
    rw [if_pos (by omega)] at hDist
    obtain rfl := Except.ok.inj hDist
    rw [show ((n : Int) + 1).toNat = n + 1 by omega] at hGet
    rw [List.mem_iff_getElem?]
    exact ⟨n, by rw [List.getElem?_tail, hGet]⟩
  · cases hDist

theorem timeDelta_pos {e : Engineer Node} (h : e.drive.Sound) {speed sensor delta : Int}
    (hSpeed : 1 ≤ speed) (hDelta : e.timeDelta speed sensor = .ok delta) : 1 ≤ delta := by
  rw [Engineer.timeDelta] at hDelta
  split_ifs at hDelta
  rw [← Except.ok.inj hDelta]
  exact h.timeDeltas speed sensor hSpeed

theorem stoppingDist_zero {e : Engineer Node} (h : e.drive.Sound) : e.stoppingDist 0 = .ok 0 := by
  rw [Engineer.stoppingDist]
  obtain hTable | hTable := h.stoppingDistance <;>
    rw [show e.stoppingDistance = _ from hTable] <;> rfl

theorem timeDelta_zero {e : Engineer Node} (h : e.drive.Sound) {speed sensor delta : Int}
    (hSpeed : speed = 0) (hDelta : e.timeDelta speed sensor = .ok delta) : delta = 0 := by
  rw [Engineer.timeDelta] at hDelta
  split_ifs at hDelta
  rw [← Except.ok.inj hDelta, hSpeed]
  exact h.timeDeltas_zero sensor

theorem Engineer.speed_pos {e : Engineer Node} (h : e.drive.Sound) (hReady : e.state ≠ .ready)
    (hRest : ¬e.AtRest) (hDecelerating : e.state ≠ .decelerating) (hStopped : e.state ≠ .stopped) :
    1 ≤ e.speed := by
  have hSpeed : 0 ≤ e.speed := h.speed.1
  have hNe : e.state ≠ .init := h.state_ne
  have hMoving : e.state = .accelerating ∨ e.state = .running → 0 < e.speed := h.moving
  have hZero : e.state = .reversing → e.speed ≠ 0 := fun hState h0 => hRest (Or.inl ⟨hState, h0⟩)
  cases hState : e.state <;> simp_all <;> omega

section distance

variable {bad : EngineerFault → Prop} {world : EngineerWorld Node} {around : Surroundings Node}
variable {e : Engineer Node}

theorem divide_endsWell {a b : Int} (hb : bad .divideByZero → b ≠ 0) :
    EndsWell bad (fun _ => True) (divide a b) :=
  EndsWell.ite (fun h => EndsWell.error fun hFault => hb hFault h) fun _ => trivial

/-- The distance calculations may stop the train, and divide by zero only where the engineer is
at rest. -/
theorem updateDistance_steps (Learns : Drive → Int → Int → Prop) (nextSensor : Node)
    (hBad : ∀ fault, bad fault → fault = .divideByZero)
    (hSafe : bad .divideByZero → e.drive.Sound ∧ e.state ≠ .ready ∧ ¬e.AtRest) :
    EndsWell bad (fun e' => Drive.Steps Learns e.drive e'.drive ∧ e'.prevNode = e.prevNode)
      (updateDistance world around e nextSensor) := by
  refine EndsWell.ite (fun hState => ?_) fun hState => EndsWell.ite (fun hStopped => ?_) fun _ =>
    EndsWell.pure ⟨.refl, rfl⟩
  · refine EndsWell.bind (P := fun _ => True) ?_ fun deceleration _ =>
      EndsWell.ite (fun _ => EndsWell.pure ⟨.single (.halt hState), rfl⟩) fun _ =>
      EndsWell.pure ⟨.refl, rfl⟩
    refine EndsWell.ite (fun hZero => ?_) fun _ => EndsWell.pure trivial
    refine ((clean_stoppingDist e e.prevSpeed).harmless.weaken hBad).and_eq.bind fun dist hDist =>
      divide_endsWell fun hFault => ?_
    obtain ⟨hSound, -, hRest⟩ := hSafe hFault
    have hPrev : 0 ≤ e.prevSpeed := hSound.prevSpeed.1
    have hNe : e.prevSpeed ≠ 0 := fun h => hRest (Or.inr ⟨hState, hZero, h⟩)
    have := stoppingDist_pos hSound (by omega) hDist.2
    omega
  · refine ((clean_timeDelta e e.speed _).harmless.weaken hBad).and_eq.bind fun delta hDelta =>
      (divide_endsWell fun hFault => ?_).bind fun _ _ => EndsWell.pure ⟨.refl, rfl⟩
    obtain ⟨hSound, hReady, hRest⟩ := hSafe hFault
    have := timeDelta_pos hSound (Engineer.speed_pos hSound hReady hRest hState hStopped) hDelta.2
    omega

theorem updateDistance_atRest (h : e.drive.Sound) (hRest : e.AtRest) (nextSensor : Node) :
    EndsWell (fun _ => False) (fun _ => False) (updateDistance world around e nextSensor) := by
  rcases hRest with ⟨hState, hSpeed⟩ | ⟨hState, hZero, hPrev⟩
  · rw [updateDistance, if_neg (by rw [hState]; decide), if_pos (by rw [hState]; decide)]
    refine ((clean_timeDelta e e.speed _).harmless.weaken nofun).and_eq.bind fun delta hDelta => ?_
    rw [timeDelta_zero h hSpeed hDelta.2]
    exact nofun
  · rw [updateDistance, if_pos hState, currentDeceleration, if_pos hZero, hPrev,
      stoppingDist_zero h]
    exact nofun

end distance

section message

variable {Learns : Drive → Int → Int → Prop} {bad : EngineerFault → Prop}
variable {world : EngineerWorld Node} {around : Surroundings Node}
variable {t : EngineerTurn Node} {tid : Nat}

abbrev MakesSteps (Learns : Drive → Int → Int → Prop) (bad : EngineerFault → Prop)
    (t : EngineerTurn Node) (x : Except EngineerFault (EngineerTurn Node)) : Prop :=
  EndsWell bad
    (fun t' : EngineerTurn Node => Drive.Steps Learns t.engineer.drive t'.engineer.drive) x

theorem KeepsDrive.makesSteps {x : Except EngineerFault (EngineerTurn Node)}
    (h : KeepsDrive t x) : MakesSteps Learns (· = .divideByZero) t x :=
  h.mono fun _ hEq => hEq ▸ .refl

variable (Learns) in
theorem updatePosition_steps (hSeen : t.engineer.drive.seen = true) (prevNode nextNode : Node)
    (dist : Int) : MakesSteps Learns (· = .divideByZero) t
      (updatePosition world around t tid prevNode nextNode dist) := by
  refine EndsWell.ite (fun _ => ?_) fun _ => EndsWell.ite (fun hState => ?_) fun _ => ?_
  · refine (clean_getNextNode ..).harmless.bind fun _ => (harmless_known _ _).bind fun _ =>
      (clean_getNextEdge ..).harmless.bind fun _ => (harmless_known _ _).bind fun _ => ?_
    apply (requestTrack_keeps _ _).mono
    intro t' hEq
    have hSame : t'.engineer.drive = t.engineer.drive := by
      rw [hEq, sendLocation_drive]
      simp only [Engineer.drive, Option.isSome_some] at hSeen ⊢
      rw [hSeen]
    exact hSame ▸ .refl
  · refine (clean_getNextNode ..).harmless.bind fun _ => (harmless_deref _ _).bind fun _ =>
      EndsWell.pure ?_
    exact .single (.turn hState)
  · exact (requestTrack_keeps _ _).makesSteps

theorem updateLocation_steps [DecidableEq Node]
    (hBad : ∀ fault, bad fault → fault = .divideByZero)
    (hSafe : bad .divideByZero → t.engineer.drive.Sound ∧
      (t.engineer.triggeredSensor = false → ¬t.engineer.AtRest)) :
    MakesSteps Learns bad t (updateLocation world around t tid) := by
  refine EndsWell.ite (fun _ => EndsWell.pure .refl) fun hReady =>
    EndsWell.ite (fun _ => EndsWell.pure .refl) fun hTriggered => ?_
  have hPrev : EndsWell bad (fun node => t.engineer.prevNode = some node)
      (known .known t.engineer.prevNode) :=
    ((harmless_known _ _).weaken hBad).and_eq.mono fun _ h => known_eq_ok h.2
  refine hPrev.bind fun prevNode hSeen =>
    ((harmless_known _ _).weaken hBad).bind fun _ _ =>
    ((harmless_known _ _).weaken hBad).bind fun nextSensor _ =>
    ((clean_getNextNode ..).harmless.weaken hBad).bind fun _ _ =>
    ((harmless_known _ _).weaken hBad).bind fun nextNode _ =>
    ((clean_getNextEdge ..).harmless.weaken hBad).bind fun _ _ =>
    ((harmless_known _ _).weaken hBad).bind fun nextEdge _ =>
    (updateDistance_steps Learns nextSensor hBad fun hFault => ?_).bind fun e hSteps =>
    (checkTarget_keeps.weaken hBad).bind fun t' hEq =>
    ((updatePosition_steps Learns ?_ _ _ _).weaken hBad).mono fun t'' hSteps' => ?_
  · obtain ⟨hSound, hRest⟩ := hSafe hFault
    exact ⟨hSound, hReady, hRest (Bool.eq_false_of_not_eq_true hTriggered)⟩
  · rw [hEq]
    change e.prevNode.isSome = true
    rw [hSteps.2, hSeen]
    rfl
  · rw [hEq] at hSteps'
    exact hSteps.1.trans hSteps'

theorem updateLocation_atRest [DecidableEq Node] (h : t.engineer.drive.Sound)
    (hRest : t.engineer.AtRest) (hTriggered : ¬t.engineer.triggeredSensor) :
    EndsWell (fun _ => False) (fun _ => False) (updateLocation world around t tid) := by
  have hReady : t.engineer.state ≠ .ready := by
    rcases hRest with ⟨hState, -⟩ | ⟨hState, -⟩ <;> rw [hState] <;> decide
  refine EndsWell.ite (fun h => absurd h hReady) fun _ =>
    EndsWell.ite (fun h => absurd h hTriggered) fun _ =>
    ((harmless_known _ _).weaken nofun).bind fun _ _ =>
    ((harmless_known _ _).weaken nofun).bind fun _ _ =>
    ((harmless_known _ _).weaken nofun).bind fun nextSensor _ =>
    ((clean_getNextNode ..).harmless.weaken nofun).bind fun _ _ =>
    ((harmless_known _ _).weaken nofun).bind fun _ _ =>
    ((clean_getNextEdge ..).harmless.weaken nofun).bind fun _ _ =>
    ((harmless_known _ _).weaken nofun).bind fun _ _ =>
    (updateDistance_atRest h hRest nextSensor).bind fun _ hFalse => hFalse.elim

theorem claimNext_keeps : KeepsDrive t (claimNext world t) := by
  refine EndsWell.ite (fun _ => ?_) fun _ => ?_
  · exact (harmless_getNextClaims ..).bind fun _ => EndsWell.pure rfl
  · exact (harmless_assertThat _ _).bind fun _ => (harmless_getNextClaims ..).bind fun _ =>
      EndsWell.pure rfl

theorem passSensor_drive (t : EngineerTurn Node) :
    (passSensor t).engineer.drive = t.engineer.drive.arrived := by
  cases hState : t.engineer.state <;>
    simp [passSensor, hState, Engineer.drive, Drive.arrived, sendLocation]

theorem recordSensor_drive (e : Engineer Node) (sensor time : Int)
    (message : LocationMessage Node) :
    (recordSensor e sensor time message).drive = e.drive ∨
      e.state = .running ∧ (recordSensor e sensor time message).drive =
        { e.drive with timeDeltas := e.drive.learned sensor time } := by
  rw [recordSensor, learn]
  split_ifs with hFirst hState
  · exact Or.inr ⟨hState, rfl⟩
  · exact Or.inl rfl
  · exact Or.inl rfl

theorem updateSensor_steps [DecidableEq Node] (sensor time : Int)
    (hLearns : t.engineer.creationTime < time → t.engineer.state = .running →
      Learns t.engineer.drive sensor time) :
    MakesSteps Learns (· = .divideByZero) t (updateSensor world t tid sensor time) := by
  refine (harmless_assertThat _ _).bind fun _ =>
    EndsWell.ite (fun _ => EndsWell.pure .refl) fun hTime =>
    (clean_getNextSensor ..).harmless.bind fun nextSensor =>
    (harmless_distanceBetween ..).bind fun sensorDist => (harmless_assertThat _ _).bind fun _ =>
    (clean_getNextNode ..).harmless.bind fun _ => (harmless_known _ _).bind fun nextNode =>
    (clean_getNextEdge ..).harmless.bind fun _ => (harmless_known _ _).bind fun nextEdge =>
    (clean_timeDelta _ _ _).harmless.bind fun expectedTime => claimNext_keeps.mono fun t' hEq => ?_
  rw [hEq, passSensor_drive]
  have hTime : t.engineer.drive.creationTime < time := not_le.mp hTime
  have hSet : ∀ e : Engineer Node,
      Engineer.drive { e with creationTime := time, lastUpdate := ⟨sensor, time⟩ } =
        { e.drive with creationTime := time, lastTime := time } := fun _ => rfl
  rw [hSet]
  obtain hDrive | ⟨hState, hDrive⟩ := recordSensor_drive _ sensor time _ <;> rw [hDrive]
  · exact .single (.pass hTime)
  · exact .single (.learn hTime hState (hLearns hTime hState))

theorem xMark_steps (index offset : Int) :
    MakesSteps Learns (· = .divideByZero) t (xMark world t tid index offset) :=
  (harmless_assertThat _ _).bind fun _ => EndsWell.pure .refl

theorem setSpeed_steps (speed : Int) :
    MakesSteps Learns (· = .divideByZero) t (setSpeed t tid speed) :=
  (harmless_assertThat _ _).bind fun _ => KeepsDrive.makesSteps
    (t := t) (issueChecked_keeps (t := t.send (.reply tid)) _ _)

theorem setReverse_steps : MakesSteps Learns (· = .divideByZero) t (setReverse t tid) :=
  (harmless_assertThat _ _).bind fun _ => KeepsDrive.makesSteps
    (t := t) (issueChecked_keeps (t := t.send (.reply tid)) _ _)

theorem go_keeps [DecidableEq Node] (index : Int) : KeepsDrive t (go world around t tid index) :=
  go_frame drive_frame.toTurnFrame ofState_of_divides (fun _ _ => rfl) (fun _ _ _ => rfl)
    (harmless_deref _ _) tid index

theorem commandWorkerRequest_keeps : KeepsDrive t (commandWorkerRequest t tid) := by
  refine (harmless_assertThat _ _).bind fun _ =>
    EndsWell.ite (fun _ => EndsWell.pure rfl) fun _ => ?_
  exact (harmless_known _ _).bind fun _ => EndsWell.pure rfl

theorem sensorCourierRequest_drive (t : EngineerTurn Node) :
    (sensorCourierRequest t tid).engineer.drive = t.engineer.drive := by
  rw [sensorCourierRequest]
  split <;> rfl

theorem commandWorkerReverseSet_steps :
    MakesSteps Learns (· = .divideByZero) t (commandWorkerReverseSet world t tid) := by
  refine (harmless_known _ _).and_eq.bind fun prevNode hPrev =>
    (clean_getNextNode ..).harmless.bind fun _ => (harmless_known _ _).bind fun temp =>
    (harmless_deref _ _).bind fun nextSensor => (harmless_deref _ _).bind fun prevSensor => ?_
  have hSeen : t.engineer.drive.seen = true := by
    have hSome : t.engineer.prevNode = some prevNode := known_eq_ok hPrev.2
    change t.engineer.prevNode.isSome = true
    rw [hSome]
    rfl
  have hSteps : Drive.Steps Learns t.engineer.drive _ := .single (.setReverse hSeen)
  refine EndsWell.ite (fun _ => ?_) fun _ => EndsWell.ite (fun _ => ?_) fun _ => ?_
  · exact (harmless_getNextClaims ..).bind fun _ => EndsWell.pure hSteps
  · exact (harmless_getNextClaims ..).bind fun _ => EndsWell.pure hSteps
  · exact EndsWell.pure hSteps

theorem commandWorkerSpeedSet_steps (t : EngineerTurn Node) {speed : Int} (h0 : 0 ≤ speed)
    (h14 : speed ≤ 14) :
    Drive.Steps Learns t.engineer.drive (commandWorkerSpeedSet t tid speed).engineer.drive := by
  have hChar : toChar speed = speed := Int.emod_eq_of_lt h0 (by omega)
  rw [commandWorkerSpeedSet, hChar]
  exact .single (.setSpeed h0 h14)

end message

end TrainKernel.User
