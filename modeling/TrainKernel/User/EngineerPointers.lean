import TrainKernel.User.SensorClaims

/-!
# Pointers of the engineer

Before its first sensor an engineer has neither a last node nor sensors around it, and afterwards
it always has them. It also believes that no two sensors are hit while the courier is on its way.
-/

namespace TrainKernel.User

open Library.Outcome

variable {Node : Type} {α : Type} {world : EngineerWorld Node} {around : Surroundings Node}
variable {t : EngineerTurn Node} {tid : Nat}

/-- A null pointer for the last node, the last sensor or the next one, or a failed assertion on
them or on the stored claim. -/
def EngineerFault.MissesState (fault : EngineerFault) : Prop :=
  fault.OfState ∧ fault ≠ .divideByZero

abbrev Sees (P : α → Prop) (x : Except EngineerFault α) : Prop :=
  EndsWell EngineerFault.MissesState P x

theorem Clean.sees {x : Except EngineerFault α} (h : Clean x) : Sees (fun _ => True) x :=
  h.weaken fun _ hMisses => hMisses.1

theorem Sees.error {P : α → Prop} {fault : EngineerFault} (h : ¬fault.OfState) :
    Sees P (.error fault : Except EngineerFault α) :=
  fun hMisses => h hMisses.1

theorem Clean.then {β : Type} {x : Except EngineerFault α} {f : α → Except EngineerFault β}
    {P : β → Prop} (h : Clean x) (hf : ∀ a, Sees P (f a)) : Sees P (x >>= f) :=
  h.sees.bind fun a _ => hf a

structure Sight (Node : Type) where
  prevNode : Option Node
  prevSensor : Option Node
  nextSensor : Option Node
  state : TrainState

def Engineer.sight (e : Engineer Node) : Sight Node :=
  ⟨e.prevNode, e.prevSensor, e.nextSensor, e.state⟩

/-- The engineer has passed a sensor. -/
structure Sight.Full (s : Sight Node) : Prop where
  prevNode : s.prevNode ≠ none
  prevSensor : s.prevSensor ≠ none
  nextSensor : s.nextSensor ≠ none
  state : s.state ≠ .ready

abbrev KeepsSight (t : EngineerTurn Node) (x : Except EngineerFault (EngineerTurn Node)) : Prop :=
  Sees (fun t' => t'.engineer.sight = t.engineer.sight) x

theorem issueCommand_sight (command : Command) :
    (issueCommand t command).1.engineer.sight = t.engineer.sight := by
  rw [issueCommand]
  split
  · rfl
  · rfl

theorem sight_frame :
    CommandFrame fun t t' : EngineerTurn Node => t'.engineer.sight = t.engineer.sight where
  toTurnFrame := .of_view (·.engineer.sight) (fun _ _ _ _ => rfl) fun _ _ _ _ => rfl
  issue _ command := issueCommand_sight command

theorem EngineerFault.MissesState.ofState (fault : EngineerFault) (h : fault.MissesState) :
    fault.OfState := h.1

theorem issueChecked_keepsSight (type : CommandType) (speed : Int) :
    KeepsSight t (issueChecked t type speed) :=
  issueChecked_frame sight_frame EngineerFault.MissesState.ofState type speed

theorem exists_of_ne_none {pointer : Option α} (h : pointer ≠ none) : ∃ x, pointer = some x :=
  Option.ne_none_iff_exists'.mp h

theorem clean_distanceBetween [DecidableEq Node] (track : Track Node) (trackBitmap : TrackBitmap)
    {src dst : Option Node} (hSrc : src ≠ none) (hDst : dst ≠ none) :
    Clean (distanceBetween track trackBitmap src dst) := by
  obtain ⟨src, rfl⟩ := exists_of_ne_none hSrc
  obtain ⟨dst, rfl⟩ := exists_of_ne_none hDst
  exact clean_distanceLoop ..

theorem checkTarget_keepsSight [DecidableEq Node] (hPrev : t.engineer.prevNode ≠ none) :
    KeepsSight t (checkTarget world t) := by
  have hStops : Sees (fun _ => True) (stopsAtTarget world t.trackBitmap t.engineer) := by
    refine EndsWell.ite (fun _ => EndsWell.pure trivial) fun hTarget => ?_
    exact (clean_distanceBetween _ _ hPrev hTarget).then fun _ =>
      (clean_stoppingDist _ _).then fun _ => EndsWell.pure trivial
  exact checkTarget_frame sight_frame EngineerFault.MissesState.ofState hStops

theorem requestTrack_keepsSight (nextNode prevNode : Node) :
    KeepsSight t (requestTrack world around t nextNode prevNode) :=
  requestTrack_frame sight_frame EngineerFault.MissesState.ofState (fun _ _ => rfl) nextNode
    prevNode

theorem divide_sees (a b : Int) : Sees (fun _ => True) (divide a b) :=
  EndsWell.ite (fun _ => EndsWell.error fun hMisses => hMisses.2 rfl) fun _ => trivial

theorem updateDistance_full {e : Engineer Node} (h : e.sight.Full) (nextSensor : Node) :
    Sees (fun e' => e'.sight.Full) (updateDistance world around e nextSensor) := by
  refine EndsWell.ite (fun _ => ?_) fun _ => EndsWell.ite (fun _ => ?_) fun _ => EndsWell.pure h
  · refine EndsWell.bind (P := fun _ => True) ?_ fun _ _ => EndsWell.ite (fun _ => ?_) fun _ => ?_
    · refine EndsWell.ite (fun _ => ?_) fun _ => EndsWell.pure trivial
      exact (clean_stoppingDist _ _).then fun _ => divide_sees _ _
    · exact EndsWell.pure ⟨h.prevNode, h.prevSensor, h.nextSensor, TrainState.noConfusion⟩
    · exact EndsWell.pure ⟨h.prevNode, h.prevSensor, h.nextSensor, h.state⟩
  · refine (clean_timeDelta _ _ _).then fun _ => (divide_sees _ _).bind fun _ _ => ?_
    exact EndsWell.pure ⟨h.prevNode, h.prevSensor, h.nextSensor, h.state⟩

theorem locate_full {e : Engineer Node} (h : e.sight.Full) (trackBitmap : TrackBitmap) :
    Sees (fun l => l.engineer.sight.Full) (locate world around trackBitmap e) := by
  obtain ⟨prevNode, hPrevNode⟩ := exists_of_ne_none h.prevNode
  obtain ⟨prevSensor, hPrevSensor⟩ := exists_of_ne_none h.prevSensor
  obtain ⟨nextSensor, hNextSensor⟩ := exists_of_ne_none h.nextSensor
  have hKnown : ∀ {pointer : Option Node} {x : Node}, pointer = some x →
      Sees (fun _ => True) (known .known pointer) := by
    rintro _ x rfl
    trivial
  refine (hKnown hPrevNode).bind fun _ _ => (hKnown hPrevSensor).bind fun _ _ =>
    (hKnown hNextSensor).bind fun _ _ => (clean_getNextNode ..).then fun _ =>
    (clean_known .nextKnown not_false _).then fun _ => (clean_getNextEdge ..).then fun _ =>
    (clean_known .nextKnown not_false _).then fun _ =>
    (updateDistance_full h _).bind fun e' h' => ?_
  exact EndsWell.pure ⟨h'.prevNode, h'.prevSensor, h'.nextSensor, h'.state⟩

theorem updatePosition_full (h : t.engineer.sight.Full) (prevNode nextNode : Node)
    (distToNextNode : Int) : Sees (fun t' => t'.engineer.sight.Full)
      (updatePosition world around t tid prevNode nextNode distToNextNode) := by
  refine EndsWell.ite (fun _ => ?_) fun _ => EndsWell.ite (fun _ => ?_) fun _ => ?_
  · refine (clean_getNextNode ..).then fun _ => (clean_known .nextKnown not_false _).then fun _ =>
      (clean_getNextEdge ..).then fun _ => (clean_known .nextKnown not_false _).then fun _ =>
      (requestTrack_keepsSight _ _).mono fun t' hSame => ?_
    rw [hSame]
    exact ⟨Option.some_ne_none _, h.prevSensor, h.nextSensor, h.state⟩
  · refine (clean_getNextNode ..).then fun _ => (clean_deref _).then fun _ => EndsWell.pure ?_
    constructor
    · exact h.prevNode
    · exact h.prevSensor
    · exact h.nextSensor
    · change (if t.engineer.speed = 0 then TrainState.stopped else .accelerating) ≠ .ready
      split_ifs
      · exact TrainState.noConfusion
      · exact TrainState.noConfusion
  · apply (requestTrack_keepsSight _ _).mono
    intro t' hSame
    rw [hSame]
    exact h

variable [DecidableEq Node]

theorem updateLocation_full (h : t.engineer.sight.Full) :
    Sees (fun t' => t'.engineer.sight.Full) (updateLocation world around t tid) := by
  by_cases hTriggered : t.engineer.triggeredSensor
  · rw [updateLocation]
    refine EndsWell.ite (fun hReady => absurd hReady h.state) fun _ => ?_
    exact EndsWell.ite (fun _ => EndsWell.pure h) fun hNot => absurd hTriggered hNot
  · rw [updateLocation_eq world around t tid h.state (Bool.eq_false_iff.mpr hTriggered)]
    refine (locate_full h _).bind fun l hLocated =>
      (checkTarget_keepsSight hLocated.prevNode).bind fun t' hSame => updatePosition_full ?_ _ _ _
    rw [hSame]
    exact hLocated

omit [DecidableEq Node] in
theorem clean_getNextClaims (track : Track Node) (trackBitmap : TrackBitmap)
    {prevNode : Option Node} (hPrev : prevNode ≠ none) :
    Clean (getNextClaims track trackBitmap prevNode) := by
  obtain ⟨prevNode, rfl⟩ := exists_of_ne_none hPrev
  exact clean_getNextClaimsLoop ..

omit [DecidableEq Node] in
theorem claimNext_full (h : t.engineer.sight.Full)
    (hFree : t.engineer.hasOutstandingClaim = false) :
    Sees (fun t' => t'.engineer.sight.Full) (claimNext world t) := by
  have hAssert : Sees (fun _ => True)
      (assertThat .noOutstandingClaim (!t.engineer.hasOutstandingClaim)) := by
    rw [hFree]
    trivial
  refine EndsWell.ite (fun _ => ?_) fun _ => hAssert.bind fun _ _ => ?_
  · exact (clean_getNextClaims _ _ h.prevSensor).then fun _ => EndsWell.pure h
  · exact (clean_getNextClaims _ _ h.prevSensor).then fun _ => EndsWell.pure h

omit [DecidableEq Node] in
theorem recordSensor_sight (e : Engineer Node) (sensor time : Int)
    (message : LocationMessage Node) : (recordSensor e sensor time message).sight = e.sight := by
  rw [recordSensor, learn]
  split_ifs
  · rfl
  · rfl
  · rfl

omit [DecidableEq Node] in
/-- The first sensor ends the time in which the engineer is only ready. -/
theorem passSensor_full (hPrevNode : t.engineer.prevNode ≠ none)
    (hPrevSensor : t.engineer.prevSensor ≠ none) (hNextSensor : t.engineer.nextSensor ≠ none) :
    (passSensor t).engineer.sight.Full := by
  rw [passSensor]
  dsimp only
  split_ifs with hReady hSpeed hAccelerating
  · exact ⟨hPrevNode, hPrevSensor, hNextSensor, TrainState.noConfusion⟩
  · exact ⟨hPrevNode, hPrevSensor, hNextSensor, TrainState.noConfusion⟩
  · exact ⟨hPrevNode, hPrevSensor, hNextSensor, TrainState.noConfusion⟩
  · exact ⟨hPrevNode, hPrevSensor, hNextSensor, hReady⟩

omit [DecidableEq Node] in
theorem recorded_stored (e : Engineer Node) (sensor time : Int) (message : LocationMessage Node) :
    (passSensor { t with engineer := e.recorded sensor time message }).engineer.hasOutstandingClaim
      = e.hasOutstandingClaim :=
  congrArg Claims.hasOutstandingClaim
    ((passSensor_does _).claims.trans (recorded_claims (t := t) e sensor time message))

omit [DecidableEq Node] in
theorem claimNext_recorded_full (e : Engineer Node) (sensor time : Int)
    (message : LocationMessage Node) (hPrevNode : e.prevNode ≠ none)
    (hPrevSensor : e.prevSensor ≠ none) (hNextSensor : e.nextSensor ≠ none)
    (hFree : e.hasOutstandingClaim = false) : Sees (fun t' => t'.engineer.sight.Full)
      (claimNext world (passSensor { t with engineer := e.recorded sensor time message })) := by
  have hSight : (e.recorded sensor time message).sight = e.sight :=
    recordSensor_sight e sensor time message
  apply claimNext_full
  · apply passSensor_full
    · exact (congrArg Sight.prevNode hSight).trans_ne hPrevNode
    · exact (congrArg Sight.prevSensor hSight).trans_ne hPrevSensor
    · exact (congrArg Sight.nextSensor hSight).trans_ne hNextSensor
  · rw [recorded_stored]
    exact hFree

/-- Every walk along the track meets further sensors. -/
def Track.HasSensorsAhead (track : Track Node) : Prop :=
  ∀ trackBitmap node, getNextSensor track trackBitmap node ≠ .ok none

/-- Before the first sensor the engineer is only ready. -/
def Engineer.Aware (e : Engineer Node) : Prop := e.state = .ready ∨ e.sight.Full

theorem updateSensor_aware (hTrack : world.track.HasSensorsAhead) (h : t.engineer.Aware)
    (sensor time : Int)
    (hFree : t.engineer.creationTime < time → t.engineer.hasOutstandingClaim = false) :
    Sees (fun t' => t'.engineer.Aware) (updateSensor world t tid sensor time) := by
  have hNext : Sees (· ≠ none)
      (getNextSensor world.track t.trackBitmap (world.gTrack sensor)) :=
    (clean_getNextSensor ..).sees.and_eq.mono fun nextSensor hOk hNone =>
      hTrack t.trackBitmap (world.gTrack sensor) (hNone ▸ hOk.2)
  refine (clean_assertThat .notInit not_false _).then fun _ => EndsWell.ite
    (fun _ => EndsWell.pure h) fun hNew => hNext.bind fun nextSensor hSome => ?_
  refine (clean_distanceBetween _ _ (Option.some_ne_none _) hSome).then fun _ =>
    (clean_assertThat .sensorDist not_false _).then fun _ => (clean_getNextNode ..).then fun _ =>
    (clean_known .nextKnown not_false _).then fun _ => (clean_getNextEdge ..).then fun _ =>
    (clean_known .nextKnown not_false _).then fun _ => (clean_timeDelta _ _ _).then fun _ => ?_
  refine (claimNext_recorded_full _ sensor time _ ?_ ?_ hSome ?_).mono fun t' hFull => Or.inr hFull
  · exact Option.some_ne_none _
  · exact Option.some_ne_none _
  · exact hFree (not_le.mp hNew)

omit [DecidableEq Node] in
theorem commandWorkerReverseSet_full (h : t.engineer.sight.Full) :
    Sees (fun t' => t'.engineer.sight.Full) (commandWorkerReverseSet world t tid) := by
  obtain ⟨prevNode, hPrevNode⟩ := exists_of_ne_none h.prevNode
  obtain ⟨prevSensor, hPrevSensor⟩ := exists_of_ne_none h.prevSensor
  obtain ⟨nextSensor, hNextSensor⟩ := exists_of_ne_none h.nextSensor
  have hKnown {pointer : Option Node} {x : Node} (hSome : pointer = some x) (check : Check) :
      Sees (fun _ => True) (known check pointer) := by
    subst hSome
    trivial
  have hDeref {pointer : Option Node} {x : Node} (hSome : pointer = some x) (name : Pointer) :
      Sees (fun _ => True) (deref name pointer) := by
    subst hSome
    trivial
  have hReversed : ∀ {a b c : Node}, Sight.Full ⟨some a, some b, some c,
      if t.engineer.state = .init then .init else .reversing⟩ := by
    intro a b c
    refine ⟨Option.some_ne_none a, Option.some_ne_none b, Option.some_ne_none c, ?_⟩
    dsimp only
    split_ifs
    · exact TrainState.noConfusion
    · exact TrainState.noConfusion
  refine (hKnown hPrevNode _).bind fun _ _ => (clean_getNextNode ..).then fun _ =>
    (clean_known .tempKnown not_false _).then fun temp => (hDeref hNextSensor _).bind fun _ _ =>
    (hDeref hPrevSensor _).bind fun _ _ => ?_
  refine EndsWell.ite (fun _ => ?_) fun _ => EndsWell.ite (fun _ => ?_) fun _ => ?_
  · exact (clean_getNextClaims _ _ (Option.some_ne_none _)).then fun _ => EndsWell.pure hReversed
  · exact (clean_getNextClaims _ _ (Option.some_ne_none _)).then fun _ => EndsWell.pure hReversed
  · exact EndsWell.pure hReversed

omit [DecidableEq Node] in
theorem Engineer.Aware.congr {e e' : Engineer Node} (h : e.Aware) (hSame : e'.sight = e.sight) :
    e'.Aware := by
  rw [Engineer.Aware, hSame]
  exact h.imp_left fun hReady => (congrArg Sight.state hSame).trans hReady

theorem stateAfterSpeed_ne_ready {state : TrainState} (h : state ≠ .ready) (speed : Int) :
    stateAfterSpeed state speed ≠ .ready := by
  cases state with
  | ready => exact absurd rfl h
  | init => exact h
  | reversing => exact h
  | stopped | running | decelerating | accelerating =>
    dsimp only [stateAfterSpeed]
    split_ifs
    · exact TrainState.noConfusion
    · exact TrainState.noConfusion

omit [DecidableEq Node] in
theorem commandWorkerSpeedSet_aware (h : t.engineer.Aware) (speed : Int) :
    (commandWorkerSpeedSet t tid speed).engineer.Aware := by
  cases h with
  | inl hReady =>
    left
    change stateAfterSpeed t.engineer.state (toChar speed) = .ready
    rw [hReady]
    rfl
  | inr hFull =>
    right
    refine ⟨hFull.prevNode, hFull.prevSensor, hFull.nextSensor, ?_⟩
    exact stateAfterSpeed_ne_ready hFull.state _

theorem go_keepsSight (h : t.engineer.sight.Full) (index : Int) :
    KeepsSight t (go world around t tid index) := by
  obtain ⟨src, hSrc⟩ := exists_of_ne_none h.prevNode
  have hDeref : Sees (fun _ => True) (deref .prevNode t.engineer.prevNode) := by
    rw [show t.engineer.prevNode = some src from hSrc]
    trivial
  exact go_frame sight_frame.toTurnFrame EngineerFault.MissesState.ofState (fun _ _ => rfl)
    (fun _ _ _ => rfl) hDeref tid index

/-- A message that needs a last sensor comes after the first one, and a sensor is not hit while
the claim for the one before is still with the engineer. -/
def Engineer.ReadyFor (e : Engineer Node) : EngineerMessage → Prop
  | .go _ | .commandWorkerReverseSet => e.state ≠ .ready
  | .updateSensor _ time => e.creationTime < time → e.hasOutstandingClaim = false
  | _ => True

instance (e : Engineer Node) : DecidablePred e.ReadyFor
  | .go _ | .commandWorkerReverseSet => inferInstanceAs (Decidable (_ ≠ _))
  | .updateSensor .. => inferInstanceAs (Decidable (_ → _))
  | .timeoutSensor | .updateLocation | .xMark .. | .setSpeed _ | .setReverse
  | .initializeTrain .. | .commandWorkerRequest | .commandWorkerSpeedSet _
  | .sensorCourierRequest => isTrue trivial

theorem handleMessage_aware (hTrack : world.track.HasSensorsAhead) {message : EngineerMessage}
    (h : t.engineer.Aware) (hReady : t.engineer.ReadyFor message) :
    Sees (fun t' => t'.engineer.Aware) (handleMessage world around t tid message) := by
  cases message with
  | updateLocation =>
    cases h with
    | inl hState =>
      rw [handleMessage, updateLocation]
      exact EndsWell.ite (fun _ => EndsWell.pure (Or.inl hState)) fun hNot => absurd hState hNot
    | inr hFull => exact (updateLocation_full hFull).mono fun t' => Or.inr
  | updateSensor sensor time => exact updateSensor_aware hTrack h sensor time hReady
  | commandWorkerReverseSet =>
    exact (commandWorkerReverseSet_full (h.resolve_left hReady)).mono fun t' => Or.inr
  | go index =>
    exact (go_keepsSight (h.resolve_left hReady) index).mono fun t' hSame => h.congr hSame
  | sensorCourierRequest =>
    refine EndsWell.ok (h.congr ?_)
    rw [sensorCourierRequest]
    split
    · rfl
    · rfl
  | xMark index offset =>
    exact (clean_assertThat .notInit not_false _).then fun _ => EndsWell.pure (h.congr rfl)
  | setSpeed speed =>
    refine (clean_assertThat .notInit not_false _).then fun _ => ?_
    exact (issueChecked_keepsSight _ _).mono fun t' hSame => h.congr hSame
  | setReverse =>
    refine (clean_assertThat .notInit not_false _).then fun _ => ?_
    exact (issueChecked_keepsSight _ _).mono fun t' hSame => h.congr hSame
  | commandWorkerRequest =>
    refine (clean_assertThat .notInit not_false _).then fun _ => EndsWell.ite (fun _ => ?_)
      fun _ => (clean_known .dequeued not_false _).then fun _ => ?_
    · exact EndsWell.pure (h.congr rfl)
    · exact EndsWell.pure (h.congr rfl)
  | commandWorkerSpeedSet speed => exact EndsWell.ok (commandWorkerSpeedSet_aware h speed)
  | timeoutSensor => exact Sees.error not_false
  | initializeTrain trainNumber sensorIndex => exact Sees.error not_false

theorem engineerServer_aware (hTrack : world.track.HasSensorsAhead) {e : Engineer Node}
    {rounds : List (EngineerRound Node)} (h : e.Aware)
    (hReady : EveryRound world (fun e round => e.ReadyFor round.message) e rounds) :
    Sees (fun e' => e'.Aware) (engineerServer world e rounds) :=
  engineerServer_invariant
    (fun e round _ h hReady => handleMessage_aware (t := round.turn e) hTrack h hReady) h hReady

theorem no_null_pointer (world : EngineerWorld Node) (hTrack : world.track.HasSensorsAhead)
    (trainNumber creationTime : Int) (locationWorkerTid : Nat) (cmdBuf : Nat → Command)
    (outstandingClaim : SensorClaim) (locationMessage : LocationMessage Node) (ebook : Ebook Node)
    (rounds : List (EngineerRound Node))
    (hReady : EveryRound world (fun e round => e.ReadyFor round.message)
      (Engineer.start trainNumber creationTime locationWorkerTid cmdBuf outstandingClaim
        locationMessage ebook) rounds) {fault : EngineerFault} (hFault : fault.MissesState) :
    engineerServer world (Engineer.start trainNumber creationTime locationWorkerTid cmdBuf
      outstandingClaim locationMessage ebook) rounds ≠ .error fault :=
  (engineerServer_aware hTrack (Or.inl rfl) hReady).ne_error hFault

theorem circle_hasSensorsAhead : circle.HasSensorsAhead := by
  rintro trackBitmap ⟨side, back⟩ hNone
  have hNext : getNextSensor circle trackBitmap (side, back) = .ok (some (!side, back)) := rfl
  rw [hNext] at hNone
  cases hNone

theorem no_null_pointer_circle :
    engineerServer circleWorld circleEngineer sped ≠ .error (.nullPointer .prevNode) :=
  no_null_pointer circleWorld circle_hasSensorsAhead 66 0 7 _ _ _ _ sped (by decide)
    ⟨trivial, EngineerFault.noConfusion⟩

/-- Three sensors, while the courier is on its way with the claim that it got for the first one. -/
def threeSensors : List (EngineerRound (Bool × Bool)) :=
  [circleRound 6 .sensorCourierRequest 10,
    circleRound 8 (.updateSensor 0 100) 100,
    circleRound 8 (.updateSensor 1 200) 200,
    circleRound 8 (.updateSensor 0 300) 300]

theorem null_pointer : circle.HasSensorsAhead ∧
    (∃ rounds fault, EngineerFault.MissesState fault ∧
      engineerServer circleWorld circleEngineer rounds = .error fault) ∧
    engineerServer circleWorld circleEngineer threeSensors
      = .error (.assertion .noOutstandingClaim) :=
  ⟨circle_hasSensorsAhead, ⟨[circleRound 3 (.go 1) 20], .nullPointer .prevNode,
    ⟨trivial, EngineerFault.noConfusion⟩, rfl⟩, rfl⟩

end TrainKernel.User
