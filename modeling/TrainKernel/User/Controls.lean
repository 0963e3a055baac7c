import TrainKernel.User.Parser
import TrainKernel.User.Pathfinding
import TrainKernel.User.Turnout

/-!
# What the commands reach

The functions that the parser calls, with what they assert of their arguments and the arrays that
they index. Whether a call comes through depends on its arguments alone.
-/

namespace TrainKernel.User

inductive ControlFault where
  | assertion
  | outOfBounds
deriving DecidableEq, Repr

def numTrains : Nat := 80

def controlReverse : Int := 15
def controlSolenoidOff : Int := 32
def controlStraight : Int := 33
def controlCurved : Int := 34

structure SensorData where
  group : Int
  offset : Int

/-- `sent` is what has gone to the train controller. -/
structure Controls where
  speeds : Vector Int numTrains
  trackBitmap : TrackBitmap
  haltTrainNumber : Int
  haltReading : SensorData
  engineers : Engineers
  sent : List Int

def idleControls : Controls :=
  ⟨Vector.replicate numTrains 0, 0, 0, ⟨0, 0⟩, noEngineers, []⟩

def ensure (c : Prop) [Decidable c] : Except ControlFault Unit :=
  if c then .ok () else .error .assertion

/-- `&g_track[index]`. -/
def trackNodeAt (index : Int) : Except ControlFault Unit :=
  if 0 ≤ index ∧ index < trackMax then .ok () else .error .outOfBounds

namespace Controls

variable (controls : Controls)

def send (message : List Int) : Controls := { controls with sent := controls.sent ++ message }

def trainSetSpeed (trainNumber trainSpeed : Int) : Except ControlFault Controls := do
  ensure (1 ≤ trainNumber ∧ trainNumber ≤ 80)
  ensure (0 ≤ trainSpeed ∧ trainSpeed ≤ 14)
  let controls := controls.send [trainSpeed, trainNumber]
  if h : trainNumber.toNat < numTrains then
    .ok { controls with speeds := controls.speeds.set trainNumber.toNat trainSpeed h }
  else .error .outOfBounds

def trainSetReverse (trainNumber : Int) : Except ControlFault Controls := do
  ensure (1 ≤ trainNumber ∧ trainNumber ≤ 80)
  return controls.send [controlReverse, trainNumber]

def trainSetSwitch (switchNumber : Int) (direction : Char) : Except ControlFault Controls := do
  ensure ((switchNumber ≥ 153 ∧ switchNumber ≤ 156) ∨ (1 ≤ switchNumber ∧ switchNumber ≤ 18))
  ensure (direction = 'c' ∨ direction = 's' ∨ direction = 'C' ∨ direction = 'S')
  let operation := if direction = 'c' ∨ direction = 'C' then controlCurved else controlStraight
  return controls.send [operation, switchNumber, controlSolenoidOff]

def setTurnout (turnoutNumber : Int) (direction : Char) : Except ControlFault Controls :=
  match setBitmap controls.trackBitmap turnoutNumber direction with
  | some trackBitmap =>
    trainSetSwitch { controls with trackBitmap := trackBitmap } turnoutNumber direction
  | none => .error .assertion

def setSensorData (group offset : Int) : Except ControlFault SensorData := do
  ensure (0 ≤ group * 1000 ∧ group * 1000 ≤ 4 * 1000)
  ensure (1 ≤ offset ∧ offset ≤ 16)
  return ⟨group, offset⟩

def sensorHalt (trainNumber : Int) (sensorGroup : Char) (sensorNumber : Int) :
    Except ControlFault Controls := do
  ensure (0 < trainNumber ∧ trainNumber < 80)
  ensure ('a' ≤ sensorGroup ∧ sensorGroup ≤ 'e')
  ensure (1 ≤ sensorNumber ∧ sensorNumber ≤ 16)
  let group : Int := sensorGroup.toNat - 'a'.toNat
  let haltReading ← setSensorData group sensorNumber
  return { controls with haltTrainNumber := trainNumber, haltReading := haltReading }

/-- The courier of the new engineer has the sensor. -/
def engineerCreate (tid : {tid : Int // 0 < tid}) (trainNumber sensorIndex : Int) :
    Except ControlFault Controls := do
  ensure (trainNumber ≥ 1 ∧ trainNumber ≤ 80)
  ensure (sensorIndex ≥ 0 ∧ sensorIndex < 80)
  match User.engineerCreate controls.engineers tid trainNumber with
  | some engineers => return { controls with engineers := engineers }
  | none => return controls

def engineerSetSpeed (tid : Int) : Except ControlFault Controls := do
  ensure (tid ≥ 0)
  return controls

def engineerSetReverse (tid : Int) : Except ControlFault Controls := do
  ensure (tid ≥ 0)
  return controls

def engineerXMarksTheSpot (tid index : Int) : Except ControlFault Controls := do
  ensure (tid > 0)
  ensure (0 ≤ index ∧ index ≤ 143)
  trackNodeAt index
  return controls

/-- The engineer takes the address before it looks for a route. -/
def engineerGo (tid index : Int) : Except ControlFault Controls := do
  ensure (tid > 0)
  trackNodeAt index
  return controls

def loadTrackStructure (track : Char) : Except ControlFault Controls :=
  if track = 'a' then controls.setTurnout 5 'c' else .ok controls

end Controls

/-- `tid` is the engineer's, if the call creates one. -/
def Controls.perform (tid : {tid : Int // 0 < tid}) (controls : Controls) :
    ParserCall → Except ControlFault Controls
  | .engineerGo tid index => controls.engineerGo tid index
  | .sensorHalt trainNumber sensorGroup sensorNumber =>
    controls.sensorHalt trainNumber sensorGroup sensorNumber
  | .engineerSetSpeed tid _ => controls.engineerSetSpeed tid
  | .trainSetSpeed trainNumber trainSpeed => controls.trainSetSpeed trainNumber trainSpeed
  | .engineerSetReverse tid => controls.engineerSetReverse tid
  | .trainSetReverse trainNumber => controls.trainSetReverse trainNumber
  | .setTurnout turnoutNumber direction => controls.setTurnout turnoutNumber direction
  | .engineerCreate trainNumber sensorIndex => controls.engineerCreate tid trainNumber sensorIndex
  | .engineerXMarksTheSpot tid index _ => controls.engineerXMarksTheSpot tid index
  | .loadTrackStructure track => controls.loadTrackStructure track
  | .taskDisplayAll => .ok controls
  | .drawTrackLayoutGraph _ => .ok controls
  | .printCalibrationLoop _ => .ok controls
  | .delay _ => .ok controls

def Controls.performAll (tid : {tid : Int // 0 < tid}) :
    Controls → List ParserCall → Except ControlFault Controls
  | controls, [] => .ok controls
  | controls, call :: calls => do
    let controls ← controls.perform tid call
    performAll tid controls calls

/-- No assertion fails and no index is out of bounds. -/
def ComesThrough {α : Type} (x : Except ControlFault α) : Prop := ∃ a, x = .ok a

@[simp]
def ParserCall.Expected : ParserCall → Prop
  | .engineerGo tid index => 0 < tid ∧ 0 ≤ index ∧ index ≤ 143
  | .sensorHalt trainNumber sensorGroup sensorNumber =>
    (0 < trainNumber ∧ trainNumber < 80) ∧ isSensorGroup sensorGroup ∧
      1 ≤ sensorNumber ∧ sensorNumber ≤ 16
  | .engineerSetSpeed tid _ => 0 ≤ tid
  | .trainSetSpeed trainNumber trainSpeed =>
    (0 < trainNumber ∧ trainNumber < 80) ∧ 0 ≤ trainSpeed ∧ trainSpeed ≤ 14
  | .engineerSetReverse tid => 0 ≤ tid
  | .trainSetReverse trainNumber => 1 ≤ trainNumber ∧ trainNumber ≤ 80
  | .setTurnout turnoutNumber direction =>
    IsTurnout turnoutNumber ∧ isDirection direction
  | .engineerCreate trainNumber sensorIndex =>
    (1 ≤ trainNumber ∧ trainNumber ≤ 80) ∧ 0 ≤ sensorIndex ∧ sensorIndex < 80
  | .engineerXMarksTheSpot tid index _ => 0 < tid ∧ 0 ≤ index ∧ index ≤ 143
  | _ => True

section ComesThrough

variable {α β : Type} {c : Prop} [Decidable c]

@[simp]
theorem comesThrough_ok (a : α) : ComesThrough (.ok a) := ⟨a, rfl⟩

@[simp]
theorem comesThrough_pure (a : α) : ComesThrough (pure a) := ⟨a, rfl⟩

@[simp]
theorem not_comesThrough_error (fault : ControlFault) :
    ¬ComesThrough (.error fault : Except ControlFault α) := by
  rintro ⟨a, h⟩
  cases h

theorem comesThrough_guard (fault : ControlFault) (f : Unit → Except ControlFault β) :
    ComesThrough ((if c then .ok () else .error fault) >>= f) ↔ c ∧ ComesThrough (f ()) := by
  split_ifs with h
  · exact (and_iff_right h).symm
  · constructor
    · intro hFault
      exact absurd hFault (not_comesThrough_error fault)
    · rintro ⟨hc, -⟩
      exact absurd hc h

@[simp]
theorem comesThrough_ensure (f : Unit → Except ControlFault β) :
    ComesThrough (ensure c >>= f) ↔ c ∧ ComesThrough (f ()) :=
  comesThrough_guard .assertion f

@[simp]
theorem comesThrough_trackNodeAt (index : Int) (f : Unit → Except ControlFault β) :
    ComesThrough (trackNodeAt index >>= f) ↔
      (0 ≤ index ∧ index ≤ 143) ∧ ComesThrough (f ()) := by
  have hBound : index < trackMax ↔ index ≤ 143 := by
    rw [← Int.lt_add_one_iff]
    rfl
  rw [trackNodeAt, comesThrough_guard, hBound]

end ComesThrough

section Perform

variable {controls : Controls} {tid : {tid : Int // 0 < tid}}

theorem trainSetSpeed_comesThrough {trainNumber trainSpeed : Int} :
    ComesThrough (controls.trainSetSpeed trainNumber trainSpeed) ↔
      (0 < trainNumber ∧ trainNumber < 80) ∧ 0 ≤ trainSpeed ∧ trainSpeed ≤ 14 := by
  simp only [Controls.trainSetSpeed, comesThrough_ensure]
  split_ifs with hIndex
  · have hBound : trainNumber.toNat < 80 := hIndex
    simp only [comesThrough_ok, and_true]
    omega
  · have hBound : ¬trainNumber.toNat < 80 := hIndex
    simp only [not_comesThrough_error, and_false, false_iff]
    omega

theorem sensorHalt_comesThrough {trainNumber sensorNumber : Int} {sensorGroup : Char} :
    ComesThrough (controls.sensorHalt trainNumber sensorGroup sensorNumber) ↔
      (0 < trainNumber ∧ trainNumber < 80) ∧ isSensorGroup sensorGroup ∧
        1 ≤ sensorNumber ∧ sensorNumber ≤ 16 := by
  simp only [Controls.sensorHalt, Controls.setSensorData, bind_assoc, comesThrough_ensure,
    pure_bind, comesThrough_pure, and_true, isSensorGroup, decide_eq_true_eq]
  constructor
  · rintro ⟨hTrain, hGroup, hNumber, -⟩
    exact ⟨hTrain, hGroup, hNumber⟩
  · rintro ⟨hTrain, hGroup, hNumber⟩
    have hLow : 97 ≤ sensorGroup.toNat := Char.le_def.mp hGroup.1
    have hHigh : sensorGroup.toNat ≤ 101 := Char.le_def.mp hGroup.2
    have hA : 'a'.toNat = 97 := rfl
    refine ⟨hTrain, hGroup, hNumber, ?_, hNumber⟩
    omega

theorem trainSetSwitch_comesThrough {switchNumber : Int} {direction : Char}
    (hNumber : IsTurnout switchNumber) (hDirection : direction = 'c' ∨ direction = 's') :
    ComesThrough (controls.trainSetSwitch switchNumber direction) := by
  simp only [Controls.trainSetSwitch, comesThrough_ensure, comesThrough_pure, and_true]
  exact ⟨hNumber.symm, hDirection.imp_right Or.inl⟩

theorem setTurnout_comesThrough {turnoutNumber : Int} {direction : Char} :
    ComesThrough (controls.setTurnout turnoutNumber direction) ↔
      IsTurnout turnoutNumber ∧ isDirection direction := by
  rw [Controls.setTurnout, setBitmap, isDirection, decide_eq_true_eq]
  cases hAddress : toBitAddress turnoutNumber with
  | none =>
    have hNumber := toBitAddress_eq_none.mp hAddress
    exact iff_of_false (not_comesThrough_error _) fun h => hNumber h.1
  | some bitAddress =>
    have hNumber := not_not.mp (mt toBitAddress_eq_none.mpr (hAddress ▸ Option.some_ne_none _))
    rw [and_iff_right hNumber]
    by_cases hCurved : direction = 'c'
    · rw [Option.bind_eq_bind, Option.bind_some, if_pos hCurved]
      have hDirection : direction = 'c' ∨ direction = 's' := Or.inl hCurved
      exact iff_of_true (trainSetSwitch_comesThrough hNumber hDirection) hDirection
    · by_cases hStraight : direction = 's'
      · rw [Option.bind_eq_bind, Option.bind_some, if_neg hCurved, if_pos hStraight]
        have hDirection : direction = 'c' ∨ direction = 's' := Or.inr hStraight
        exact iff_of_true (trainSetSwitch_comesThrough hNumber hDirection) hDirection
      · rw [Option.bind_eq_bind, Option.bind_some, if_neg hCurved, if_neg hStraight]
        exact iff_of_false (not_comesThrough_error _) (not_or.mpr ⟨hCurved, hStraight⟩)

/-- Whether a call comes through does not depend on what was called before. -/
theorem perform_comesThrough (tid : {tid : Int // 0 < tid}) (controls : Controls)
    (call : ParserCall) : ComesThrough (controls.perform tid call) ↔ call.Expected := by
  cases call with
  | engineerGo tid index =>
    simp only [Controls.perform, Controls.engineerGo, comesThrough_ensure,
      comesThrough_trackNodeAt, comesThrough_pure, and_true, ParserCall.Expected]
  | sensorHalt trainNumber sensorGroup sensorNumber => exact sensorHalt_comesThrough
  | engineerSetSpeed tid speed =>
    simp only [Controls.perform, Controls.engineerSetSpeed, comesThrough_ensure,
      comesThrough_pure, and_true, ParserCall.Expected]
  | trainSetSpeed trainNumber trainSpeed => exact trainSetSpeed_comesThrough
  | engineerSetReverse tid =>
    simp only [Controls.perform, Controls.engineerSetReverse, comesThrough_ensure,
      comesThrough_pure, and_true, ParserCall.Expected]
  | trainSetReverse trainNumber =>
    simp only [Controls.perform, Controls.trainSetReverse, comesThrough_ensure,
      comesThrough_pure, and_true, ParserCall.Expected]
  | setTurnout turnoutNumber direction => exact setTurnout_comesThrough
  | engineerCreate trainNumber sensorIndex =>
    simp only [Controls.perform, Controls.engineerCreate, comesThrough_ensure,
      ParserCall.Expected]
    cases User.engineerCreate controls.engineers tid trainNumber with
    | some engineers => simp only [comesThrough_pure, and_true]
    | none => simp only [comesThrough_pure, and_true]
  | engineerXMarksTheSpot tid index offset =>
    simp only [Controls.perform, Controls.engineerXMarksTheSpot, comesThrough_ensure,
      comesThrough_trackNodeAt, comesThrough_pure, and_true, and_self, ParserCall.Expected]
  | loadTrackStructure track =>
    simp only [Controls.perform, Controls.loadTrackStructure, ParserCall.Expected, iff_true]
    split_ifs
    · exact setTurnout_comesThrough.mpr ⟨Or.inl (by decide), rfl⟩
    · exact comesThrough_ok _
  | taskDisplayAll => exact iff_true_intro (comesThrough_ok _)
  | drawTrackLayoutGraph track => exact iff_true_intro (comesThrough_ok _)
  | printCalibrationLoop i => exact iff_true_intro (comesThrough_ok _)
  | delay ticks => exact iff_true_intro (comesThrough_ok _)

theorem performAll_comesThrough {controls : Controls} {calls : List ParserCall} :
    ComesThrough (controls.performAll tid calls) ↔ ∀ call ∈ calls, call.Expected := by
  induction calls generalizing controls with
  | nil => exact iff_of_true (comesThrough_ok _) (List.forall_mem_nil _)
  | cons call calls ih =>
    have hCall := perform_comesThrough tid controls call
    rw [Controls.performAll, List.forall_mem_cons, ← hCall]
    cases controls.perform tid call with
    | ok controls' =>
      rw [and_iff_right (comesThrough_ok controls')]
      exact ih
    | error fault =>
      constructor
      · intro hFault
        exact absurd hFault (not_comesThrough_error fault)
      · rintro ⟨hFault, -⟩
        exact absurd hFault (not_comesThrough_error fault)

end Perform

end TrainKernel.User
