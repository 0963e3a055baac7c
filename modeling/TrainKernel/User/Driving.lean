import Mathlib.Logic.Relation
import TrainKernel.User.Engineer

/-!
# How a train is driven

Of all that an engineer knows, only a part decides how fast it believes its train to be. That
part makes six kinds of steps, and every message is handled in such steps.
-/

namespace TrainKernel.User

open Function Library.Int32

variable {Node : Type}

/-- `seen` says that the train has passed a sensor. -/
structure Drive where
  state : TrainState
  speed : Int
  prevSpeed : Int
  seen : Bool
  stoppingDistance : List Int
  timeDeltas : Int → Int → Int
  lastTime : Int
  creationTime : Int

def Engineer.drive (e : Engineer Node) : Drive where
  state := e.state
  speed := e.speed
  prevSpeed := e.prevSpeed
  seen := e.prevNode.isSome
  stoppingDistance := e.stoppingDistance
  timeDeltas := e.timeDeltas
  lastTime := e.lastUpdate.time
  creationTime := e.creationTime

namespace Drive

variable {d d' : Drive}

/-- The weighted average of what has been measured and what was known. -/
def average (new past : Int) : Int :=
  (wrap32 (wrap32 new * alpha + past * (100 - alpha))).tdiv 100

def learned (d : Drive) (sensor time : Int) : Int → Int → Int :=
  update d.timeDeltas d.speed (update (d.timeDeltas d.speed) sensor
    (average (time - d.lastTime) (d.timeDeltas d.speed sensor)))

/-- Nothing overflows when the train learns from the sensor at that time. -/
structure LearnsInRange (d : Drive) (sensor time : Int) : Prop where
  newDifference : FitsInt (time - d.lastTime)
  newTerm : FitsInt ((time - d.lastTime) * alpha)
  pastTerm : FitsInt (d.timeDeltas d.speed sensor * (100 - alpha))
  sum : FitsInt ((time - d.lastTime) * alpha + d.timeDeltas d.speed sensor * (100 - alpha))

instance (d : Drive) (sensor time : Int) : Decidable (d.LearnsInRange sensor time) :=
  decidable_of_iff (FitsInt (time - d.lastTime) ∧ FitsInt ((time - d.lastTime) * alpha) ∧
      FitsInt (d.timeDeltas d.speed sensor * (100 - alpha)) ∧
      FitsInt ((time - d.lastTime) * alpha + d.timeDeltas d.speed sensor * (100 - alpha)))
    ⟨fun ⟨hNew, hNewTerm, hPast, hSum⟩ => ⟨hNew, hNewTerm, hPast, hSum⟩,
      fun h => ⟨h.newDifference, h.newTerm, h.pastTerm, h.sum⟩⟩

/-- A sensor starts a train that is ready, and gives one that accelerates a constant velocity. -/
def arrived (d : Drive) : Drive :=
  { d with
    state := match d.state with
      | .ready => if d.speed ≠ 0 then .accelerating else .stopped
      | .accelerating => .running
      | state => state }

def passed (d : Drive) (timeDeltas : Int → Int → Int) (time : Int) : Drive :=
  { d.arrived with
    seen := true
    timeDeltas := timeDeltas
    lastTime := time
    creationTime := time }

/-- `Learns` restricts the reports that the train learns from. -/
inductive Step (Learns : Drive → Int → Int → Prop) : Drive → Drive → Prop
  | halt {d : Drive} : d.state = .decelerating → Step Learns d { d with state := .stopped }
  | turn {d : Drive} : d.state = .reversing →
      Step Learns d { d with state := if d.speed = 0 then .stopped else .accelerating }
  | pass {d : Drive} {time : Int} : d.creationTime < time →
      Step Learns d (d.passed d.timeDeltas time)
  | learn {d : Drive} {sensor time : Int} : d.creationTime < time → d.state = .running →
      Learns d sensor time → Step Learns d (d.passed (d.learned sensor time) time)
  | setSpeed {d : Drive} {speed : Int} : 0 ≤ speed → speed ≤ 14 →
      Step Learns d { d with
        prevSpeed := d.speed, speed := speed, state := stateAfterSpeed d.state speed }
  | setReverse {d : Drive} : d.seen = true →
      Step Learns d { d with
        state := if d.state = .init then .init else .reversing, seen := true }

abbrev Steps (Learns : Drive → Int → Int → Prop) : Drive → Drive → Prop :=
  Relation.ReflTransGen (Step Learns)

structure Sound (d : Drive) : Prop where
  speed : 0 ≤ d.speed ∧ d.speed ≤ 14
  prevSpeed : 0 ≤ d.prevSpeed ∧ d.prevSpeed ≤ 14
  state_ne : d.state ≠ .init
  moving : d.state = .accelerating ∨ d.state = .running → 0 < d.speed
  seen : d.state ≠ .ready → d.seen = true
  lastTime : d.seen = true → d.lastTime = d.creationTime
  stoppingDistance : d.stoppingDistance = stoppingDist62 ∨ d.stoppingDistance = stoppingDist66
  timeDeltas : ∀ s i, 1 ≤ s → 1 ≤ d.timeDeltas s i
  timeDeltas_zero : ∀ i, d.timeDeltas 0 i = 0

theorem forall_learned {P : Int → Int → Prop} {sensor time : Int}
    (h : ∀ s i, P s (d.timeDeltas s i))
    (hLearned : P d.speed (average (time - d.lastTime) (d.timeDeltas d.speed sensor)))
    (s i : Int) : P s (d.learned sensor time s i) := by
  rw [learned, update_apply]
  split_ifs with hSpeed
  · rw [update_apply, hSpeed]
    split_ifs
    · exact hLearned
    · exact h d.speed i
  · exact h s i

/-- The average of exact integers, where nothing overflows. -/
theorem LearnsInRange.average_eq {sensor time : Int} (h : d.LearnsInRange sensor time) :
    average (time - d.lastTime) (d.timeDeltas d.speed sensor) =
      ((time - d.lastTime) * alpha + d.timeDeltas d.speed sensor * (100 - alpha)).tdiv 100 := by
  rw [average, wrap32_of_fits h.newDifference, wrap32_of_fits h.sum]

/-- A weighted average is at least the lower of two times. -/
theorem LearnsInRange.le_average {sensor time low : Int} (h : d.LearnsInRange sensor time)
    (hLow : 0 ≤ low) (hNew : low ≤ time - d.lastTime) (hPast : low ≤ d.timeDeltas d.speed sensor) :
    low ≤ average (time - d.lastTime) (d.timeDeltas d.speed sensor) := by
  rw [h.average_eq, alpha, Int.tdiv_eq_ediv_of_nonneg (by omega)]
  omega

theorem LearnsInRange.average_le {sensor time high : Int} (h : d.LearnsInRange sensor time)
    (hNew : 0 ≤ time - d.lastTime) (hNewHigh : time - d.lastTime ≤ high)
    (hPast : 0 ≤ d.timeDeltas d.speed sensor) (hPastHigh : d.timeDeltas d.speed sensor ≤ high) :
    average (time - d.lastTime) (d.timeDeltas d.speed sensor) ≤ high := by
  rw [h.average_eq, alpha, Int.tdiv_eq_ediv_of_nonneg (by omega)]
  omega

theorem LearnsInRange.learned_pos {sensor time : Int} (hRange : d.LearnsInRange sensor time)
    (hTime : d.lastTime < time) (h : ∀ s i, 1 ≤ s → 1 ≤ d.timeDeltas s i) (s i : Int)
    (hs : 1 ≤ s) : 1 ≤ d.learned sensor time s i := by
  refine forall_learned (P := fun s v => 1 ≤ s → 1 ≤ v) h ?_ s i hs
  intro hSpeed
  exact hRange.le_average Int.one_nonneg (by omega) (h d.speed sensor hSpeed)

theorem Sound.learned_pos (h : d.Sound) {sensor time : Int} (hTime : d.creationTime < time)
    (hState : d.state = .running) (hRange : d.LearnsInRange sensor time) (s i : Int)
    (hs : 1 ≤ s) : 1 ≤ d.learned sensor time s i := by
  have hLast := h.lastTime (h.seen (by rw [hState]; decide))
  exact hRange.learned_pos (hLast.trans_lt hTime) h.timeDeltas s i hs

theorem Sound.learned_zero (h : d.Sound) {sensor time : Int} (hState : d.state = .running)
    (i : Int) : d.learned sensor time 0 i = 0 := by
  have hSpeed := h.moving (Or.inr hState)
  rw [learned, update_of_ne (by omega)]
  exact h.timeDeltas_zero i

theorem Sound.passed (h : d.Sound) {timeDeltas : Int → Int → Int} {time : Int}
    (hDeltas : ∀ s i, 1 ≤ s → 1 ≤ timeDeltas s i) (hZero : ∀ i, timeDeltas 0 i = 0) :
    (d.passed timeDeltas time).Sound where
  speed := h.speed
  prevSpeed := h.prevSpeed
  state_ne := by
    simp only [Drive.passed, arrived]
    split
    · split_ifs <;> simp
    · simp
    · exact h.state_ne
  moving := by
    have hSpeed := h.speed
    simp only [Drive.passed, arrived]
    split
    · split_ifs with hZero
      · omega
      · simp
    · exact fun _ => h.moving (Or.inl ‹_›)
    · exact h.moving
  seen _ := rfl
  lastTime _ := rfl
  stoppingDistance := h.stoppingDistance
  timeDeltas := hDeltas
  timeDeltas_zero := hZero

theorem Sound.withState (h : d.Sound) {state : TrainState} (hSeen : d.seen = true)
    (hNe : state ≠ .init) (hMoving : state = .accelerating ∨ state = .running → 0 < d.speed) :
    Sound { d with state := state } where
  speed := h.speed
  prevSpeed := h.prevSpeed
  state_ne := hNe
  moving := hMoving
  seen _ := hSeen
  lastTime := h.lastTime
  stoppingDistance := h.stoppingDistance
  timeDeltas := h.timeDeltas
  timeDeltas_zero := h.timeDeltas_zero

theorem Sound.setSpeed (h : d.Sound) {speed : Int} (h0 : 0 ≤ speed) (h14 : speed ≤ 14) :
    Sound { d with
      prevSpeed := d.speed, speed := speed, state := stateAfterSpeed d.state speed } where
  speed := ⟨h0, h14⟩
  prevSpeed := h.speed
  state_ne := by
    simp only [stateAfterSpeed]
    split
    case h_5 => exact h.state_ne
    all_goals split_ifs <;> simp
  moving := by
    simp only [stateAfterSpeed]
    split
    case h_5 hStopped hRunning hDecelerating hAccelerating =>
      exact fun h => (h.elim hAccelerating hRunning).elim
    case h_1 | h_3 =>
      split_ifs with hPos
      · exact fun _ => hPos
      · simp
    case h_2 | h_4 =>
      split_ifs with hZero
      · simp
      · omega
  seen hState := h.seen fun hReady => hState (by rw [hReady]; rfl)
  lastTime := h.lastTime
  stoppingDistance := h.stoppingDistance
  timeDeltas := h.timeDeltas
  timeDeltas_zero := h.timeDeltas_zero

/-- Where no average overflows, the drive stays sound. -/
theorem Step.sound (hStep : Step LearnsInRange d d') (h : d.Sound) : d'.Sound := by
  cases hStep with
  | halt hState =>
    exact h.withState (h.seen (by rw [hState]; decide)) (by decide) (by simp)
  | turn hState =>
    have hSpeed := h.speed
    apply h.withState (h.seen (by rw [hState]; decide))
    · split_ifs <;> simp
    · split_ifs with hZero
      · simp
      · omega
  | pass hTime => exact h.passed h.timeDeltas h.timeDeltas_zero
  | learn hTime hState hRange =>
    exact h.passed (h.learned_pos hTime hState hRange) (h.learned_zero hState)
  | setSpeed h0 h14 => exact h.setSpeed h0 h14
  | setReverse hSeen =>
    rw [if_neg h.state_ne, ← hSeen]
    exact h.withState hSeen (by decide) (by simp)

theorem Steps.sound (hSteps : Steps LearnsInRange d d') (h : d.Sound) : d'.Sound := by
  induction hSteps with
  | refl => exact h
  | tail _ hStep ih => exact hStep.sound ih

end Drive

end TrainKernel.User
