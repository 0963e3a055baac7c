import TrainKernel.User.CommandQueue
import TrainKernel.User.Navigation

/-!
# The sensor server

The sensor worker reports one byte of the sensors at a time. Every sensor that was hit is
attributed to an engineer who has claimed it, and the engineer hears of it from the engineer
courier.
-/

namespace TrainKernel.User

inductive SensorRequest where
  | newSensor (data : BitVec 8) (seq time : Nat)
  | initialClaim (index : Int) (engineerTid : Nat)
  | claimSensor (claim : SensorClaim)
  | requestSensor

structure SensorDelivery where
  tid : Int
  type : Int
  nodeIndex : Int
  timestamp : Nat
deriving DecidableEq, Repr

/-- A `prevTime` of -1 belongs to an engineer who has not hit a sensor yet. -/
structure Attribution where
  courierTid : Int
  engineerTid : Int
  prevTime : Int
  prevSensor : Int
  primary : Int
  secondary : Int
  neg_one_le_prevTime : -1 ≤ prevTime
deriving DecidableEq

def Attribution.hit (attr : Attribution) (timestamp : Nat) : Attribution :=
  { attr with
    prevTime := timestamp
    neg_one_le_prevTime := Int.le_trans (by decide) (Int.natCast_nonneg timestamp) }

/-- The variables of `sensorServer`; `attrs` are the entries below `numEngineer`. -/
structure SensorServer where
  engineerCourierTid : Nat
  sensorQueue : RingBuffer SensorDelivery
  attrs : List Attribution

inductive SensorOutput where
  | reply (tid : Nat)
  | deliver (tid : Nat) (delivery : SensorDelivery)
deriving DecidableEq

/-- The assertions. -/
inductive SensorFault where
  | noEngineerCourier
  | roomForEngineer
  | courierKnown
deriving DecidableEq

def maxNumEngineer : Nat := 2

def sensorTrigger : Int := 40

def initAttribution : Attribution := ⟨-1, -1, -1, -1, -1, -1, le_rfl⟩

def initSensorServer (sensorBuf : Nat → SensorDelivery) : SensorServer :=
  ⟨0, ⟨0, 0, 64, sensorBuf⟩, []⟩

def getSensorIndex (group offset : Int) : Int := 16 * group + offset - 1

/-- A new entry of the table. -/
def initialAttribution (courierTid : Nat) (index : Int) (engineerTid : Nat)
    (attrs : List Attribution) : Except SensorFault (List Attribution) :=
  if attrs.length < maxNumEngineer then
    .ok (attrs ++ [{ initAttribution with
      courierTid := courierTid, engineerTid := engineerTid, primary := index }])
  else .error .roomForEngineer

def getAttribution (courierTid : Nat) (attrs : List Attribution) : Option Nat :=
  attrs.findIdx? fun attr => attr.courierTid = (courierTid : Int)

def setAttribution (courierTid : Nat) (claim : SensorClaim) (attrs : List Attribution) :
    Except SensorFault (List Attribution) :=
  match getAttribution courierTid attrs with
  | none => .error .courierKnown
  | some i =>
    .ok (attrs.modify i fun attr =>
      { attr with primary := claim.primary, secondary := claim.secondary })

/-- The smallest time so far, and the index of the engineer; both start at -1. -/
structure Minimum where
  time : Int
  index : Int
deriving DecidableEq, Repr

structure Minima where
  primary : Minimum
  secondary : Minimum

/-- The loop over the attributions, at entry `i`. -/
def attributionLoop (sensorIndex : Int) : Nat → Minima → List Attribution → Minima
  | _, min, [] => min
  | i, min, attr :: attrs =>
    let min :=
      if attr.primary = sensorIndex then
        if min.primary.time = -1 ∨ attr.prevTime < min.primary.time ∨ attr.prevTime = -1 then
          { min with primary := ⟨attr.prevTime, i⟩ }
        else min
      else if attr.secondary = sensorIndex then
        if min.secondary.time = -1 ∨ attr.prevTime < min.secondary.time then
          { min with secondary := ⟨attr.prevTime, i⟩ }
        else min
      else min
    attributionLoop sensorIndex (i + 1) min attrs

/-- The entry that the trigger is attributed to; -1 if there is none. -/
def attrIndex (attrs : List Attribution) (sensorIndex : Int) : Int :=
  let min := attributionLoop sensorIndex 0 ⟨⟨-1, -1⟩, ⟨-1, -1⟩⟩ attrs
  if 0 ≤ min.primary.index then min.primary.index else min.secondary.index

/-- A full queue loses what it holds: `sensorServer` does not look at the result. -/
def attributeTo (s : SensorServer) (i : Nat) (sensorIndex : Int) (timestamp : Nat) :
    SensorServer × List SensorOutput :=
  let attrs := s.attrs.modify i (·.hit timestamp)
  let engineerTid := (attrs[i]?.getD initAttribution).engineerTid
  let delivery := ⟨engineerTid, sensorTrigger, sensorIndex, timestamp⟩
  if s.engineerCourierTid ≠ 0 then
    ({ s with attrs, engineerCourierTid := 0 }, [.deliver s.engineerCourierTid delivery])
  else ({ s with attrs, sensorQueue := (s.sensorQueue.enqueue delivery).1 }, [])

/-- A hit that nobody has claimed is spurious, and it is ignored. -/
def triggerSensor (s : SensorServer) (sensorIndex : Int) (timestamp : Nat) :
    SensorServer × List SensorOutput :=
  let i := attrIndex s.attrs sensorIndex
  if 0 ≤ i then attributeTo s i.toNat sensorIndex timestamp else (s, [])

/-- The loop over the byte; bit `i` stands for the sensor with number `8 - i` of its half. -/
def newSensorLoop (data : BitVec 8) (seq time : Nat) :
    List Nat → SensorServer → SensorServer × List SensorOutput
  | [], s => (s, [])
  | i :: rest, s =>
    if data.getLsbD i then
      let offset := if seq % 2 = 0 then 0 else 8
      let sensorIndex := getSensorIndex (seq / 2 : Nat) (8 - i + offset)
      let (s, sent) := triggerSensor s sensorIndex time
      let (s, later) := newSensorLoop data seq time rest s
      (s, sent ++ later)
    else newSensorLoop data seq time rest s

def serveSensors (s : SensorServer) (tid : Nat) :
    SensorRequest → Except SensorFault (SensorServer × List SensorOutput)
  | .requestSensor =>
    match s.sensorQueue.dequeue with
    | none => .ok ({ s with engineerCourierTid := tid }, [])
    | some (delivery, sensorQueue) =>
      if s.engineerCourierTid = 0 then .ok ({ s with sensorQueue }, [.deliver tid delivery])
      else .error .noEngineerCourier
  | .newSensor data seq time =>
    let (s, sent) := newSensorLoop data seq time (List.range 8) s
    .ok (s, sent ++ [.reply tid])
  | .claimSensor claim => do
    let attrs ← setAttribution tid claim s.attrs
    .ok ({ s with attrs }, [.reply tid])
  | .initialClaim index engineerTid => do
    let attrs ← initialAttribution tid index engineerTid s.attrs
    .ok ({ s with attrs }, [.reply tid])

end TrainKernel.User
