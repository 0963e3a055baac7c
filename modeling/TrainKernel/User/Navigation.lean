import TrainKernel.Library.Int32
import TrainKernel.User.Pathfinding
import TrainKernel.User.Turnout

/-!
# Finding the way along the turnouts

What lies ahead of a node depends on how the turnouts are set. The functions here look for
the next node, the next sensor, the sensors to claim and the distance to a landmark.
-/

namespace TrainKernel.User

open Function Library.Int32

variable {Node : Type}

inductive Pointer where
  | prevNode
  | prevSensor
  | nextSensor
  | other
deriving DecidableEq, Repr

inductive Check where
  | known
  | nextKnown
  | notInit
  | sensorDist
  | noOutstandingClaim
  | tempKnown
  | prevNodeKnown
  | argument
  | commandBuffer
  | dequeued
  | reserveNodes
  | claimedNode
  | turnout
  | messageType
deriving DecidableEq, Repr

inductive EngineerFault where
  | divideByZero
  | nullPointer (pointer : Pointer)
  | assertion (check : Check)
  | outOfBounds
  /-- A walk along the track that goes round and round. -/
  | endless
  | route (fault : RouteFault)
deriving DecidableEq, Repr

variable (track : Track Node) (trackBitmap : TrackBitmap)

def known {α : Type} (check : Check) (pointer : Option α) : Except EngineerFault α :=
  match pointer with
  | some x => .ok x
  | none => .error (.assertion check)

def deref {α : Type} (name : Pointer) (pointer : Option α) : Except EngineerFault α :=
  match pointer with
  | some x => .ok x
  | none => .error (.nullPointer name)

def getNextEdge (node : Node) : Except EngineerFault (Option Dir) :=
  match track.type node with
  | .branch => do
    let curved ← known .turnout (turnoutIsCurved trackBitmap (track.num node))
    return some (if curved then dirCurved else dirStraight)
  | .exit => return none
  | _ => return some dirAhead

def getNextNode (currentNode : Node) : Except EngineerFault (Option Node) := do
  match ← getNextEdge track trackBitmap currentNode with
  | none => return none
  | some nextEdge => return track.dest currentNode nextEdge

/-- A walk that has met no sensor after this many nodes meets none. -/
def walkLimit : Nat := trackMax + 1

def getNextSensorLoop : Nat → Node → Except EngineerFault (Option Node)
  | 0, _ => .error .endless
  | fuel + 1, node => do
    match ← getNextNode track trackBitmap node with
    | none => return none
    | some node =>
      if track.type node = .sensor then return some node
      else getNextSensorLoop fuel node

def getNextSensor (node : Node) : Except EngineerFault (Option Node) :=
  getNextSensorLoop track trackBitmap walkLimit node

variable [DecidableEq Node]

def distanceLoop (dst : Node) : Nat → Node → Int → Except EngineerFault Int
  | 0, _, _ => return -1
  | rounds + 1, nextNode, totalDistance => do
    match ← getNextEdge track trackBitmap nextNode with
    | none => return -1
    | some nextEdge =>
      match track.dest nextNode nextEdge with
      | none => return -1
      | some node =>
        let totalDistance := wrap32 (totalDistance + track.dist nextNode nextEdge)
        if node = dst then return wrap32 (1000 * totalDistance)
        else distanceLoop dst rounds node totalDistance

/-- The distance in micrometres along the turnouts, or -1. -/
def distanceBetween (src dst : Option Node) : Except EngineerFault Int := do
  let src ← known .argument src
  let dst ← known .argument dst
  distanceLoop track trackBitmap dst (trackMax / 2) src 0

structure SensorClaim where
  primary : Int
  secondary : Int
deriving DecidableEq, Repr

omit [DecidableEq Node] in
def sensorFrom (node : Node) : Except EngineerFault (Option Node) :=
  if track.type node = .sensor then return some node else getNextSensor track trackBitmap node

omit [DecidableEq Node] in
/-- The branch of `getNextClaims` for a branch of the track: the way the turnout is set, and
the other way. -/
def branchClaims (node : Node) : Except EngineerFault SensorClaim := do
  let primary ← known .claimedNode (← getNextNode track trackBitmap node)
  let curved ← known .turnout (turnoutIsCurved trackBitmap (track.num node))
  let secondary := track.dest node (if curved then dirStraight else dirCurved)
  let primary ← known .claimedNode (← sensorFrom track trackBitmap primary)
  match secondary with
  | none => return ⟨track.idx primary, -1⟩
  | some secondary =>
    if track.type secondary = .exit then return ⟨track.idx primary, -1⟩
    else
      let secondary ← deref .other (← sensorFrom track trackBitmap secondary)
      return ⟨track.idx primary, track.idx secondary⟩

omit [DecidableEq Node] in
def getNextClaimsLoop : Nat → Node → Except EngineerFault SensorClaim
  | 0, _ => .error .endless
  | fuel + 1, node => do
    let node ← known .claimedNode (← getNextNode track trackBitmap node)
    match track.type node with
    | .branch => branchClaims track trackBitmap node
    | .sensor =>
      match ← getNextSensor track trackBitmap node with
      | some secondary => return ⟨track.idx node, track.idx secondary⟩
      | none => return ⟨track.idx node, -1⟩
    | .exit => return ⟨-1, -1⟩
    | .merge => getNextClaimsLoop fuel node
    | _ => .error (.assertion .claimedNode)

def getNextClaims (prevNode : Option Node) : Except EngineerFault SensorClaim := do
  getNextClaimsLoop track trackBitmap walkLimit (← known .argument prevNode)

end TrainKernel.User
