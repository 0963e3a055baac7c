import TrainKernel.User.CommandQueue
import TrainKernel.User.Ebook
import TrainKernel.User.TrackServer

/-!
# The engineer

One engineer drives one train. It takes one message at a time; what it replies, the messages
it sends to the track server and the turnouts it throws are kept in the order in which they
leave. Everything else that it reads belongs to the surroundings of the message.
-/

namespace TrainKernel.User

open Function Library.Int32

variable {Node : Type}

inductive TrainState where
  | init
  | ready
  | stopped
  | running
  | reversing
  | decelerating
  | accelerating
deriving DecidableEq, Repr

inductive LocationType where
  | init
  | dist
  | landmark
  | sensor
deriving DecidableEq, Repr

/-- The nodes stand for their names. -/
structure LocationMessage (Node : Type) where
  type : LocationType
  error : Int
  distToNext : Int
  expectedTime : Int
  actualTime : Int
  prevSensor : Option Node
  nextNode : Option Node
  prevNode : Option Node

structure SensorUpdate where
  sensor : Int
  time : Int

/-- The variables of `engineerServer`. -/
structure Engineer (Node : Type) where
  locationWorkerTid : Nat
  commandWorkerTid : Nat
  sensorCourierTid : Nat
  trainNumber : Int
  state : TrainState
  isForward : Bool
  speed : Int
  prevSpeed : Int
  triggeredSensor : Bool
  velocity : Int
  distSoFar : Int
  deceleration : Int
  prevNodeTime : Int
  lastLocationUpdateTime : Int
  prevNode : Option Node
  sensorDist : Int
  prevSensor : Option Node
  nextSensor : Option Node
  hasOutstandingClaim : Bool
  outstandingClaim : SensorClaim
  lastUpdate : SensorUpdate
  targetOffset : Int
  targetNode : Option Node
  stoppingDistance : List Int
  commandQueue : CommandQueue
  locationMessage : LocationMessage Node
  timeDeltas : Int → Int → Int
  creationTime : Int
  ebook : Ebook Node
  eat : Int

inductive EngineerMessage where
  | updateSensor (sensor time : Int)
  | timeoutSensor
  | updateLocation
  | go (index : Int)
  | xMark (index offset : Int)
  | setSpeed (speed : Int)
  | setReverse
  | initializeTrain (trainNumber sensorIndex : Int)
  | commandWorkerRequest
  | commandWorkerSpeedSet (speed : Int)
  | commandWorkerReverseSet
  | sensorCourierRequest
deriving DecidableEq, Repr

inductive EngineerOutput (Node : Type) where
  | reply (tid : Nat)
  | command (tid : Nat) (command : Command)
  | location (tid : Nat) (message : LocationMessage Node)
  | claim (tid : Nat) (claim : SensorClaim)
  | trackRequest (message : TrackServerMessage Node)
  | switch (turnoutNumber : Int) (direction : Char)

/-- What does not change for an engineer: `gTrack i` is the node at `&g_track[i]`. -/
structure EngineerWorld (Node : Type) where
  track : Track Node
  gTrack : Int → Node
  myTid : Nat

/-- What else the handling of a message depends on: the clock, the reservations, the answer of
the track server, the static pool of path nodes and the memory of the stack. -/
structure Surroundings (Node : Type) where
  currentTime : Int
  owner : Owners Node
  trackReply : TrackServerReply
  gNodes : NodePool Node
  pb : PathBuffer Node

structure EngineerTurn (Node : Type) where
  engineer : Engineer Node
  trackBitmap : TrackBitmap
  sent : List (EngineerOutput Node)

def EngineerTurn.send (t : EngineerTurn Node) (output : EngineerOutput Node) : EngineerTurn Node :=
  { t with sent := t.sent ++ [output] }

def stoppingDist66 : List Int :=
  [0, 100, 300, 600, 900, 1100, 2500, 4000, 5000,
    6000, 6000, 1450000, 1250000, 948200, 948200]

def stoppingDist62 : List Int :=
  [0, 100, 1000, 10000, 50000, 100000, 330000, 389000,
    487000, 500000, 558000, 635000, 700000, 816000, 812000]

def numSpeeds : Int := 15
def numSensors : Int := 5 * 16
def alpha : Int := 85
def pickUpOffset : Int := 105 * 1000

/-- The state after `initializeEngineer`; what the source leaves uninitialised is arbitrary. -/
def Engineer.start (trainNumber creationTime : Int) (locationWorkerTid : Nat)
    (cmdBuf : Nat → Command) (outstandingClaim : SensorClaim)
    (locationMessage : LocationMessage Node) (ebook : Ebook Node) : Engineer Node where
  locationWorkerTid := locationWorkerTid
  commandWorkerTid := 0
  sensorCourierTid := 0
  trainNumber := trainNumber
  state := .ready
  isForward := true
  speed := 0
  prevSpeed := 0
  triggeredSensor := false
  velocity := 0
  distSoFar := 0
  deceleration := 0
  prevNodeTime := 0
  lastLocationUpdateTime := 0
  prevNode := none
  sensorDist := 0
  prevSensor := none
  nextSensor := none
  hasOutstandingClaim := false
  outstandingClaim := outstandingClaim
  lastUpdate := ⟨0, 0⟩
  targetOffset := 0
  targetNode := none
  stoppingDistance := if trainNumber = 62 then stoppingDist62 else stoppingDist66
  commandQueue := initCommandQueue 32 cmdBuf
  locationMessage := locationMessage
  timeDeltas := fun i _ => if i = 0 then 0 else 50
  creationTime := creationTime
  ebook := ebook
  eat := 0

def Engineer.stoppingDist (e : Engineer Node) (speed : Int) : Except EngineerFault Int :=
  match e.stoppingDistance[speed.toNat]? with
  | some dist => if 0 ≤ speed then .ok dist else .error .outOfBounds
  | none => .error .outOfBounds

def Engineer.timeDelta (e : Engineer Node) (speed sensor : Int) : Except EngineerFault Int :=
  if 0 ≤ speed ∧ speed < numSpeeds ∧ 0 ≤ sensor ∧ sensor < numSensors then
    .ok (e.timeDeltas speed sensor)
  else .error .outOfBounds

def divide (a b : Int) : Except EngineerFault Int :=
  if b = 0 then .error .divideByZero else .ok (a.tdiv b)

/-- A `char` has eight bits and no sign. -/
def toChar (x : Int) : Int := x % 256

def assertThat (check : Check) (p : Bool) : Except EngineerFault Unit :=
  if p then .ok () else .error (.assertion check)

/-! ## Commands -/

/-- The command goes to the command worker if it waits for one, and into the queue otherwise.
The flag says that the queue did not overflow. -/
def issueCommand (t : EngineerTurn Node) (command : Command) : EngineerTurn Node × Bool :=
  if t.engineer.commandWorkerTid > 0 then
    ({ t.send (.command t.engineer.commandWorkerTid command) with
      engineer := { t.engineer with commandWorkerTid := 0 } }, true)
  else
    let (commandQueue, kept) := enqueueCommand t.engineer.commandQueue command
    ({ t with engineer := { t.engineer with commandQueue := commandQueue } }, kept)

/-- The commands of the landmark stop and of `issueSpeedCommand`; the result of the enqueue is
not looked at. -/
def issueSpeedCommand (t : EngineerTurn Node) (speed : Int) : EngineerTurn Node :=
  (issueCommand t ⟨.setSpeed, toChar speed, toChar t.engineer.trainNumber⟩).1

def issueChecked (t : EngineerTurn Node) (type : CommandType) (speed : Int) :
    Except EngineerFault (EngineerTurn Node) :=
  let (t, kept) := issueCommand t ⟨type, toChar speed, toChar t.engineer.trainNumber⟩
  if kept then .ok t else .error (.assertion .commandBuffer)

section reservations

variable (track : Track Node) (trackBitmap : TrackBitmap)

def maxReserveSize : Nat := 16
def maxReleaseSize : Nat := 16

def reserveNodesLoop (reserveDist : Int) :
    Nat → Int → Node → Except EngineerFault (List Node)
  | 0, _, _ => .error (.assertion .reserveNodes)
  | rounds + 1, dist, nextNode =>
    if dist ≥ reserveDist ∨ track.type nextNode = .exit then return []
    else do
      let nextEdge ← deref .other (← getNextEdge track trackBitmap nextNode)
      let node ← deref .other (← getNextNode track trackBitmap nextNode)
      let rest ← reserveNodesLoop reserveDist rounds
        (wrap32 (dist + track.dist nextNode nextEdge)) node
      return node :: rest

def getReserveNodes (src : Node) (reserveDist : Int) : Except EngineerFault (List Node) := do
  let rest ← reserveNodesLoop track trackBitmap (reserveDist.tdiv 1000) (maxReserveSize - 1) 0 src
  return src :: rest

def getPrevOwnedNode (owner : Owners Node) (node : Node) (tid : Nat) :
    Except EngineerFault (Option Node) :=
  if track.type node = .exit then return none
  else
    let reverseNode := track.reverse node
    match track.type reverseNode with
    | .sensor | .merge => do
      let reverseNext ← deref .other (← getNextNode track trackBitmap reverseNode)
      return some (track.reverse reverseNext)
    | .branch => do
      let straight ← deref .other (track.dest reverseNode dirStraight)
      if owner straight = tid then return some (track.reverse straight)
      let curved ← deref .other (track.dest reverseNode dirCurved)
      if owner curved = tid then return some (track.reverse curved)
      return none
    | _ => return none

def releaseNodesLoop (owner : Owners Node) (tid : Nat) :
    Nat → Node → Except EngineerFault (List Node)
  | 0, _ => return []
  | rounds + 1, prevNode => do
    match ← getPrevOwnedNode track trackBitmap owner prevNode tid with
    | none => return []
    | some prevNode =>
      let rest ← releaseNodesLoop owner tid rounds prevNode
      return prevNode :: rest

def getReleaseNodes (owner : Owners Node) (src : Node) (tid : Nat) :
    Except EngineerFault (List Node) :=
  if owner src ≠ tid then return []
  else do
    let rest ← releaseNodesLoop track trackBitmap owner tid (maxReleaseSize - 1) src
    return src :: rest

end reservations

variable (world : EngineerWorld Node) (around : Surroundings Node)

def requestTrack (t : EngineerTurn Node) (nextNode prevNode : Node) :
    Except EngineerFault (EngineerTurn Node) := do
  let reserveNodes ← getReserveNodes world.track t.trackBitmap nextNode
    (← t.engineer.stoppingDist t.engineer.speed)
  let releaseNodes ← getReleaseNodes world.track t.trackBitmap around.owner prevNode world.myTid
  let t := t.send (.trackRequest ⟨reserveNodes, releaseNodes⟩)
  if around.trackReply ≠ .success then return issueSpeedCommand t 0
  else return t

def setTurnout (t : EngineerTurn Node) (turnoutNumber : Int) (direction : Char) :
    Except EngineerFault (EngineerTurn Node) := do
  let trackBitmap ← known .turnout (setBitmap t.trackBitmap turnoutNumber direction)
  return { t.send (.switch turnoutNumber direction) with trackBitmap := trackBitmap }

def throwTurnout (t : EngineerTurn Node) (turnop : Int) :
    Except EngineerFault (EngineerTurn Node) :=
  if turnop ≠ 0 then
    let turnoutNumber := world.track.num (world.gTrack (turnopGetTracknodeIndex turnop))
    setTurnout t turnoutNumber (if turnopGetCurve turnop then 'c' else 's')
  else return t

def throwTurnouts (ent : Enstruction Node) :
    Nat → Nat → EngineerTurn Node → Except EngineerFault (EngineerTurn Node)
  | 0, _, t => .ok t
  | rounds + 1, i, t => do
    if maxPathLength ≤ i then .error .outOfBounds
    else
      let _ ← deref .other (ent.tracknodes i)
      let t ← throwTurnout world t (ent.turnops i)
      throwTurnouts ent rounds (i + 1) t

def setTargetFromEnstruction (t : EngineerTurn Node) (ent : Enstruction Node) :
    Except EngineerFault (EngineerTurn Node) := do
  let t ← throwTurnouts world ent ent.length.toNat 0 t
  let destination ← deref .other ent.togo.node
  return { t with
    engineer := { t.engineer with targetNode := some destination, targetOffset := 0 } }

/-- `ebook.enstructs[eat++]`. -/
def nextEnstruction (t : EngineerTurn Node) :
    Except EngineerFault (Enstruction Node × EngineerTurn Node) :=
  let e := t.engineer
  if 0 ≤ e.eat ∧ e.eat < maxEbookLength then
    .ok (e.ebook.enstructs e.eat.toNat, { t with engineer := { e with eat := e.eat + 1 } })
  else .error .outOfBounds

def currentDeceleration (e : Engineer Node) : Except EngineerFault Int := do
  if e.deceleration = 0 then
    divide (wrap32 (e.velocity * e.velocity)) (2 * (← e.stoppingDist e.prevSpeed))
  else return e.deceleration

def updateDistance (e : Engineer Node) (nextSensor : Node) :
    Except EngineerFault (Engineer Node) :=
  if e.state = .decelerating then do
    let deceleration ← currentDeceleration e
    let elapsed := around.currentTime - e.lastLocationUpdateTime
    let velocity := wrap32 (e.velocity - deceleration * elapsed)
    if velocity ≤ 0 then
      return { e with velocity := 0, deceleration := 0, state := .stopped }
    else
      return { e with
        velocity := velocity
        deceleration := deceleration
        distSoFar := wrap32 (e.distSoFar + elapsed * velocity) }
  else if e.state ≠ .stopped then do
    let velocity ← divide e.sensorDist (← e.timeDelta e.speed (world.track.idx nextSensor))
    return { e with
      velocity := velocity
      distSoFar := wrap32 ((around.currentTime - e.prevNodeTime) * velocity) }
  else return e

variable [DecidableEq Node]

def checkTarget (t : EngineerTurn Node) : Except EngineerFault (EngineerTurn Node) := do
  let e := t.engineer
  if e.targetNode = none then return t
  let pickUp := if e.isForward then 0 else pickUpOffset
  let dist := wrap32 ((← distanceBetween world.track t.trackBitmap e.prevNode e.targetNode)
    - pickUp - e.targetOffset - e.distSoFar)
  let stoppingDist ← e.stoppingDist e.speed
  if dist ≥ 0 ∧ stoppingDist > 0 ∧ dist ≤ stoppingDist then
    let t := issueSpeedCommand t 0
    let t := { t with engineer := { t.engineer with targetNode := none, targetOffset := 0 } }
    if t.engineer.eat < t.engineer.ebook.length then
      let (ent, t) ← nextEnstruction t
      let t ← setTargetFromEnstruction world t ent
      issueChecked t .reverse e.speed
    else return t
  else return t

def landmarkMessage (message : LocationMessage Node) (nextNode prevNode : Node) (dist : Int) :
    LocationMessage Node :=
  { message with
    type := .landmark, nextNode := some nextNode, prevNode := some prevNode, distToNext := dist }

def sendLocation (t : EngineerTurn Node) (tid : Nat) (message : LocationMessage Node) :
    EngineerTurn Node :=
  { t.send (.location tid message) with
    engineer := { t.engineer with locationMessage := message } }

/-- The three ways to go on: a landmark is reached, the train has been reversed, or neither. -/
def updatePosition (t : EngineerTurn Node) (tid : Nat) (prevNode nextNode : Node)
    (distToNextNode : Int) : Except EngineerFault (EngineerTurn Node) := do
  let e := t.engineer
  if distToNextNode ≤ 0 ∧ world.track.type nextNode ≠ .sensor then
    let prevNode := nextNode
    let nextNode ← known .nextKnown (← getNextNode world.track t.trackBitmap prevNode)
    let nextEdge ← known .nextKnown (← getNextEdge world.track t.trackBitmap prevNode)
    let distToNextNode := wrap32 (world.track.dist prevNode nextEdge * 1000)
    let t := { t with engineer := { e with
      prevNode := some prevNode, prevNodeTime := around.currentTime, distSoFar := 0 } }
    let t := sendLocation t tid (landmarkMessage e.locationMessage nextNode prevNode distToNextNode)
    requestTrack world around t nextNode prevNode
  else if e.state = .reversing then
    let nextNode ← deref .other (← getNextNode world.track t.trackBitmap prevNode)
    let t := sendLocation t tid (landmarkMessage e.locationMessage nextNode prevNode e.distSoFar)
    return { t with engineer := { t.engineer with
      distSoFar := distToNextNode
      state := if e.speed = 0 then .stopped else .accelerating } }
  else
    let message := { e.locationMessage with type := .dist, distToNext := distToNextNode }
    let t := sendLocation t tid message
    requestTrack world around t nextNode prevNode

def updateLocation (t : EngineerTurn Node) (tid : Nat) :
    Except EngineerFault (EngineerTurn Node) := do
  let e := t.engineer
  if e.state = .ready then return t
  if e.triggeredSensor then
    return { t.send (.location tid e.locationMessage) with
      engineer := { e with triggeredSensor := false } }
  let prevNode ← known .known e.prevNode
  let _ ← known .known e.prevSensor
  let nextSensor ← known .known e.nextSensor
  let nextNode ← known .nextKnown (← getNextNode world.track t.trackBitmap prevNode)
  let nextEdge ← known .nextKnown (← getNextEdge world.track t.trackBitmap prevNode)
  let e ← updateDistance world around e nextSensor
  let e := { e with lastLocationUpdateTime := around.currentTime }
  let distToNextNode := wrap32 (world.track.dist prevNode nextEdge * 1000 - e.distSoFar)
  let t ← checkTarget world { t with engineer := e }
  updatePosition world around t tid prevNode nextNode distToNextNode

/-! ## Sensors -/

def learn (e : Engineer Node) (sensor time : Int) : Engineer Node :=
  if e.state = .running then
    let pastDifference := e.timeDeltas e.speed sensor
    let newDifference := wrap32 (time - e.lastUpdate.time)
    let learned := (wrap32 (newDifference * alpha + pastDifference * (100 - alpha))).tdiv 100
    { e with
      timeDeltas := update e.timeDeltas e.speed (update (e.timeDeltas e.speed) sensor learned) }
  else e

def claimNext (t : EngineerTurn Node) : Except EngineerFault (EngineerTurn Node) := do
  let e := t.engineer
  if e.sensorCourierTid ≠ 0 then
    let claim ← getNextClaims world.track t.trackBitmap e.prevSensor
    return { t.send (.claim e.sensorCourierTid claim) with
      engineer := { e with sensorCourierTid := 0 } }
  else
    assertThat .noOutstandingClaim (!e.hasOutstandingClaim)
    let claim ← getNextClaims world.track t.trackBitmap e.prevSensor
    return { t with engineer := { e with outstandingClaim := claim, hasOutstandingClaim := true } }

def recordSensor (e : Engineer Node) (sensor time : Int) (message : LocationMessage Node) :
    Engineer Node :=
  if e.lastUpdate.sensor ≥ 0 then
    { learn e sensor time with locationMessage := message, triggeredSensor := true }
  else e

/-- The train is on its way, or, once it meets the next sensor, has a constant velocity. -/
def passSensor (t : EngineerTurn Node) : EngineerTurn Node :=
  let e := t.engineer
  if e.state = .ready then
    let t := sendLocation t e.locationWorkerTid { e.locationMessage with type := .init }
    { t with engineer := { t.engineer with
      state := if e.speed ≠ 0 then .accelerating else .stopped
      locationWorkerTid := 0 } }
  else if e.state = .accelerating then
    { t with engineer := { e with state := .running } }
  else t

def updateSensor (t : EngineerTurn Node) (tid : Nat) (sensor time : Int) :
    Except EngineerFault (EngineerTurn Node) := do
  assertThat .notInit (t.engineer.state ≠ .init)
  let t := t.send (.reply tid)
  let e := t.engineer
  if time ≤ e.creationTime then return t
  let node := world.gTrack sensor
  let nextSensor ← getNextSensor world.track t.trackBitmap node
  let sensorDist ← distanceBetween world.track t.trackBitmap (some node) nextSensor
  assertThat .sensorDist (sensorDist ≥ 0)
  let nextNode ← known .nextKnown (← getNextNode world.track t.trackBitmap node)
  let nextEdge ← known .nextKnown (← getNextEdge world.track t.trackBitmap node)
  let expectedTime ← e.timeDelta e.speed sensor
  let actualTime := wrap32 (time - e.lastUpdate.time)
  let e := { e with
    prevNode := some node
    prevNodeTime := time
    prevSensor := some node
    nextSensor := nextSensor
    sensorDist := sensorDist
    distSoFar := if e.isForward then 0 else pickUpOffset }
  let e := recordSensor e sensor time
    { type := .sensor
      error := wrap32 (expectedTime - actualTime).natAbs
      distToNext := wrap32 (world.track.dist node nextEdge * 1000)
      expectedTime := expectedTime
      actualTime := actualTime
      prevSensor := some node
      nextNode := some nextNode
      prevNode := some node }
  let e := { e with creationTime := time, lastUpdate := ⟨sensor, time⟩ }
  claimNext world (passSensor { t with engineer := e })

def sensorCourierRequest (t : EngineerTurn Node) (tid : Nat) : EngineerTurn Node :=
  let e := t.engineer
  if e.hasOutstandingClaim then
    { t.send (.claim tid e.outstandingClaim) with
      engineer := { e with hasOutstandingClaim := false } }
  else { t with engineer := { e with sensorCourierTid := tid } }

def xMark (t : EngineerTurn Node) (tid : Nat) (index offset : Int) :
    Except EngineerFault (EngineerTurn Node) := do
  assertThat .notInit (t.engineer.state ≠ .init)
  let targetNode := some (world.gTrack index)
  return { t.send (.reply tid) with
    engineer := { t.engineer with targetNode := targetNode, targetOffset := offset } }

def setSpeed (t : EngineerTurn Node) (tid : Nat) (speed : Int) :
    Except EngineerFault (EngineerTurn Node) := do
  assertThat .notInit (t.engineer.state ≠ .init)
  issueChecked (t.send (.reply tid)) .setSpeed speed

def setReverse (t : EngineerTurn Node) (tid : Nat) : Except EngineerFault (EngineerTurn Node) := do
  assertThat .notInit (t.engineer.state ≠ .init)
  issueChecked (t.send (.reply tid)) .reverse t.engineer.speed

/-- The path buffer is on the stack, and `go` does not set its train number. -/
def goRoute (prevNode dst : Node) : Except RouteFault (Int × PathBuffer Node) :=
  planRoute world.track around.owner around.gNodes prevNode dst around.pb

def go (t : EngineerTurn Node) (tid : Nat) (index : Int) :
    Except EngineerFault (EngineerTurn Node) := do
  let src ← deref .prevNode t.engineer.prevNode
  let t := t.send (.reply tid)
  match goRoute world around src (world.gTrack index) with
  | .error fault => .error (.route fault)
  | .ok (ret, pb) =>
    if ret < 0 then
      return { t with engineer := { t.engineer with ebook := initEbook t.engineer.ebook } }
    let (_, ebook) ← makeEbook world.track pb t.engineer.ebook
    let t := { t with engineer := { t.engineer with ebook := ebook, eat := 0 } }
    if t.engineer.eat < t.engineer.ebook.length then
      let (ent, t) ← nextEnstruction t
      setTargetFromEnstruction world t ent
    else return t

def commandWorkerRequest (t : EngineerTurn Node) (tid : Nat) :
    Except EngineerFault (EngineerTurn Node) := do
  assertThat .notInit (t.engineer.state ≠ .init)
  if isCommandQueueEmpty t.engineer.commandQueue then
    return { t with engineer := { t.engineer with commandWorkerTid := tid } }
  else
    let (command, commandQueue) ← known .dequeued (dequeueCommand t.engineer.commandQueue)
    return { t.send (.command tid command) with
      engineer := { t.engineer with commandQueue := commandQueue } }

def commandWorkerReverseSet (t : EngineerTurn Node) (tid : Nat) :
    Except EngineerFault (EngineerTurn Node) := do
  let t := t.send (.reply tid)
  let e := t.engineer
  let prevNode ← known .prevNodeKnown e.prevNode
  let temp ← known .tempKnown (← getNextNode world.track t.trackBitmap prevNode)
  let nextSensor ← deref .nextSensor e.nextSensor
  let prevSensor ← deref .prevSensor e.prevSensor
  let e := { e with
    isForward := !e.isForward
    state := if e.state = TrainState.init then .init else .reversing
    prevNode := some (world.track.reverse temp)
    prevSensor := some (world.track.reverse nextSensor)
    nextSensor := some (world.track.reverse prevSensor) }
  if e.hasOutstandingClaim then
    let claim ← getNextClaims world.track t.trackBitmap e.prevSensor
    return { t with engineer := { e with outstandingClaim := claim } }
  else if e.sensorCourierTid ≠ 0 then
    let claim ← getNextClaims world.track t.trackBitmap e.prevSensor
    return { t.send (.claim e.sensorCourierTid claim) with
      engineer := { e with sensorCourierTid := 0 } }
  else return { t with engineer := e }

def stateAfterSpeed (state : TrainState) (speed : Int) : TrainState :=
  match state with
  | .stopped => if speed > 0 then .accelerating else .stopped
  | .running => if speed = 0 then .decelerating else .running
  | .decelerating => if speed > 0 then .accelerating else .decelerating
  | .accelerating => if speed = 0 then .decelerating else .accelerating
  | state => state

def commandWorkerSpeedSet (t : EngineerTurn Node) (tid : Nat) (speed : Int) : EngineerTurn Node :=
  let e := t.engineer
  { t.send (.reply tid) with
    engineer := { e with
      prevSpeed := e.speed
      speed := toChar speed
      state := stateAfterSpeed e.state (toChar speed) } }

def handleMessage (t : EngineerTurn Node) (tid : Nat) :
    EngineerMessage → Except EngineerFault (EngineerTurn Node)
  | .updateLocation => updateLocation world around t tid
  | .updateSensor sensor time => updateSensor world t tid sensor time
  | .sensorCourierRequest => .ok (sensorCourierRequest t tid)
  | .xMark index offset => xMark world t tid index offset
  | .setSpeed speed => setSpeed t tid speed
  | .setReverse => setReverse t tid
  | .commandWorkerRequest => commandWorkerRequest t tid
  | .commandWorkerReverseSet => commandWorkerReverseSet world t tid
  | .commandWorkerSpeedSet speed => .ok (commandWorkerSpeedSet t tid speed)
  | .go index => go world around t tid index
  | .timeoutSensor | .initializeTrain .. => .error (.assertion .messageType)

/-- One round of the loop of `engineerServer`: a message, its sender, its surroundings and how
the turnouts are set when it arrives. -/
structure EngineerRound (Node : Type) where
  tid : Nat
  message : EngineerMessage
  around : Surroundings Node
  trackBitmap : TrackBitmap

def engineerRound (e : Engineer Node) (round : EngineerRound Node) :
    Except EngineerFault (EngineerTurn Node) :=
  handleMessage world round.around ⟨e, round.trackBitmap, []⟩ round.tid round.message

/-- The engineer after the rounds, or the fault that ends them. -/
def engineerServer (e : Engineer Node) :
    List (EngineerRound Node) → Except EngineerFault (Engineer Node)
  | [] => .ok e
  | round :: rounds => do
    let t ← engineerRound world e round
    engineerServer t.engineer rounds

end TrainKernel.User
