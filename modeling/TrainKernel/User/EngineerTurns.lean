import TrainKernel.User.EngineerDriving

/-!
# What an engineer does in a turn

An engineer tells the sensor courier which sensors to claim, it issues commands for the command
worker, and it executes the enstructions of its book. Every message touches only a part of this.
-/

namespace TrainKernel.User

open Library.Outcome

variable {Node : Type}

def EngineerOutput.command? : EngineerOutput Node → Option Command
  | .command _ handed => some handed
  | _ => none

def EngineerOutput.claim? : EngineerOutput Node → Option SensorClaim
  | .claim _ handed => some handed
  | _ => none

/-- What concerns the command worker; `handed` are the commands of the turn so far. -/
structure Orders where
  commandWorkerTid : Nat
  commandQueue : CommandQueue
  handed : List Command

def EngineerTurn.orders (t : EngineerTurn Node) : Orders :=
  ⟨t.engineer.commandWorkerTid, t.engineer.commandQueue, t.sent.filterMap EngineerOutput.command?⟩

/-- What concerns the sensor courier. -/
structure Claims (Node : Type) where
  sensorCourierTid : Nat
  hasOutstandingClaim : Bool
  outstandingClaim : SensorClaim
  prevSensor : Option Node
  creationTime : Int
  handed : List SensorClaim

def EngineerTurn.claims (t : EngineerTurn Node) : Claims Node where
  sensorCourierTid := t.engineer.sensorCourierTid
  hasOutstandingClaim := t.engineer.hasOutstandingClaim
  outstandingClaim := t.engineer.outstandingClaim
  prevSensor := t.engineer.prevSensor
  creationTime := t.engineer.creationTime
  handed := t.sent.filterMap EngineerOutput.claim?

namespace Orders

def issue (o : Orders) (command : Command) : Orders :=
  if o.commandWorkerTid > 0 then
    { o with commandWorkerTid := 0, handed := o.handed ++ [command] }
  else { o with commandQueue := (enqueueCommand o.commandQueue command).1 }

/-- The command can be issued without a loss. -/
def HasRoom (o : Orders) (command : Command) : Prop :=
  o.commandWorkerTid > 0 ∨ (enqueueCommand o.commandQueue command).2 = true

def request (o : Orders) (tid : Nat) : Orders :=
  match dequeueCommand o.commandQueue with
  | none => { o with commandWorkerTid := tid }
  | some (command, commandQueue) =>
    { o with commandQueue := commandQueue, handed := o.handed ++ [command] }

end Orders

/-- The turn issues the commands, and does nothing to the claims or to the book. -/
structure Does (t t' : EngineerTurn Node) (commands : List Command) : Prop where
  claims : t'.claims = t.claims
  ebook : t'.engineer.ebook = t.engineer.ebook
  trainNumber : t'.engineer.trainNumber = t.engineer.trainNumber
  orders : t'.orders = commands.foldl Orders.issue t.orders

variable {t t' t'' : EngineerTurn Node} {commands commands' : List Command}

theorem Does.refl (t : EngineerTurn Node) : Does t t [] := ⟨rfl, rfl, rfl, rfl⟩

theorem Does.of_eq (hClaims : t'.claims = t.claims) (hBook : t'.engineer.ebook = t.engineer.ebook)
    (hTrain : t'.engineer.trainNumber = t.engineer.trainNumber) (hOrders : t'.orders = t.orders) :
    Does t t' [] := ⟨hClaims, hBook, hTrain, hOrders⟩

theorem Does.trans (h : Does t t' commands) (h' : Does t' t'' commands') :
    Does t t'' (commands ++ commands') where
  claims := h'.claims.trans h.claims
  ebook := h'.ebook.trans h.ebook
  trainNumber := h'.trainNumber.trans h.trainNumber
  orders := by rw [List.foldl_append, ← h.orders, h'.orders]

theorem Does.after (h : Does t' t'' commands) (hBefore : Does t t' []) : Does t t'' commands :=
  hBefore.trans h

theorem orders_send {output : EngineerOutput Node} (hCommand : output.command? = none) :
    (t.send output).orders = t.orders := by
  simp [EngineerTurn.orders, EngineerTurn.send, hCommand]

theorem claims_send {output : EngineerOutput Node} (hClaim : output.claim? = none) :
    (t.send output).claims = t.claims := by
  simp [EngineerTurn.claims, EngineerTurn.send, hClaim]

theorem Does.send {output : EngineerOutput Node} (hCommand : output.command? = none)
    (hClaim : output.claim? = none) : Does t (t.send output) [] :=
  ⟨claims_send hClaim, rfl, rfl, orders_send hCommand⟩

theorem hasRoom_of_kept {command : Command} (hKept : (issueCommand t command).2 = true) :
    t.orders.HasRoom command := by
  rw [issueCommand] at hKept
  split_ifs at hKept with hWaits
  · exact Or.inl hWaits
  · exact Or.inr hKept

theorem issueCommand_does (t : EngineerTurn Node) (command : Command) :
    Does t (issueCommand t command).1 [command] := by
  rw [issueCommand]
  split_ifs with hWaits
  · constructor
    · exact claims_send rfl
    · rfl
    · rfl
    · simp [EngineerTurn.orders, EngineerTurn.send, Orders.issue, hWaits,
        EngineerOutput.command?]
  · constructor
    · rfl
    · rfl
    · rfl
    · simp [EngineerTurn.orders, Orders.issue, hWaits]

def stopCommand (e : Engineer Node) : Command := ⟨.setSpeed, toChar 0, toChar e.trainNumber⟩

def reverseCommand (e : Engineer Node) : Command :=
  ⟨.reverse, toChar e.speed, toChar e.trainNumber⟩

theorem issueSpeedCommand_does (t : EngineerTurn Node) :
    Does t (issueSpeedCommand t 0) [stopCommand t.engineer] := issueCommand_does ..

theorem issueChecked_does (t : EngineerTurn Node) (type : CommandType) (speed : Int) :
    Yields (fun t' => Does t t' [⟨type, toChar speed, toChar t.engineer.trainNumber⟩] ∧
      t.orders.HasRoom ⟨type, toChar speed, toChar t.engineer.trainNumber⟩)
      (issueChecked t type speed) := by
  have hDoes := issueCommand_does t ⟨type, toChar speed, toChar t.engineer.trainNumber⟩
  rw [issueChecked]
  exact EndsWell.ite (fun hKept => EndsWell.ok ⟨hDoes, hasRoom_of_kept hKept⟩) fun _ => Yields.error

section enstructions

variable {world : EngineerWorld Node} {around : Surroundings Node}

theorem does_frame : TurnFrame fun t t' : EngineerTurn Node => Does t t' [] where
  refl := .refl
  trans h h' := h.trans h'
  switch _ _ _ _ := (Does.send rfl rfl).trans (.of_eq rfl rfl rfl rfl)
  target _ _ _ _ := .of_eq rfl rfl rfl rfl

theorem setTargetFromEnstruction_does (ent : Enstruction Node) :
    Yields (fun t' => Does t t' []) (setTargetFromEnstruction world t ent) :=
  setTargetFromEnstruction_frame does_frame (fun _ => False.elim) ent

theorem nextEnstruction_does : Yields (fun r => Does t r.2 []) (nextEnstruction t) :=
  nextEnstruction_frame does_frame fun _ => False.elim

def targetCommands (e : Engineer Node) : List Command :=
  stopCommand e :: if e.eat < e.ebook.length then [reverseCommand e] else []

theorem issueSpeedCommand_eat (t : EngineerTurn Node) (speed : Int) :
    (issueSpeedCommand t speed).engineer.eat = t.engineer.eat := by
  rw [issueSpeedCommand, issueCommand]
  split_ifs <;> rfl

theorem reachTarget_does :
    Yields (fun t' => Does t t' (targetCommands t.engineer)) (reachTarget world t) := by
  have hStop : Does t (clearTarget (issueSpeedCommand t 0)) [stopCommand t.engineer] :=
    (issueSpeedCommand_does t).trans (.of_eq rfl rfl rfl rfl)
  have hMore_iff : (clearTarget (issueSpeedCommand t 0)).engineer.eat
      < (clearTarget (issueSpeedCommand t 0)).engineer.ebook.length ↔
      t.engineer.eat < t.engineer.ebook.length := by
    rw [hStop.ebook, ← issueSpeedCommand_eat t 0]
    rfl
  rw [targetCommands, reachTarget]
  refine EndsWell.ite (fun hMore => ?_) fun hMore => ?_
  · rw [if_pos (hMore_iff.mp hMore)]
    apply nextEnstruction_does.bind
    intro r hNext
    apply (setTargetFromEnstruction_does r.1).bind
    intro t' hTarget
    have hBefore := hStop.trans (hNext.trans hTarget)
    apply (issueChecked_does t' .reverse t.engineer.speed).mono
    intro t'' hReverse
    have hDoes := hBefore.trans hReverse.1
    rw [hBefore.trainNumber] at hDoes
    exact hDoes
  · rw [if_neg (mt hMore_iff.mpr hMore)]
    exact EndsWell.pure hStop

theorem checkTarget_does [DecidableEq Node] {stops : Bool}
    (hStops : stopsAtTarget world t.trackBitmap t.engineer = .ok stops) :
    Yields (fun t' => Does t t' (if stops then targetCommands t.engineer else []) ∧
      t'.engineer.state = t.engineer.state) (checkTarget world t) := by
  have hState : Yields (fun t' => t'.engineer.drive = t.engineer.drive) (checkTarget world t) :=
    checkTarget_keeps.weaken fun _ => False.elim
  rw [checkTarget_eq, hStops] at hState ⊢
  cases stops with
  | false => exact EndsWell.pure ⟨.refl t, rfl⟩
  | true =>
    exact hState.and_eq.mono fun t' hDrive =>
      ⟨reachTarget_does.of_ok hDrive.2, congrArg Drive.state hDrive.1⟩

def refusalCommands (around : Surroundings Node) (e : Engineer Node) : List Command :=
  if around.trackReply ≠ .success then [stopCommand e] else []

theorem requestTrack_does (nextNode prevNode : Node) :
    Yields (fun t' => Does t t' (refusalCommands around t.engineer))
      (requestTrack world around t nextNode prevNode) := by
  refine Yields.skip fun _ _ => Yields.skip fun _ _ => Yields.skip fun _ _ => ?_
  rw [refusalCommands]
  refine EndsWell.ite (fun hRefused => ?_) fun hSuccess => ?_
  · rw [if_pos hRefused]
    exact EndsWell.pure ((Does.send rfl rfl).trans (issueSpeedCommand_does _))
  · rw [if_neg hSuccess]
    exact EndsWell.pure (Does.send rfl rfl)

/-- Only a train that is being reversed does not ask the track server. -/
def Located.Asks (world : EngineerWorld Node) (l : Located Node) : Prop :=
  l.distToNextNode ≤ 0 ∧ world.track.type l.nextNode ≠ .sensor ∨ l.engineer.state ≠ .reversing

instance : DecidablePred (Located.Asks world) := fun _ => inferInstanceAs (Decidable (_ ∨ _))

theorem sendLocation_does (tid : Nat) (message : LocationMessage Node) :
    Does t (sendLocation t tid message) [] :=
  (Does.send rfl rfl).trans (.of_eq rfl rfl rfl rfl)

theorem updatePosition_does {tid : Nat} {l : Located Node}
    (hState : t.engineer.state = l.engineer.state) :
    Yields (fun t' => Does t t' (if l.Asks world then refusalCommands around t.engineer else []))
      (updatePosition world around t tid l.prevNode l.nextNode l.distToNextNode) := by
  refine EndsWell.ite (fun hLandmark => ?_) fun hLandmark => EndsWell.ite (fun hReversing => ?_)
    fun hReversing => ?_
  · have hAsks : l.Asks world := Or.inl hLandmark
    rw [if_pos hAsks]
    refine Yields.skip fun _ _ => Yields.skip fun _ _ => Yields.skip fun _ _ =>
      Yields.skip fun _ _ => (requestTrack_does _ _).mono fun t' hDoes => ?_
    exact hDoes.after ((sendLocation_does tid _).after (.of_eq rfl rfl rfl rfl))
  · have hSilent : ¬l.Asks world := by
      rintro (hAsks | hAsks)
      · exact hLandmark hAsks
      · exact hAsks (hState.symm.trans hReversing)
    rw [if_neg hSilent]
    refine Yields.skip fun _ _ => Yields.skip fun _ _ => EndsWell.pure ?_
    exact (sendLocation_does tid _).trans (.of_eq rfl rfl rfl rfl)
  · have hAsks : l.Asks world := Or.inr fun h => hReversing (hState.trans h)
    rw [if_pos hAsks]
    exact (requestTrack_does _ _).mono fun t' hDoes => (sendLocation_does tid _).trans hDoes

/-- Of the engineer, only what describes its motion is changed. -/
def Engineer.moved (e : Engineer Node) (state : TrainState)
    (velocity distSoFar deceleration time : Int) : Engineer Node :=
  { e with
    state := state
    velocity := velocity
    distSoFar := distSoFar
    deceleration := deceleration
    lastLocationUpdateTime := time }

theorem updateDistance_moves (e : Engineer Node) (nextSensor : Node) :
    Yields (fun e' => e' = e.moved e'.state e'.velocity e'.distSoFar e'.deceleration
      e.lastLocationUpdateTime) (updateDistance world around e nextSensor) := by
  refine EndsWell.ite (fun _ => ?_) fun _ => EndsWell.ite (fun _ => ?_) fun _ => EndsWell.pure rfl
  · refine Yields.skip fun _ _ => ?_
    exact EndsWell.ite (fun _ => EndsWell.pure rfl) fun _ => EndsWell.pure rfl
  · exact Yields.skip fun _ _ => Yields.skip fun _ _ => EndsWell.pure rfl

theorem locate_moves (trackBitmap : TrackBitmap) (e : Engineer Node) :
    Yields (fun l => ∃ state velocity distSoFar deceleration,
      l.engineer = e.moved state velocity distSoFar deceleration around.currentTime)
      (locate world around trackBitmap e) := by
  refine Yields.skip fun _ _ => Yields.skip fun _ _ => Yields.skip fun nextSensor _ =>
    Yields.skip fun _ _ => Yields.skip fun _ _ => Yields.skip fun _ _ => Yields.skip fun _ _ =>
    (updateDistance_moves e nextSensor).bind fun e' hMoves => EndsWell.pure ?_
  refine ⟨e'.state, e'.velocity, e'.distSoFar, e'.deceleration, ?_⟩
  dsimp only
  rw [hMoves]
  rfl

variable [DecidableEq Node]

def locationCommands (world : EngineerWorld Node) (around : Surroundings Node)
    (trackBitmap : TrackBitmap) (e : Engineer Node) : Except EngineerFault (List Command) := do
  let l ← locate world around trackBitmap e
  let stops ← stopsAtTarget world trackBitmap l.engineer
  let atTarget := if stops then targetCommands l.engineer else []
  return atTarget ++ if l.Asks world then refusalCommands around l.engineer else []

/-- An engineer that waits for its first sensor, or has just hit one, computes nothing. -/
def updateCommands (world : EngineerWorld Node) (around : Surroundings Node)
    (trackBitmap : TrackBitmap) (e : Engineer Node) : List Command :=
  if e.state = .ready ∨ e.triggeredSensor then []
  else (locationCommands world around trackBitmap e).toOption.getD []

/-- The commands of a message: of the parser, of a target that is reached, and of a reservation
that is refused. -/
def issuedCommands (world : EngineerWorld Node) (e : Engineer Node) (round : EngineerRound Node) :
    List Command :=
  match round.message with
  | .setSpeed speed => [⟨.setSpeed, toChar speed, toChar e.trainNumber⟩]
  | .setReverse => [reverseCommand e]
  | .updateLocation => updateCommands world round.around round.trackBitmap e
  | _ => []

theorem updateLocation_located (tid : Nat) (hReady : t.engineer.state ≠ .ready)
    (hTriggered : t.engineer.triggeredSensor = false) :
    Yields (fun t' => ∃ commands, locationCommands world around t.trackBitmap t.engineer
      = .ok commands ∧ Does t t' commands) (updateLocation world around t tid) := by
  rw [updateLocation_eq world around t tid hReady hTriggered]
  apply (locate_moves t.trackBitmap t.engineer).and_eq.bind
  intro l hLocate
  obtain ⟨⟨state, velocity, distSoFar, deceleration, hMoved⟩, hLocate⟩ := hLocate
  have hLocated : Does t { t with engineer := l.engineer } [] := by
    rw [hMoved]
    exact .of_eq rfl rfl rfl rfl
  cases hStops : stopsAtTarget world t.trackBitmap l.engineer with
  | error fault =>
    rw [checkTarget_eq, hStops]
    exact Yields.error
  | ok stops =>
    refine (checkTarget_does (t := { t with engineer := l.engineer }) hStops).bind
      fun t' hChecked => ?_
    obtain ⟨hChecked, hState⟩ := hChecked
    apply (updatePosition_does hState).mono
    intro t'' hPosition
    refine ⟨_, ?_, (hLocated.trans hChecked).trans hPosition⟩
    have hRefusal : refusalCommands around t'.engineer = refusalCommands around l.engineer := by
      rw [refusalCommands, refusalCommands, stopCommand, stopCommand, hChecked.trainNumber]
    rw [locationCommands, hLocate, hRefusal]
    change (stopsAtTarget world t.trackBitmap l.engineer >>= _) = _
    rw [hStops]
    rfl

theorem updateLocation_does (tid : Nat) :
    Yields (fun t' => Does t t' (updateCommands world around t.trackBitmap t.engineer))
      (updateLocation world around t tid) := by
  rw [updateCommands]
  by_cases hReady : t.engineer.state = .ready
  · rw [if_pos (Or.inl hReady), updateLocation]
    simp only [hReady, if_true]
    exact EndsWell.pure (.refl t)
  by_cases hTriggered : t.engineer.triggeredSensor
  · rw [if_pos (Or.inr hTriggered), updateLocation]
    simp only [hReady, hTriggered, if_true, if_false]
    exact EndsWell.pure ((Does.send rfl rfl).trans (.of_eq rfl rfl rfl rfl))
  · rw [if_neg (not_or.mpr ⟨hReady, hTriggered⟩)]
    refine (updateLocation_located tid hReady (Bool.eq_false_iff.mpr hTriggered)).mono
      fun t' hLocated => ?_
    obtain ⟨commands, hCommands, hDoes⟩ := hLocated
    rw [hCommands]
    exact hDoes

omit [DecidableEq Node] in
theorem xMark_does (tid : Nat) (index offset : Int) :
    Yields (fun t' => Does t t' []) (xMark world t tid index offset) :=
  Yields.skip fun _ _ => EndsWell.pure ((Does.send rfl rfl).trans (.of_eq rfl rfl rfl rfl))

omit [DecidableEq Node] in
theorem setSpeed_does (tid : Nat) (speed : Int) :
    Yields (fun t' => Does t t' [⟨.setSpeed, toChar speed, toChar t.engineer.trainNumber⟩] ∧
      t.orders.HasRoom ⟨.setSpeed, toChar speed, toChar t.engineer.trainNumber⟩)
      (setSpeed t tid speed) := by
  refine Yields.skip fun _ _ => (issueChecked_does _ _ _).mono fun t' hIssued => ?_
  rw [orders_send rfl] at hIssued
  exact ⟨hIssued.1.after (.send rfl rfl), hIssued.2⟩

omit [DecidableEq Node] in
theorem setReverse_does (tid : Nat) :
    Yields (fun t' => Does t t' [reverseCommand t.engineer] ∧
      t.orders.HasRoom (reverseCommand t.engineer)) (setReverse t tid) := by
  refine Yields.skip fun _ _ => (issueChecked_does _ _ _).mono fun t' hIssued => ?_
  rw [orders_send rfl] at hIssued
  exact ⟨hIssued.1.after (.send rfl rfl), hIssued.2⟩

omit [DecidableEq Node] in
theorem commandWorkerSpeedSet_does (tid : Nat) (speed : Int) :
    Does t (commandWorkerSpeedSet t tid speed) [] :=
  (Does.send rfl rfl).trans (.of_eq rfl rfl rfl rfl)

theorem go_keeps_claims (tid : Nat) (index : Int) :
    Yields (fun t' => t'.claims = t.claims ∧ t'.orders = t.orders)
      (go world around t tid index) := by
  have hFrame : TurnFrame fun t t' : EngineerTurn Node =>
      t'.claims = t.claims ∧ t'.orders = t.orders := by
    constructor
    · exact fun _ => ⟨rfl, rfl⟩
    · exact fun h h' => ⟨h'.1.trans h.1, h'.2.trans h.2⟩
    · intro t turnoutNumber direction trackBitmap
      have hDoes := does_frame.switch t turnoutNumber direction trackBitmap
      exact ⟨hDoes.claims, hDoes.orders⟩
    · exact fun _ _ _ _ => ⟨rfl, rfl⟩
  refine go_frame hFrame (fun _ => False.elim) (fun t tid => ?_) (fun _ _ _ => ⟨rfl, rfl⟩) ?_ tid
    index
  · exact ⟨claims_send rfl, orders_send rfl⟩
  · exact Yields.of_eq fun _ _ => trivial

omit [DecidableEq Node] in
theorem commandWorkerRequest_orders (tid : Nat) :
    Yields (fun t' => t'.claims = t.claims ∧ t'.engineer.ebook = t.engineer.ebook ∧
      t'.orders = t.orders.request tid) (commandWorkerRequest t tid) := by
  refine Yields.skip fun _ _ => EndsWell.ite (fun hEmpty => EndsWell.pure ?_) fun _ => ?_
  · have hHead : t.engineer.commandQueue.head = t.engineer.commandQueue.tail :=
      of_decide_eq_true hEmpty
    refine ⟨rfl, rfl, ?_⟩
    simp [EngineerTurn.orders, Orders.request, dequeueCommand, RingBuffer.dequeue, hHead]
  · cases hNext : dequeueCommand t.engineer.commandQueue with
    | none => exact Yields.error
    | some next =>
      refine EndsWell.pure ⟨claims_send rfl, rfl, ?_⟩
      simp [EngineerTurn.orders, EngineerTurn.send, Orders.request, hNext,
        EngineerOutput.command?]

/-- The turn does nothing to the commands or to the book. -/
structure KeepsOrders (t t' : EngineerTurn Node) : Prop where
  orders : t'.orders = t.orders
  ebook : t'.engineer.ebook = t.engineer.ebook

omit [DecidableEq Node] in
theorem KeepsOrders.trans (h : KeepsOrders t t') (h' : KeepsOrders t' t'') : KeepsOrders t t'' :=
  ⟨h'.orders.trans h.orders, h'.ebook.trans h.ebook⟩

omit [DecidableEq Node] in
theorem KeepsOrders.send {output : EngineerOutput Node} (hCommand : output.command? = none) :
    KeepsOrders t (t.send output) :=
  ⟨orders_send hCommand, rfl⟩

end enstructions

end TrainKernel.User
