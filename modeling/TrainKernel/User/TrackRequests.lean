import TrainKernel.User.EngineerRuns
import TrainKernel.User.Reservations

/-!
# What an engineer asks the track server for

In one turn an engineer makes at most one request: it asks for nodes ahead of the one that the train
has passed last, and gives back what lies behind. With an engineer as its only client the server
knows no other owner.
-/

namespace TrainKernel.User

open Library.Outcome

variable {Node : Type}

section server

variable {track : Track Node} {tid : Nat} {message : TrackServerMessage Node} {held l : List Node}

variable [DecidableEq Node]

def keptAfter (held : List Node) (message : TrackServerMessage Node) : List Node :=
  held.filter (· ∉ message.releaseNodes)

/-- The nodes that a train has reserved and not given back, if it was never refused. -/
def heldAfter (held : List Node) (message : TrackServerMessage Node) : List Node :=
  keptAfter held message ++ message.reserveNodes

/-- Who owns what when only one train has reserved anything. -/
def ownersOf (tid : Nat) (held : List Node) : Owners Node := claimed (Owners.free Node) tid held

theorem released_ownersOf (tid : Nat) (held : List Node) (message : TrackServerMessage Node) :
    released (ownersOf tid held) message = ownersOf tid (keptAfter held message) := by
  funext n
  by_cases hReleased : n ∈ message.releaseNodes
  · simp [released, ownersOf, claimed, keptAfter, hReleased, Owners.free]
  · simp [released, ownersOf, claimed, keptAfter, hReleased]

theorem claimed_ownersOf (tid : Nat) (held l : List Node) :
    claimed (ownersOf tid held) tid l = ownersOf tid (held ++ l) := by
  funext n
  by_cases hClaimed : n ∈ l
  · simp [claimed, ownersOf, hClaimed]
  · simp [claimed, ownersOf, hClaimed]

theorem ownersOf_eq_free_iff {n : Node} : ownersOf tid held n = -1 ↔ n ∉ held := by
  rw [ownersOf, claimed]
  constructor
  · intro hFree hHeld
    rw [if_pos hHeld] at hFree
    omega
  · intro hHeld
    exact if_neg hHeld

theorem ownersOf_eq_tid_iff {n : Node} : ownersOf tid held n = tid ↔ n ∈ held := by
  rw [ownersOf, claimed]
  constructor
  · intro hOwned
    by_contra hFree
    rw [if_neg hFree, Owners.free] at hOwned
    omega
  · exact fun hHeld => if_pos hHeld

theorem allGrantable_ownersOf (hOneWay : ∀ n ∈ l, track.reverse n ∉ l)
    (hClear : ∀ n ∈ l, track.reverse n ∉ held) :
    AllGrantable track (ownersOf tid held) tid l := by
  rintro before n after rfl
  have hn : n ∈ before ++ n :: after := List.mem_append_right before List.mem_cons_self
  constructor
  · rw [ownersOf, claimed]
    split_ifs
    · exact Or.inr rfl
    · exact Or.inl rfl
  · exact ownersOf_eq_free_iff.mpr (hClear n hn)
  · exact fun hGot => hOneWay n hn (List.mem_append_left _ hGot)

/-- A request of a lone train is granted if the train keeps the reverse of none of the nodes. -/
theorem serveTrack_ownersOf (tid : Nat) (held : List Node)
    (hOneWay : ∀ n ∈ message.reserveNodes, track.reverse n ∉ message.reserveNodes)
    (hClear : ∀ n ∈ message.reserveNodes, track.reverse n ∉ keptAfter held message) :
    serveTrack track (ownersOf tid held) tid message =
      (ownersOf tid (heldAfter held message), .success) := by
  have hServed := serveTrack_claimed track (ownersOf tid held) tid message
  rw [released_ownersOf, claimed_ownersOf] at hServed
  have hAll : AllGrantable track (ownersOf tid (keptAfter held message)) tid message.reserveNodes :=
    allGrantable_ownersOf hOneWay hClear
  rcases hServed with ⟨-, hGranted⟩ | ⟨before, n, after, hSplit, -, hNot, -, -⟩
  · exact hGranted
  · exact (hNot (hAll before n after hSplit)).elim

end server

def EngineerOutput.trackRequest? : EngineerOutput Node → Option (TrackServerMessage Node)
  | .trackRequest message => some message
  | _ => none

def EngineerTurn.trackRequests (t : EngineerTurn Node) : List (TrackServerMessage Node) :=
  t.sent.filterMap EngineerOutput.trackRequest?

def AsksNothing (t t' : EngineerTurn Node) : Prop := t'.trackRequests = t.trackRequests

/-- Nothing is asked for, and the train has passed no further node. -/
def KeepsPlace (t t' : EngineerTurn Node) : Prop :=
  AsksNothing t t' ∧ t'.engineer.prevNode = t.engineer.prevNode

variable {world : EngineerWorld Node} {around : Surroundings Node} {owner : Owners Node}
variable {t t' t'' : EngineerTurn Node}

namespace AsksNothing

theorem refl (t : EngineerTurn Node) : AsksNothing t t := rfl

theorem trans (h : AsksNothing t t') (h' : AsksNothing t' t'') : AsksNothing t t'' := Eq.trans h' h

theorem send {output : EngineerOutput Node} (hOutput : output.trackRequest? = none) :
    AsksNothing t (t.send output) := by
  simp [AsksNothing, EngineerTurn.trackRequests, EngineerTurn.send, hOutput]

theorem of_sent (hSent : t'.sent = t.sent) : AsksNothing t t' :=
  congrArg (List.filterMap EngineerOutput.trackRequest?) hSent

end AsksNothing

theorem issueCommand_keepsPlace (t : EngineerTurn Node) (command : Command) :
    KeepsPlace t (issueCommand t command).1 := by
  rw [issueCommand]
  split_ifs
  · exact ⟨(AsksNothing.send rfl).trans (.of_sent rfl), rfl⟩
  · exact ⟨.of_sent rfl, rfl⟩

theorem issueCommand_trackBitmap (t : EngineerTurn Node) (command : Command) :
    (issueCommand t command).1.trackBitmap = t.trackBitmap := by
  rw [issueCommand]
  split_ifs
  · rfl
  · rfl

theorem keepsPlace_frame : CommandFrame (@KeepsPlace Node) where
  refl t := ⟨.refl t, rfl⟩
  trans h h' := ⟨h.1.trans h'.1, h'.2.trans h.2⟩
  switch _ _ _ _ := ⟨(AsksNothing.send rfl).trans (.of_sent rfl), rfl⟩
  target _ _ _ _ := ⟨.of_sent rfl, rfl⟩
  issue := issueCommand_keepsPlace

theorem issueChecked_asksNothing (type : CommandType) (speed : Int) :
    Yields (AsksNothing t) (issueChecked t type speed) :=
  (issueChecked_frame keepsPlace_frame (fun _ => False.elim) type speed).mono fun _ => And.left

theorem checkTarget_keepsPlace [DecidableEq Node] :
    Yields (KeepsPlace t) (checkTarget world t) :=
  checkTarget_frame keepsPlace_frame (fun _ => False.elim) (Yields.of_eq fun _ _ => trivial)

/-- The request of a turn in which the train has passed `prevNode` last: what lies from `nextNode`
on is asked for, and what lies behind is given back. -/
structure Asks (world : EngineerWorld Node) (owner : Owners Node) (t t' : EngineerTurn Node)
    (request : TrackServerMessage Node) (prevNode nextNode : Node) : Prop where
  sent : t'.trackRequests = t.trackRequests ++ [request]
  position : t'.engineer.prevNode = some prevNode
  turnouts : t'.trackBitmap = t.trackBitmap
  reserve : ∃ reserveDist, getReserveNodes world.track t.trackBitmap nextNode reserveDist
    = .ok request.reserveNodes
  release : getReleaseNodes world.track t.trackBitmap owner prevNode world.myTid
    = .ok request.releaseNodes

variable {request : TrackServerMessage Node} {prevNode nextNode : Node}

theorem Asks.after (h : Asks world owner t' t'' request prevNode nextNode)
    (hNothing : AsksNothing t t') (hBitmap : t'.trackBitmap = t.trackBitmap) :
    Asks world owner t t'' request prevNode nextNode where
  sent := h.sent.trans (congrArg (· ++ [request]) hNothing)
  position := h.position
  turnouts := h.turnouts.trans hBitmap
  reserve := hBitmap ▸ h.reserve
  release := hBitmap ▸ h.release

theorem requestTrack_asks (nextNode : Node) (hPrev : t.engineer.prevNode = some prevNode) :
    Yields (fun t' => ∃ request, Asks world around.owner t t' request prevNode nextNode)
      (requestTrack world around t nextNode prevNode) := by
  refine Yields.skip fun reserveDist _ => Yields.skip fun reserveNodes hReserve =>
    Yields.skip fun releaseNodes hRelease => ?_
  have hAsks : Asks world around.owner t (t.send (.trackRequest ⟨reserveNodes, releaseNodes⟩))
      ⟨reserveNodes, releaseNodes⟩ prevNode nextNode := by
    refine ⟨?_, hPrev, rfl, ⟨reserveDist, hReserve⟩, hRelease⟩
    simp [EngineerTurn.trackRequests, EngineerTurn.send, EngineerOutput.trackRequest?]
  refine EndsWell.ite (fun _ => EndsWell.pure ⟨⟨reserveNodes, releaseNodes⟩, ?_⟩) fun _ =>
    EndsWell.pure ⟨_, hAsks⟩
  -- the refused engineer also issues a stop command
  obtain ⟨hNothing, hSame⟩ := issueCommand_keepsPlace
    (t.send (.trackRequest ⟨reserveNodes, releaseNodes⟩)) (stopCommand t.engineer)
  exact ⟨Eq.trans hNothing hAsks.sent, hSame.trans hPrev, issueCommand_trackBitmap ..,
    hAsks.reserve, hAsks.release⟩

theorem sendLocation_keepsPlace (tid : Nat) (message : LocationMessage Node) :
    KeepsPlace t (sendLocation t tid message) :=
  ⟨(AsksNothing.send rfl).trans (.of_sent rfl), rfl⟩

/-- What the position update after a location has been worked out asks for: of the two nodes that it
works with, the second one is ahead of the first, or they are those that it was given. -/
def UpdateAsks (world : EngineerWorld Node) (owner : Owners Node) (prevNode nextNode : Node)
    (t t' : EngineerTurn Node) : Prop :=
  AsksNothing t t' ∨ ∃ request prevNode' nextNode',
    Asks world owner t t' request prevNode' nextNode' ∧
      (getNextNode world.track t.trackBitmap prevNode' = .ok (some nextNode') ∨
        prevNode' = prevNode ∧ nextNode' = nextNode)

theorem updatePosition_asks (tid : Nat) (nextNode : Node) (distToNextNode : Int)
    (hPrev : t.engineer.prevNode = some prevNode) :
    Yields (UpdateAsks world around.owner prevNode nextNode t)
      (updatePosition world around t tid prevNode nextNode distToNextNode) := by
  refine EndsWell.ite (fun _ => ?_) fun _ => EndsWell.ite (fun _ => ?_) fun _ => ?_
  -- a landmark is reached
  · refine Yields.skip fun next hNext => Yields.skip fun node hNode => Yields.skip fun _ _ =>
      Yields.skip fun _ _ => (requestTrack_asks node rfl).mono fun t' hAsks => ?_
    obtain ⟨request, hAsks⟩ := hAsks
    refine .inr ⟨request, nextNode, node, hAsks.after ?_ rfl, .inl ?_⟩
    · exact (AsksNothing.of_sent rfl).trans (sendLocation_keepsPlace tid _).1
    · rw [hNext, known_eq_ok hNode]
  -- the train has been reversed
  · refine Yields.skip fun _ _ => Yields.skip fun _ _ => EndsWell.pure (.inl ?_)
    exact (sendLocation_keepsPlace tid _).1.trans (.of_sent rfl)
  · refine (requestTrack_asks nextNode ?_).mono fun t' hAsks => ?_
    · exact hPrev
    · obtain ⟨request, hAsks⟩ := hAsks
      exact .inr ⟨request, prevNode, nextNode,
        hAsks.after (sendLocation_keepsPlace tid _).1 rfl, .inr ⟨rfl, rfl⟩⟩

theorem locate_ahead (trackBitmap : TrackBitmap) (e : Engineer Node) :
    Yields (fun l => e.prevNode = some l.prevNode ∧
      getNextNode world.track trackBitmap l.prevNode = .ok (some l.nextNode))
      (locate world around trackBitmap e) := by
  rw [locate]
  refine Yields.skip fun _ hPrev => Yields.skip fun _ _ => Yields.skip fun _ _ =>
    Yields.skip fun _ hNext => Yields.skip fun _ hNode => Yields.skip fun _ _ =>
    Yields.skip fun _ _ => Yields.skip fun _ _ => EndsWell.pure ⟨known_eq_ok hPrev, ?_⟩
  rw [hNext, known_eq_ok hNode]

variable [DecidableEq Node]

/-- One request at most. The second node that it works with is ahead of the first as the turnouts
are set at the end of the turn, or the train stays where it was and it was so at the beginning. -/
def AsksOnce (world : EngineerWorld Node) (owner : Owners Node) (t t' : EngineerTurn Node) : Prop :=
  AsksNothing t t' ∨ ∃ request prevNode nextNode, t'.trackRequests = t.trackRequests ++ [request] ∧
    t'.engineer.prevNode = some prevNode ∧
    (getNextNode world.track t'.trackBitmap prevNode = .ok (some nextNode) ∨
      t.engineer.prevNode = some prevNode ∧
        getNextNode world.track t.trackBitmap prevNode = .ok (some nextNode)) ∧
    (∃ reserveDist, getReserveNodes world.track t'.trackBitmap nextNode reserveDist
      = .ok request.reserveNodes) ∧
    getReleaseNodes world.track t'.trackBitmap owner prevNode world.myTid
      = .ok request.releaseNodes

theorem updateLocation_asksOnce (tid : Nat) :
    Yields (AsksOnce world around.owner t) (updateLocation world around t tid) := by
  rcases eq_or_ne t.engineer.state .ready with hReady | hReady
  · rw [updateLocation]
    simp only [hReady, if_true]
    exact EndsWell.pure (.inl (.refl t))
  cases hTriggered : t.engineer.triggeredSensor with
  | true =>
    rw [updateLocation]
    simp only [hReady, hTriggered, if_true, if_false]
    exact EndsWell.pure (.inl ((AsksNothing.send rfl).trans (.of_sent rfl)))
  | false =>
    rw [updateLocation_eq world around t tid hReady hTriggered]
    refine ((locate_ahead t.trackBitmap t.engineer).and
      (locate_moves t.trackBitmap t.engineer)).bind fun l hLocated => ?_
    obtain ⟨⟨hPrev, hNext⟩, state, velocity, distSoFar, deceleration, hMoved⟩ := hLocated
    refine checkTarget_keepsPlace.bind fun t₁ hChecked => ?_
    have hSame : t₁.engineer.prevNode = some l.prevNode := by
      rw [hChecked.2, hMoved]
      exact hPrev
    refine (updatePosition_asks tid l.nextNode l.distToNextNode hSame).mono fun t₂ hUpdate => ?_
    have hNothing : AsksNothing t t₁ := (AsksNothing.of_sent rfl).trans hChecked.1
    rcases hUpdate with hQuiet | ⟨request, prevNode, nextNode, hAsks, hWay⟩
    · exact .inl (hNothing.trans hQuiet)
    · obtain ⟨hSent, hPosition, hBitmap, hReserve, hRelease⟩ := hAsks
      rw [← hBitmap] at hReserve hRelease hWay
      refine .inr ⟨request, prevNode, nextNode, hSent.trans (congrArg (· ++ [request]) hNothing),
        hPosition, hWay.imp_right ?_, hReserve, hRelease⟩
      rintro ⟨rfl, rfl⟩
      exact ⟨hPrev, hNext⟩

omit [DecidableEq Node] in
theorem passSensor_asksNothing (t : EngineerTurn Node) : AsksNothing t (passSensor t) := by
  rw [passSensor]
  dsimp only
  split
  · exact (sendLocation_keepsPlace _ _).1.trans (.of_sent rfl)
  · split
    · exact .of_sent rfl
    · exact .refl t

omit [DecidableEq Node] in
theorem claimNext_asksNothing : Yields (AsksNothing t) (claimNext world t) := by
  refine EndsWell.ite (fun _ => ?_) fun _ => ?_
  · exact Yields.skip fun _ _ => EndsWell.pure ((AsksNothing.send rfl).trans (.of_sent rfl))
  · exact Yields.skip fun _ _ => Yields.skip fun _ _ => EndsWell.pure (.of_sent rfl)

omit [DecidableEq Node] in
theorem claimNext_passSensor (e : Engineer Node) :
    Yields (AsksNothing t) (claimNext world (passSensor { t with engineer := e })) :=
  claimNext_asksNothing.mono fun _ hClaimed => (AsksNothing.of_sent rfl).trans
    ((passSensor_asksNothing { t with engineer := e }).trans hClaimed)

theorem updateSensor_asksNothing (tid : Nat) (sensor time : Int) :
    Yields (AsksNothing t) (updateSensor world t tid sensor time) := by
  have hReply : AsksNothing t (t.send (.reply tid)) := .send rfl
  refine Yields.skip fun _ _ => EndsWell.ite (fun _ => EndsWell.pure hReply) fun _ =>
    Yields.skip fun _ _ => Yields.skip fun _ _ => Yields.skip fun _ _ => Yields.skip fun _ _ =>
    Yields.skip fun _ _ => Yields.skip fun _ _ => Yields.skip fun _ _ => Yields.skip fun _ _ =>
    (claimNext_passSensor (t := t.send (.reply tid)) _).mono fun t' hClaimed => ?_
  exact hReply.trans hClaimed

theorem go_asksNothing (tid : Nat) (index : Int) :
    Yields (AsksNothing t) (go world around t tid index) :=
  (go_frame keepsPlace_frame.toTurnFrame (fun _ => False.elim) (fun _ _ => ⟨.send rfl, rfl⟩)
    (fun _ _ _ => ⟨.of_sent rfl, rfl⟩) (Yields.of_eq fun _ _ => trivial) tid index).mono
    fun _ => And.left

omit [DecidableEq Node] in
theorem commandWorkerRequest_asksNothing (tid : Nat) :
    Yields (AsksNothing t) (commandWorkerRequest t tid) :=
  Yields.skip fun _ _ => EndsWell.ite (fun _ => EndsWell.pure (.of_sent rfl)) fun _ =>
    Yields.skip fun _ _ => EndsWell.pure ((AsksNothing.send rfl).trans (.of_sent rfl))

omit [DecidableEq Node] in
theorem commandWorkerReverseSet_asksNothing (tid : Nat) :
    Yields (AsksNothing t) (commandWorkerReverseSet world t tid) := by
  have hReply : AsksNothing t (t.send (.reply tid)) := .send rfl
  refine Yields.skip fun _ _ => Yields.skip fun _ _ => Yields.skip fun _ _ =>
    Yields.skip fun _ _ => Yields.skip fun _ _ => ?_
  refine EndsWell.ite (fun _ => Yields.skip fun claim _ => EndsWell.pure ?_) fun _ =>
    EndsWell.ite (fun _ => Yields.skip fun claim _ => EndsWell.pure ?_) fun _ => EndsWell.pure ?_
  · exact hReply.trans (.of_sent rfl)
  · exact hReply.trans ((AsksNothing.send rfl).trans (.of_sent rfl))
  · exact hReply.trans (.of_sent rfl)

omit [DecidableEq Node] in
theorem sensorCourierRequest_asksNothing (tid : Nat) :
    AsksNothing t (sensorCourierRequest t tid) := by
  rw [sensorCourierRequest]
  split_ifs
  · exact (AsksNothing.send rfl).trans (.of_sent rfl)
  · exact .of_sent rfl

variable (world) in
theorem engineerRound_asksOnce (e : Engineer Node) (round : EngineerRound Node) :
    Yields (AsksOnce world round.around.owner (round.turn e)) (engineerRound world e round) := by
  rw [engineerRound]
  cases round.message with
  | updateLocation => exact updateLocation_asksOnce round.tid
  | updateSensor sensor time =>
    exact (updateSensor_asksNothing round.tid sensor time).mono fun _ => Or.inl
  | sensorCourierRequest => exact EndsWell.ok (Or.inl (sensorCourierRequest_asksNothing round.tid))
  | xMark index offset =>
    exact Yields.skip fun _ _ =>
      EndsWell.pure (Or.inl ((AsksNothing.send rfl).trans (.of_sent rfl)))
  | setSpeed speed =>
    exact Yields.skip fun _ _ => (issueChecked_asksNothing _ _).mono fun _ hIssued =>
      Or.inl ((AsksNothing.send rfl).trans hIssued)
  | setReverse =>
    exact Yields.skip fun _ _ => (issueChecked_asksNothing _ _).mono fun _ hIssued =>
      Or.inl ((AsksNothing.send rfl).trans hIssued)
  | commandWorkerRequest =>
    exact (commandWorkerRequest_asksNothing round.tid).mono fun _ => Or.inl
  | commandWorkerReverseSet =>
    exact (commandWorkerReverseSet_asksNothing round.tid).mono fun _ => Or.inl
  | commandWorkerSpeedSet speed =>
    exact EndsWell.ok (Or.inl ((AsksNothing.send rfl).trans (.of_sent rfl)))
  | go index => exact (go_asksNothing round.tid index).mono fun _ => Or.inl
  | timeoutSensor => exact Yields.error
  | initializeTrain trainNumber sensorIndex => exact Yields.error

end TrainKernel.User
