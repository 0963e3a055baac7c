import TrainKernel.User.ReleaseNodes
import TrainKernel.User.Routes
import TrainKernel.User.TrackRequests

/-!
# A train alone on the track

Even a train that is alone can be refused a reservation. A reversal leaves it with the nodes that
it had reserved ahead: they are not given back, since the walk over the nodes to be released begins
with a node that the train does not own. When it comes around to one of them from the other side,
it is in its own way. This can happen only where a step puts the train on another way than the one
that it was on: as long as it goes on along its way and gives back what it passes, it asks for
nothing that it holds in the other direction.
-/

namespace TrainKernel.User

open Library.Int32 Library.Outcome

variable {Node : Type}

section way

variable (track : Track Node)

/-- The node so many steps ahead along the turnouts. -/
def stepsAhead (trackBitmap : TrackBitmap) : Nat → Node → Option Node
  | 0, node => some node
  | i + 1, node =>
    match getNextNode track trackBitmap node with
    | .ok (some next) => stepsAhead trackBitmap i next
    | _ => none

/-- The node so many steps back. A step back from a merge could lead to either side, and is not
taken. -/
def stepsBack : Nat → Node → Option Node
  | 0, node => some node
  | k + 1, node =>
    if track.type node = .exit then none
    else
      match track.type (track.reverse node) with
      | .sensor | .merge => (track.behind node dirAhead).bind (stepsBack k)
      | _ => none

/-- What decides the way of a train: the node that it has passed last, and the turnouts. -/
structure Heading (Node : Type) where
  prevNode : Option Node
  trackBitmap : TrackBitmap
deriving DecidableEq

def EngineerTurn.heading (t : EngineerTurn Node) : Heading Node :=
  ⟨t.engineer.prevNode, t.trackBitmap⟩

namespace Heading

/-- The way begins with the node that the train has passed last. -/
def ahead (w : Heading Node) (i : Nat) : Option Node :=
  w.prevNode.bind (stepsAhead track w.trackBitmap i)

/-- The train is at a node of its own, and this one is at most as far back as it gives back. -/
def RightBehind (owner : Owners Node) (tid : Nat) (w : Heading Node) (n : Node) : Prop :=
  ∃ p, w.prevNode = some p ∧ owner p = tid ∧ ∃ k < maxReleaseSize, stepsBack track k p = some n

/-- Where the way leads over the other side of a node that the train owns, it has led over the node
itself before, or the node is right behind the train. -/
def Clear (owner : Owners Node) (tid : Nat) (w : Heading Node) : Prop :=
  ∀ j n, w.ahead track (j + 1) = some n → owner (track.reverse n) = tid →
    (∃ i ≤ j, w.ahead track i = some (track.reverse n)) ∨
      w.RightBehind track owner tid (track.reverse n)

/-- The train goes on along its way, and what it leaves behind of its own is right behind it. -/
def Continues (owner : Owners Node) (tid : Nat) (w w' : Heading Node) : Prop :=
  ∃ s, (∀ i, w'.ahead track i = w.ahead track (s + i)) ∧
    ∀ n, owner n = tid →
      (∃ i < s, w.ahead track i = some n) ∨ w.RightBehind track owner tid n →
        w'.RightBehind track owner tid n

variable {track} {owner : Owners Node} {tid : Nat} {w w' : Heading Node}

theorem Continues.refl (w : Heading Node) : w.Continues track owner tid w :=
  ⟨0, fun i => by rw [Nat.zero_add], fun _ _ hLeft =>
    hLeft.resolve_left fun ⟨i, hi, _⟩ => Nat.not_lt_zero i hi⟩

/-- A train that has not met a sensor has no way yet. -/
theorem clear_none (trackBitmap : TrackBitmap) :
    (⟨none, trackBitmap⟩ : Heading Node).Clear track owner tid := by
  intro j n hn
  cases hn

theorem Clear.continues (h : w.Clear track owner tid) (hOn : w.Continues track owner tid w') :
    w'.Clear track owner tid := by
  obtain ⟨s, hSame, hLeft⟩ := hOn
  intro j n hn hOwned
  rw [hSame, ← Nat.add_assoc] at hn
  rcases h (s + j) n hn hOwned with ⟨i, hi, hMet⟩ | hBehind
  · rcases Nat.lt_or_ge i s with hPassed | hAhead
    · exact .inr (hLeft _ hOwned (.inl ⟨i, hPassed, hMet⟩))
    · refine .inl ⟨i - s, by omega, ?_⟩
      rw [hSame, Nat.add_sub_cancel' hAhead]
      exact hMet
  · exact .inr (hLeft _ hOwned (.inr hBehind))

end Heading

end way

section requests

variable {track : Track Node} {trackBitmap : TrackBitmap} {tid : Nat} {held l : List Node}
variable {request : TrackServerMessage Node} {w w' : Heading Node}

theorem stepsAhead_succ {node next : Node} (i : Nat)
    (h : getNextNode track trackBitmap node = .ok (some next)) :
    stepsAhead track trackBitmap (i + 1) node = stepsAhead track trackBitmap i next := by
  rw [stepsAhead, h]

theorem deref_eq_ok {α : Type} {name : Pointer} {o : Option α} {a : α}
    (h : deref name o = .ok a) : o = some a := by
  cases o with
  | none => cases h
  | some b => exact congrArg some (Except.ok.inj h)

theorem reserveNodesLoop_ahead (reserveDist dist : Int) (rounds : Nat) (src : Node) :
    Yields (fun l => ∀ i < l.length, l[i]? = stepsAhead track trackBitmap (i + 1) src)
      (reserveNodesLoop track trackBitmap reserveDist rounds dist src) := by
  induction rounds generalizing dist src with
  | zero => exact Yields.error
  | succ rounds ih =>
    refine EndsWell.ite (fun _ => EndsWell.pure (by simp)) fun _ => ?_
    refine Yields.skip fun _ _ => Yields.skip fun _ _ => Yields.skip fun next hNext =>
      Yields.skip fun node hNode => (ih _ node).bind fun rest hRest => EndsWell.pure ?_
    have hAhead : getNextNode track trackBitmap src = .ok (some node) := by
      rw [hNext, deref_eq_ok hNode]
    intro i hi
    rw [stepsAhead_succ i hAhead]
    cases i with
    | zero => rfl
    | succ i =>
      rw [List.getElem?_cons_succ]
      exact hRest i (Nat.lt_of_succ_lt_succ hi)

/-- The nodes that are asked for are those next to come. -/
theorem getReserveNodes_ahead (src : Node) (reserveDist : Int) :
    Yields (fun l => ∀ i < l.length, l[i]? = stepsAhead track trackBitmap i src)
      (getReserveNodes track trackBitmap src reserveDist) := by
  refine (reserveNodesLoop_ahead _ 0 _ src).bind fun rest hRest => EndsWell.pure ?_
  intro i hi
  cases i with
  | zero => rfl
  | succ i =>
    rw [List.getElem?_cons_succ]
    exact hRest i (Nat.lt_of_succ_lt_succ hi)

/-- A step back is one of the search for the nodes to be given back, whoever owns what. -/
theorem stepsBack_succ {owner : Owners Node} {node n : Node} {k : Nat}
    (h : stepsBack track (k + 1) node = some n) : ∃ p,
    Yields (fun o => o = some p) (getPrevOwnedNode track trackBitmap owner node tid) ∧
      stepsBack track k p = some n := by
  rw [stepsBack] at h
  split_ifs at h with hExit
  rw [getPrevOwnedNode, if_neg hExit]
  dsimp only
  have hStep (hNext : getNextNode track trackBitmap (track.reverse node) =
      .ok (track.dest (track.reverse node) dirAhead))
      (hBack : (track.behind node dirAhead).bind (stepsBack track k) = some n) : ∃ p,
      Yields (fun o => o = some p) (do
        let reverseNext ← deref .other (← getNextNode track trackBitmap (track.reverse node))
        return some (track.reverse reverseNext)) ∧ stepsBack track k p = some n := by
    obtain ⟨p, hBehind, hRest⟩ := Option.bind_eq_some_iff.mp hBack
    obtain ⟨m, hDest, rfl⟩ := Option.map_eq_some_iff.mp hBehind
    refine ⟨_, ?_, hRest⟩
    rw [hNext, hDest]
    exact EndsWell.pure rfl
  split at h
  case h_1 hType =>
    rw [hType]
    refine hStep ?_ h
    rw [getNextNode, getNextEdge, hType]
    rfl
  case h_2 hType =>
    rw [hType]
    refine hStep ?_ h
    rw [getNextNode, getNextEdge, hType]
    rfl
  case h_3 => cases h

theorem mem_releaseNodesLoop {owner : Owners Node} {node n : Node} {rounds k : Nat}
    (h : stepsBack track (k + 1) node = some n) (hk : k < rounds) :
    Yields (fun l => n ∈ l) (releaseNodesLoop track trackBitmap owner tid rounds node) := by
  induction rounds generalizing k node with
  | zero => exact absurd hk (Nat.not_lt_zero k)
  | succ rounds ih =>
    obtain ⟨p, hPrev, hSteps⟩ := stepsBack_succ h
    refine hPrev.bind fun o ho => ?_
    subst ho
    cases k with
    | zero =>
      obtain rfl : p = n := Option.some_inj.mp hSteps
      exact Yields.skip fun rest _ => EndsWell.pure List.mem_cons_self
    | succ k =>
      exact (ih hSteps (Nat.lt_of_succ_lt_succ hk)).bind fun rest hRest =>
        EndsWell.pure (List.mem_cons_of_mem p hRest)

/-- What is right behind a node that the train owns is given back. -/
theorem mem_getReleaseNodes {owner : Owners Node} {src n : Node} {k : Nat}
    (hOwned : owner src = tid) (hk : k < maxReleaseSize) (h : stepsBack track k src = some n) :
    Yields (fun l => n ∈ l) (getReleaseNodes track trackBitmap owner src tid) := by
  rw [getReleaseNodes, if_neg (not_not.mpr hOwned)]
  cases k with
  | zero =>
    obtain rfl : src = n := Option.some_inj.mp h
    exact Yields.skip fun rest _ => EndsWell.pure List.mem_cons_self
  | succ k =>
    exact (mem_releaseNodesLoop h (Nat.lt_pred_of_succ_lt hk)).bind fun rest hRest =>
      EndsWell.pure (List.mem_cons_of_mem src hRest)

variable [DecidableEq Node]

/-- A request from the way of a train: it asks for the nodes next to come, and gives back those
right behind the train. -/
structure Heading.Requests (track : Track Node) (tid : Nat) (held : List Node) (w : Heading Node)
    (request : TrackServerMessage Node) : Prop where
  reserve : ∀ i < request.reserveNodes.length,
    request.reserveNodes[i]? = w.ahead track (i + 1)
  release : ∀ n, w.RightBehind track (ownersOf tid held) tid n → n ∈ request.releaseNodes
  oneWay : ∀ n ∈ request.reserveNodes, track.reverse n ∉ request.reserveNodes

namespace Heading.Requests

variable (h : w.Requests track tid held request)
include h

/-- The node `j` steps ahead is asked for if a later one is. -/
theorem mem_of_le {i j : Nat} {n : Node} (hi : i < request.reserveNodes.length) (hj : j ≤ i)
    (hn : w.ahead track (j + 1) = some n) : n ∈ request.reserveNodes := by
  rw [← h.reserve j (by omega)] at hn
  exact List.mem_of_getElem? hn

theorem exists_ahead {n : Node} (hn : n ∈ request.reserveNodes) :
    ∃ i < request.reserveNodes.length, w.ahead track (i + 1) = some n := by
  obtain ⟨i, hi, hGet⟩ := List.getElem_of_mem hn
  refine ⟨i, hi, ?_⟩
  rw [← h.reserve i hi, List.getElem?_eq_getElem hi, hGet]

/-- On a clear way the train asks for nothing that it keeps from the other side. -/
theorem granted (hClear : w.Clear track (ownersOf tid held) tid) :
    ∀ n ∈ request.reserveNodes, track.reverse n ∉ keptAfter held request := by
  intro n hn hKept
  obtain ⟨hHeld, hNot⟩ := List.mem_filter.mp hKept
  obtain ⟨j, hj, hAhead⟩ := h.exists_ahead hn
  have hOwned : ownersOf tid held (track.reverse n) = tid := ownersOf_eq_tid_iff.mpr hHeld
  rcases hClear j n hAhead hOwned with ⟨i, hi, hMet⟩ | hBehind
  · cases i with
    -- the node is the one passed last, and is given back
    | zero =>
      obtain ⟨p, hp, hSame⟩ := Option.bind_eq_some_iff.mp hMet
      obtain rfl : p = track.reverse n := Option.some_inj.mp hSame
      exact of_decide_eq_true hNot (h.release _ ⟨_, hp, hOwned, 0, by decide, rfl⟩)
    -- both sides of the node would be asked for
    | succ i => exact h.oneWay n hn (h.mem_of_le hj (by omega) hMet)
  · exact of_decide_eq_true hNot (h.release _ hBehind)

/-- A granted request leaves the way clear. -/
theorem clear (hClear : w.Clear track (ownersOf tid held) tid) :
    w.Clear track (ownersOf tid (heldAfter held request)) tid := by
  intro j n hn hOwned
  rcases List.mem_append.mp (ownersOf_eq_tid_iff.mp hOwned) with hKept | hNew
  · obtain ⟨hHeld, hNot⟩ := List.mem_filter.mp hKept
    exact .inl ((hClear j n hn (ownersOf_eq_tid_iff.mpr hHeld)).resolve_right
      fun hBehind => of_decide_eq_true hNot (h.release _ hBehind))
  · obtain ⟨i, hi, hAhead⟩ := h.exists_ahead hNew
    refine .inl ⟨i + 1, ?_, hAhead⟩
    by_contra hLate
    exact h.oneWay n (h.mem_of_le hi (by omega) hn) hNew

end Heading.Requests

end requests

/-! ## Runs -/

section runs

variable [DecidableEq Node]

/-- The requests of the turns, up to a fault. -/
def runRequests (world : EngineerWorld Node) :
    Engineer Node → List (EngineerRound Node) → List (TrackServerMessage Node)
  | _, [] => []
  | e, round :: rounds =>
    match engineerRound world e round with
    | .ok t => t.trackRequests ++ runRequests world t.engineer rounds
    | .error _ => []

/-- The engineer is the only client of the track server: it sees the owners that the server has
put down, and the server's answer to what it asks for in the round. -/
def OnlyClient (world : EngineerWorld Node) :
    Owners Node → Engineer Node → List (EngineerRound Node) → Prop
  | _, _, [] => True
  | owner, e, round :: rounds =>
    round.around.owner = owner ∧ match engineerRound world e round with
      | .ok t =>
        (∀ request ∈ t.trackRequests,
          round.around.trackReply = (serveTrack world.track owner world.myTid request).2) ∧
        OnlyClient world (serveTracks world.track owner (t.trackRequests.map (world.myTid, ·)))
          t.engineer rounds
      | .error _ => True

instance instDecidableOnlyClient [DecidableEq (Owners Node)] (world : EngineerWorld Node) :
    ∀ (rounds : List (EngineerRound Node)) (owner : Owners Node) (e : Engineer Node),
      Decidable (OnlyClient world owner e rounds)
  | [], _, _ => isTrue trivial
  | round :: rounds, owner, e =>
    have : Decidable (match engineerRound world e round with
        | .ok t =>
          (∀ request ∈ t.trackRequests,
            round.around.trackReply = (serveTrack world.track owner world.myTid request).2) ∧
          OnlyClient world (serveTracks world.track owner (t.trackRequests.map (world.myTid, ·)))
            t.engineer rounds
        | .error _ => True) :=
      match engineerRound world e round with
      | .ok t =>
        have := instDecidableOnlyClient world rounds
          (serveTracks world.track owner (t.trackRequests.map (world.myTid, ·))) t.engineer
        instDecidableAnd
      | .error _ => isTrue trivial
    instDecidableAnd

/-- Every round in which the train asks for something ends in success. -/
def NeverRefused (world : EngineerWorld Node) : Engineer Node → List (EngineerRound Node) → Prop :=
  EveryRound world fun e round =>
    runRequests world e [round] ≠ [] → round.around.trackReply = .success

def Track.ReservesOneWay (track : Track Node) : Prop :=
  ∀ trackBitmap src reserveDist l, getReserveNodes track trackBitmap src reserveDist = .ok l →
    ∀ n ∈ l, track.reverse n ∉ l

/-- A relation between the way at the end of one turn and the next turn holds all along a run. -/
def EveryTurn (world : EngineerWorld Node)
    (P : Heading Node → Engineer Node → EngineerRound Node → EngineerTurn Node → Prop) :
    Heading Node → Engineer Node → List (EngineerRound Node) → Prop
  | _, _, [] => True
  | w, e, round :: rounds =>
    match engineerRound world e round with
    | .ok t => P w e round t ∧ EveryTurn world P t.heading t.engineer rounds
    | .error _ => True

/-- In the turn the train goes on along its way `w`, or it is put on another way that is clear of
what it owns. No turnout is thrown on which it stands. -/
structure OnItsWay (world : EngineerWorld Node) (w : Heading Node) (e : Engineer Node)
    (round : EngineerRound Node) (t : EngineerTurn Node) : Prop where
  way : w.Continues world.track round.around.owner world.myTid t.heading ∨
    t.heading.Clear world.track round.around.owner world.myTid
  turnout : ∀ n, e.prevNode = some n →
    getNextNode world.track round.trackBitmap n = getNextNode world.track t.trackBitmap n

instance instDecidableEveryTurn (world : EngineerWorld Node)
    (P : Heading Node → Engineer Node → EngineerRound Node → EngineerTurn Node → Prop)
    [∀ w e round t, Decidable (P w e round t)] :
    ∀ (rounds : List (EngineerRound Node)) (w : Heading Node) (e : Engineer Node),
      Decidable (EveryTurn world P w e rounds)
  | [], _, _ => isTrue trivial
  | round :: rounds, w, e =>
    match h : engineerRound world e round with
    | .ok t =>
      have := instDecidableEveryTurn world P rounds t.heading t.engineer
      decidable_of_iff (P w e round t ∧ EveryTurn world P t.heading t.engineer rounds)
        (by rw [EveryTurn, h])
    | .error _ => isTrue (by rw [EveryTurn, h]; trivial)

theorem EveryTurn.mono {world : EngineerWorld Node} {w : Heading Node} {e : Engineer Node}
    {P Q : Heading Node → Engineer Node → EngineerRound Node → EngineerTurn Node → Prop}
    {rounds : List (EngineerRound Node)} (h : EveryTurn world P w e rounds)
    (hPQ : ∀ w e round t, P w e round t → Q w e round t) : EveryTurn world Q w e rounds := by
  induction rounds generalizing w e with
  | nil => trivial
  | cons round rounds ih =>
    rw [EveryTurn] at h ⊢
    cases hTurn : engineerRound world e round with
    | error fault => trivial
    | ok t =>
      rw [hTurn] at h
      exact ⟨hPQ w e round t h.1, ih h.2⟩

def KeepsItsWay (world : EngineerWorld Node) :
    Heading Node → Engineer Node → List (EngineerRound Node) → Prop :=
  EveryTurn world (OnItsWay world)

variable {world : EngineerWorld Node} {w : Heading Node} {e : Engineer Node}
variable {round : EngineerRound Node} {rounds : List (EngineerRound Node)}
variable {t : EngineerTurn Node} {held : List Node}

/-- What a turn on its way asks for is asked for from the way. -/
theorem OnItsWay.requests (hOneWay : world.track.ReservesOneWay)
    (hTurn : engineerRound world e round = .ok t) (h : OnItsWay world w e round t)
    (hOwner : round.around.owner = ownersOf world.myTid held) :
    t.trackRequests = [] ∨ ∃ request, t.trackRequests = [request] ∧
      t.heading.Requests world.track world.myTid held request := by
  rcases (engineerRound_asksOnce world e round).of_ok hTurn with
    hNothing | ⟨request, p, next, hSent, hPrev, hNext, ⟨reserveDist, hReserve⟩, hRelease⟩
  · exact .inl hNothing
  · have hAhead : getNextNode world.track t.trackBitmap p = .ok (some next) := by
      rcases hNext with hNow | ⟨hStart, hBefore⟩
      · exact hNow
      · exact (h.turnout p hStart).symm.trans hBefore
    refine .inr ⟨request, hSent, ?_, ?_, hOneWay _ _ _ _ hReserve⟩
    · intro i hi
      rw [(getReserveNodes_ahead next reserveDist).of_ok hReserve i hi,
        ← stepsAhead_succ i hAhead, Heading.ahead, EngineerTurn.heading, hPrev, Option.bind_some]
    · rintro n ⟨p', hp', hOwned, k, hk, hBack⟩
      obtain rfl : p = p' := Option.some_inj.mp (hPrev.symm.trans hp')
      rw [hOwner] at hRelease
      exact (mem_getReleaseNodes hOwned hk hBack).of_ok hRelease

theorem KeepsItsWay.neverRefused (hOneWay : world.track.ReservesOneWay)
    (hAlone : OnlyClient world (ownersOf world.myTid held) e rounds)
    (hClear : w.Clear world.track (ownersOf world.myTid held) world.myTid)
    (hWay : KeepsItsWay world w e rounds) : NeverRefused world e rounds := by
  induction rounds generalizing w e held with
  | nil => trivial
  | cons round rounds ih =>
    rw [OnlyClient] at hAlone
    rw [KeepsItsWay, EveryTurn] at hWay
    rw [NeverRefused, EveryRound, runRequests]
    cases hTurn : engineerRound world e round with
    | error fault => exact ⟨absurd rfl, trivial⟩
    | ok t =>
      rw [hTurn] at hAlone hWay
      obtain ⟨hOwner, hReply, hAlone⟩ := hAlone
      obtain ⟨hStep, hWay⟩ := hWay
      change (t.trackRequests ++ [] ≠ [] → round.around.trackReply = .success) ∧
        NeverRefused world t.engineer rounds
      rw [List.append_nil]
      have hNow : t.heading.Clear world.track (ownersOf world.myTid held) world.myTid := by
        rcases hStep.way with hOn | hClear'
        · exact hClear.continues (hOwner ▸ hOn)
        · exact hOwner ▸ hClear'
      rcases hStep.requests hOneWay hTurn hOwner with hNone | ⟨request, hOne, hRequest⟩
      · rw [hNone] at hAlone ⊢
        exact ⟨absurd rfl, ih hAlone hNow hWay⟩
      · have hServed := serveTrack_ownersOf world.myTid held hRequest.oneWay
          (hRequest.granted hNow)
        rw [hOne] at hReply hAlone
        change OnlyClient world (serveTrack world.track _ world.myTid request).1 _ _ at hAlone
        rw [hServed] at hAlone
        refine ⟨fun _ => ?_, ih hAlone (hRequest.clear hNow) hWay⟩
        rw [hReply request (List.mem_singleton_self request), hServed]

/-- A lone train is never refused as long as every turn keeps it on its way, or puts it on one that
is clear of what it owns. -/
theorem lone_train_never_refused (world : EngineerWorld Node)
    (hOneWay : world.track.ReservesOneWay) (trainNumber creationTime : Int)
    (locationWorkerTid : Nat) (cmdBuf : Nat → Command) (outstandingClaim : SensorClaim)
    (locationMessage : LocationMessage Node) (ebook : Ebook Node)
    (rounds : List (EngineerRound Node))
    (hAlone : OnlyClient world (Owners.free Node) (Engineer.start trainNumber creationTime
      locationWorkerTid cmdBuf outstandingClaim locationMessage ebook) rounds)
    (hWay : KeepsItsWay world ⟨none, 0⟩ (Engineer.start trainNumber creationTime
      locationWorkerTid cmdBuf outstandingClaim locationMessage ebook) rounds) :
    NeverRefused world (Engineer.start trainNumber creationTime locationWorkerTid cmdBuf
      outstandingClaim locationMessage ebook) rounds := by
  have hFree : Owners.free Node = ownersOf world.myTid [] := by
    funext n
    simp [ownersOf, claimed]
  rw [hFree] at hAlone
  exact KeepsItsWay.neverRefused hOneWay hAlone (Heading.clear_none 0) hWay

end runs

/-! ## A train in its own way -/

theorem circle_wellFormed : circle.WellFormed where
  idx_injective := by decide
  reverse_involutive := show ∀ n, circle.reverse (circle.reverse n) = n by decide
  reverse_ne := by decide
  dest_isSome := by decide
  dest_ne := by decide
  dist_nonneg _ _ := (by decide : (0 : Int) ≤ 100)
  card_le := by decide

/-- No list of nodes to be reserved runs both ways where every edge stays on its side of the track
and the reverse of a node is on the other one. -/
theorem reservesOneWay_of_side {track : Track Node} (side : Node → Bool)
    (hDest : ∀ n d m, track.dest n d = some m → side m = side n)
    (hReverse : ∀ n, side (track.reverse n) = !side n) : track.ReservesOneWay := by
  have hAhead (trackBitmap : TrackBitmap) (i : Nat) (src n : Node)
      (hn : stepsAhead track trackBitmap i src = some n) : side n = side src := by
    induction i generalizing src with
    | zero => rw [Option.some_inj.mp hn]
    | succ i ih =>
      rw [stepsAhead] at hn
      split at hn
      case h_1 next hNext =>
        obtain ⟨edge, -, hEdge⟩ := exists_of_bind_eq_ok hNext
        cases edge with
        | none => cases hEdge
        | some d => rw [ih next hn, hDest src d next (Except.ok.inj hEdge)]
      case h_2 => cases hn
  intro trackBitmap src reserveDist l hReserve n hn hOther
  have hSide (m : Node) (hm : m ∈ l) : side m = side src := by
    obtain ⟨i, hi, hGet⟩ := List.getElem_of_mem hm
    apply hAhead trackBitmap i src m
    rw [← (getReserveNodes_ahead src reserveDist).of_ok hReserve i hi, List.getElem?_eq_getElem hi,
      hGet]
  have hFlip := hSide _ hOther
  rw [hReverse, hSide n hn] at hFlip
  exact Bool.not_ne_self _ hFlip

theorem circle_reservesOneWay : circle.ReservesOneWay :=
  reservesOneWay_of_side Prod.snd (by decide) (by decide)

theorem stepsAhead_add (track : Track Node) (trackBitmap : TrackBitmap) (i j : Nat) (node : Node) :
    stepsAhead track trackBitmap (i + j) node =
      (stepsAhead track trackBitmap i node).bind (stepsAhead track trackBitmap j) := by
  induction i generalizing node with
  | zero => rw [Nat.zero_add]; rfl
  | succ i ih =>
    rw [Nat.add_right_comm, stepsAhead, stepsAhead]
    split
    · exact ih _
    · rfl

theorem Heading.ahead_add (track : Track Node) (w : Heading Node) (i j : Nat) :
    w.ahead track (i + j) = (w.ahead track i).bind (stepsAhead track w.trackBitmap j) := by
  rw [Heading.ahead, Heading.ahead, Option.bind_assoc]
  simp only [stepsAhead_add]

/-- No turnout is thrown, and the way is the same, or goes on from the next node, or it ends after
so many steps and leads over the other side of nothing that the train owns. -/
def StaysClear (world : EngineerWorld Node) (steps : Nat) (w : Heading Node)
    (_ : Engineer Node) (round : EngineerRound Node) (t : EngineerTurn Node) : Prop :=
  t.trackBitmap = round.trackBitmap ∧
    (t.heading = w ∨
      t.trackBitmap = w.trackBitmap ∧ t.heading.prevNode = w.ahead world.track 1 ∧
        (∀ n ∈ w.prevNode, round.around.owner n ≠ world.myTid) ∨
      t.heading.ahead world.track steps = none ∧ ∀ j < steps,
        ∀ n ∈ t.heading.ahead world.track (j + 1),
          round.around.owner (world.track.reverse n) ≠ world.myTid)

instance [DecidableEq Node] (world : EngineerWorld Node) (steps : Nat) (w : Heading Node)
    (e : Engineer Node) (round : EngineerRound Node) (t : EngineerTurn Node) :
    Decidable (StaysClear world steps w e round t) :=
  inferInstanceAs (Decidable (_ ∧ _))

theorem StaysClear.onItsWay {world : EngineerWorld Node} {steps : Nat} {w : Heading Node}
    {e : Engineer Node} {round : EngineerRound Node} {t : EngineerTurn Node}
    (h : StaysClear world steps w e round t) : OnItsWay world w e round t := by
  obtain ⟨hSame, hWay⟩ := h
  refine ⟨?_, fun n _ => by rw [hSame]⟩
  rcases hWay with hEq | ⟨hBitmap, hNext, hBehind⟩ | ⟨hEnd, hFree⟩
  · rw [hEq]
    exact .inl (.refl w)
  · refine .inl ⟨1, fun i => ?_, ?_⟩
    · rw [Heading.ahead_add, ← hNext, Heading.ahead, EngineerTurn.heading, hBitmap]
    · rintro n hOwned (⟨i, hi, hn⟩ | ⟨p, hp, hOwned', -⟩)
      · obtain rfl : i = 0 := by omega
        obtain ⟨p, hp, hEq⟩ := Option.bind_eq_some_iff.mp hn
        obtain rfl : p = n := Option.some_inj.mp hEq
        exact (hBehind p hp hOwned).elim
      · exact (hBehind p hp hOwned').elim
  · refine .inr fun j n hn hOwned => ?_
    rcases Nat.lt_or_ge (j + 1) steps with hj | hj
    · exact (hFree j (by omega) n hn hOwned).elim
    · obtain ⟨k, hk⟩ := Nat.exists_eq_add_of_le hj
      rw [hk, Heading.ahead_add, hEnd] at hn
      cases hn

/-- Sensors in a row, 300 millimetres apart, with a dead end on either side. The nodes with `true`
lead to the right. -/
def line : Track (Fin 6 × Bool) where
  idx n := 2 * n.1.val + n.2.toNat
  type n :=
    if n = (5, true) ∨ n = (0, false) then .exit
    else if n = (0, true) ∨ n = (5, false) then .enter
    else .sensor
  num _ := 0
  reverse n := (n.1, !n.2)
  dest n d := if d = dirAhead then some (if n.2 then n.1 + 1 else n.1 - 1, n.2) else none
  dist _ _ := 300

theorem line_reservesOneWay : line.ReservesOneWay :=
  reservesOneWay_of_side Prod.snd (by decide) (by decide)

def lineWorld : EngineerWorld (Fin 6 × Bool) :=
  ⟨line, fun i => (Fin.ofNat 6 (i.toNat / 2), decide (i % 2 = 1)), 5⟩

def lineEngineer : Engineer (Fin 6 × Bool) :=
  Engineer.start 66 0 7 (fun _ => ⟨.setSpeed, 0, 0⟩) ⟨0, 0⟩ ⟨.init, 0, 0, 0, 0, none, none, none⟩
    ⟨fun _ => ⟨0, 0, ⟨none, 0⟩, fun _ => 0, fun _ => none⟩, 0⟩

def lineRound (held : List (Fin 6 × Bool)) (tid : Nat) (message : EngineerMessage)
    (currentTime : Int) : EngineerRound (Fin 6 × Bool) where
  tid := tid
  message := message
  around :=
    { currentTime := currentTime
      owner := ownersOf 5 held
      trackReply := .success
      gNodes := fun _ => ⟨none, none, 0, 0, false⟩
      pb := ⟨0, 0, fun _ => none, fun _ => false⟩ }
  trackBitmap := 0

/-- The nodes on the right of the train, and those on its left. -/
def toTheRight (n : Fin 6) : List (Fin 6 × Bool) :=
  (List.finRange 6).filterMap fun i => if n ≤ i then some (i, true) else none

def toTheLeft (n : Fin 6) : List (Fin 6 × Bool) :=
  (List.finRange 6).filterMap fun i => if i ≤ n then some (i, false) else none

/-- The train meets two sensors, is reversed and meets the second one again from the other side, and
is reversed once more. It reserves all that lies ahead, and keeps it when it is reversed. -/
def backAndForth : List (EngineerRound (Fin 6 × Bool)) :=
  [lineRound [] 9 .commandWorkerRequest 10,
    lineRound [] 3 (.setSpeed 14) 20,
    lineRound [] 9 (.commandWorkerSpeedSet 14) 30,
    lineRound [] 9 .commandWorkerRequest 30,
    lineRound [] 8 (.updateSensor 3 100) 100,
    lineRound [] 6 .sensorCourierRequest 105,
    lineRound [] 7 .updateLocation 110,
    lineRound [] 7 .updateLocation 120,
    lineRound (toTheRight 2) 8 (.updateSensor 5 150) 150,
    lineRound (toTheRight 2) 6 .sensorCourierRequest 155,
    lineRound (toTheRight 2) 7 .updateLocation 155,
    lineRound (toTheRight 2) 7 .updateLocation 160,
    lineRound (toTheRight 3) 3 .setReverse 170,
    lineRound (toTheRight 3) 9 (.commandWorkerSpeedSet 0) 171,
    lineRound (toTheRight 3) 9 .commandWorkerReverseSet 471,
    lineRound (toTheRight 3) 9 (.commandWorkerSpeedSet 14) 486,
    lineRound (toTheRight 3) 9 .commandWorkerRequest 486,
    lineRound (toTheRight 3) 7 .updateLocation 490,
    lineRound (toTheRight 3) 7 .updateLocation 495,
    lineRound (toTheRight 3 ++ toTheLeft 2) 8 (.updateSensor 4 500) 500,
    lineRound (toTheRight 3 ++ toTheLeft 2) 6 .sensorCourierRequest 505,
    lineRound (toTheRight 3 ++ toTheLeft 2) 7 .updateLocation 505,
    lineRound (toTheRight 3 ++ toTheLeft 2) 7 .updateLocation 510,
    lineRound (toTheRight 3 ++ toTheLeft 1) 3 .setReverse 515,
    lineRound (toTheRight 3 ++ toTheLeft 1) 9 (.commandWorkerSpeedSet 0) 516,
    lineRound (toTheRight 3 ++ toTheLeft 1) 9 .commandWorkerReverseSet 816,
    lineRound (toTheRight 3 ++ toTheLeft 1) 9 (.commandWorkerSpeedSet 14) 831,
    lineRound (toTheRight 3 ++ toTheLeft 1) 7 .updateLocation 835,
    lineRound (toTheRight 3 ++ toTheLeft 1) 7 .updateLocation 840]

theorem lone_train_back_and_forth :
    followsWorker lineWorld (commandWorker 9) lineEngineer backAndForth = true ∧
    (runRequests lineWorld lineEngineer backAndForth).length = 5 ∧
    NeverRefused lineWorld lineEngineer backAndForth :=
  ⟨by decide +kernel, by decide +kernel,
    lone_train_never_refused lineWorld line_reservesOneWay 66 0 7 _ _ _ _ backAndForth
      (by decide +kernel)
      (EveryTurn.mono (P := StaysClear lineWorld 6) (by decide +kernel)
        fun _ _ _ _ => StaysClear.onItsWay)⟩

/-- A round on the circle when task 5 holds these nodes. -/
def circleRoundHeld (held : List (Bool × Bool)) (tid : Nat) (message : EngineerMessage)
    (currentTime : Int) : EngineerRound (Bool × Bool) :=
  let round := circleRound tid message currentTime
  { round with around := { round.around with owner := ownersOf 5 held } }

/-- The train reserves the sensor ahead, and is reversed before it gets there. -/
def reversedAhead : List (EngineerRound (Bool × Bool)) :=
  [circleRoundHeld [] 9 .commandWorkerRequest 10,
    circleRoundHeld [] 3 (.setSpeed 4) 20,
    circleRoundHeld [] 9 (.commandWorkerSpeedSet 4) 30,
    circleRoundHeld [] 9 .commandWorkerRequest 30,
    circleRoundHeld [] 8 (.updateSensor 0 100) 100,
    circleRoundHeld [] 6 .sensorCourierRequest 105,
    circleRoundHeld [] 7 .updateLocation 110,
    circleRoundHeld [] 7 .updateLocation 130,
    circleRoundHeld [(true, false)] 3 .setReverse 140,
    circleRoundHeld [(true, false)] 9 (.commandWorkerSpeedSet 0) 141,
    circleRoundHeld [(true, false)] 9 .commandWorkerReverseSet 441,
    circleRoundHeld [(true, false)] 9 (.commandWorkerSpeedSet 4) 456,
    circleRoundHeld [(true, false)] 7 .updateLocation 460,
    circleRoundHeld [(true, false)] 7 .updateLocation 470]

/-- It goes on the other way around, and comes to the sensor from behind. -/
def inItsOwnWay : List (EngineerRound (Bool × Bool)) :=
  let last := circleRoundHeld [(true, false), (false, true)] 7 .updateLocation 515
  reversedAhead ++
    [circleRoundHeld [(true, false), (false, true)] 8 (.updateSensor 2 500) 500,
      circleRoundHeld [(true, false), (false, true)] 7 .updateLocation 505,
      { last with around := { last.around with trackReply := .reserveFailOppositeDir } }]

theorem lone_train_refused : circle.WellFormed ∧ circle.ReservesOneWay ∧
    followsWorker circleWorld (commandWorker 9) circleEngineer inItsOwnWay = true ∧
    OnlyClient circleWorld (Owners.free (Bool × Bool)) circleEngineer inItsOwnWay ∧
    ¬NeverRefused circleWorld circleEngineer inItsOwnWay := by
  refine ⟨circle_wellFormed, circle_reservesOneWay, by decide +kernel, by decide +kernel, ?_⟩
  rw [NeverRefused]
  decide +kernel

end TrainKernel.User
