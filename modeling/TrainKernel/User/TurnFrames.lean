import TrainKernel.User.TrackFaults

/-!
# What a turn leaves alone

Executing an enstruction throws turnouts and sets the target, and what a location update does when
it reaches the target is this and two commands. Whatever does not depend on them stays as it is:
this is shown once, for a relation between turns.
-/

namespace TrainKernel.User

open Library.Int32 Library.Outcome

variable {Node : Type} {world : EngineerWorld Node} {around : Surroundings Node}
variable {t : EngineerTurn Node} {R : EngineerTurn Node → EngineerTurn Node → Prop}
variable {bad : EngineerFault → Prop}

def clearTarget (t : EngineerTurn Node) : EngineerTurn Node :=
  { t with engineer := { t.engineer with targetNode := none, targetOffset := 0 } }

/-- What a location update knows before it looks at the target. -/
structure Located (Node : Type) where
  engineer : Engineer Node
  prevNode : Node
  nextNode : Node
  distToNextNode : Int

section located

variable (world around)

def locate (trackBitmap : TrackBitmap) (e : Engineer Node) :
    Except EngineerFault (Located Node) := do
  let prevNode ← known .known e.prevNode
  let _ ← known .known e.prevSensor
  let nextSensor ← known .known e.nextSensor
  let nextNode ← known .nextKnown (← getNextNode world.track trackBitmap prevNode)
  let nextEdge ← known .nextKnown (← getNextEdge world.track trackBitmap prevNode)
  let e ← updateDistance world around e nextSensor
  return {
    engineer := { e with lastLocationUpdateTime := around.currentTime }
    prevNode := prevNode
    nextNode := nextNode
    distToNextNode := wrap32 (world.track.dist prevNode nextEdge * 1000 - e.distSoFar) }

variable [DecidableEq Node]

def stopsAtTarget (trackBitmap : TrackBitmap) (e : Engineer Node) : Except EngineerFault Bool := do
  if e.targetNode = none then return false
  let pickUp := if e.isForward then 0 else pickUpOffset
  let dist := wrap32 ((← distanceBetween world.track trackBitmap e.prevNode e.targetNode)
    - pickUp - e.targetOffset - e.distSoFar)
  let stoppingDist ← e.stoppingDist e.speed
  return dist ≥ 0 ∧ stoppingDist > 0 ∧ dist ≤ stoppingDist

/-- The train is stopped, and if there is another enstruction it is reversed as well. -/
def reachTarget (t : EngineerTurn Node) : Except EngineerFault (EngineerTurn Node) := do
  let e := t.engineer
  let t := clearTarget (issueSpeedCommand t 0)
  if t.engineer.eat < t.engineer.ebook.length then
    let (ent, t) ← nextEnstruction t
    let t ← setTargetFromEnstruction world t ent
    issueChecked t .reverse e.speed
  else return t

theorem checkTarget_eq (t : EngineerTurn Node) :
    checkTarget world t = stopsAtTarget world t.trackBitmap t.engineer >>= fun stops =>
      if stops then reachTarget world t else pure t := by
  rw [checkTarget, stopsAtTarget]
  by_cases hTarget : t.engineer.targetNode = none
  · simp only [hTarget, if_true]
    rfl
  · simp only [hTarget, if_false, bind_assoc, pure_bind]
    simp only [decide_eq_true_eq]
    rfl

theorem updateLocation_eq (t : EngineerTurn Node) (tid : Nat) (hReady : t.engineer.state ≠ .ready)
    (hTriggered : t.engineer.triggeredSensor = false) :
    updateLocation world around t tid =
      locate world around t.trackBitmap t.engineer >>= fun located =>
      checkTarget world { t with engineer := located.engineer } >>= fun t =>
      updatePosition world around t tid located.prevNode located.nextNode
        located.distToNextNode := by
  rw [updateLocation, locate]
  simp only [hReady, hTriggered, if_false, Bool.false_eq_true, bind_assoc, pure_bind]

end located

/-- The relation sees neither the turnouts and the switches nor the target and the place in the
book. -/
structure TurnFrame (R : EngineerTurn Node → EngineerTurn Node → Prop) : Prop where
  refl : ∀ t, R t t
  trans : ∀ {t t' t''}, R t t' → R t' t'' → R t t''
  switch : ∀ t turnoutNumber direction trackBitmap,
    R t { t.send (.switch turnoutNumber direction) with trackBitmap := trackBitmap }
  target : ∀ t targetNode targetOffset eat, R t { t with engineer := { t.engineer with
    targetNode := targetNode, targetOffset := targetOffset, eat := eat } }

/-- It does not see either that a command is handed over or put into the queue. -/
structure CommandFrame (R : EngineerTurn Node → EngineerTurn Node → Prop) : Prop
    extends TurnFrame R where
  issue : ∀ t command, R t (issueCommand t command).1

namespace TurnFrame

theorem of_view {β : Type} (view : EngineerTurn Node → β)
    (hSwitch : ∀ t turnoutNumber direction trackBitmap,
      view { t.send (.switch turnoutNumber direction) with trackBitmap := trackBitmap } = view t)
    (hTarget : ∀ t targetNode targetOffset eat, view { t with engineer := { t.engineer with
      targetNode := targetNode, targetOffset := targetOffset, eat := eat } } = view t) :
    TurnFrame fun t t' => view t' = view t where
  refl _ := rfl
  trans h h' := h'.trans h
  switch := hSwitch
  target := hTarget

end TurnFrame

section frame

variable (h : TurnFrame R) (hBad : ∀ fault, bad fault → fault.OfState)
include h hBad

theorem throwTurnout_frame (turnop : Int) : EndsWell bad (R t) (throwTurnout world t turnop) := by
  refine EndsWell.ite (fun _ => ?_) fun _ => EndsWell.pure (h.refl t)
  apply ((clean_known .turnout not_false _).weaken hBad).bind
  intro trackBitmap _
  exact EndsWell.pure (h.switch t _ _ trackBitmap)

theorem throwTurnouts_frame (ent : Enstruction Node) (rounds i : Nat) :
    EndsWell bad (R t) (throwTurnouts world ent rounds i t) := by
  induction rounds generalizing i t with
  | zero => exact EndsWell.ok (h.refl t)
  | succ rounds ih =>
    refine EndsWell.ite (fun _ => EndsWell.error (mt (hBad _) not_false)) fun _ => ?_
    apply ((clean_deref _).weaken hBad).bind
    intro _ _
    apply (throwTurnout_frame h hBad (ent.turnops i)).bind
    intro t' hThrown
    exact (ih (i + 1)).mono fun t'' hRest => h.trans hThrown hRest

theorem setTargetFromEnstruction_frame (ent : Enstruction Node) :
    EndsWell bad (R t) (setTargetFromEnstruction world t ent) := by
  apply (throwTurnouts_frame h hBad ent _ 0).bind
  intro t' hThrown
  refine ((clean_deref _).weaken hBad).bind fun destination _ => EndsWell.pure ?_
  exact h.trans hThrown (h.target t' (some destination) 0 t'.engineer.eat)

theorem nextEnstruction_frame : EndsWell bad (fun r => R t r.2) (nextEnstruction t) :=
  EndsWell.ite (fun _ => EndsWell.ok (h.target t _ _ _)) fun _ =>
    EndsWell.error (mt (hBad _) not_false)

theorem go_frame [DecidableEq Node] (hReply : ∀ t tid, R t (t.send (.reply tid)))
    (hBook : ∀ t ebook eat, R t { t with engineer := { t.engineer with
      ebook := ebook, eat := eat } })
    (hSrc : EndsWell bad (fun _ => True) (deref .prevNode t.engineer.prevNode)) (tid : Nat)
    (index : Int) : EndsWell bad (R t) (go world around t tid index) := by
  apply hSrc.bind
  intro src _
  dsimp only
  cases goRoute world around src (world.gTrack index) with
  | error fault => exact EndsWell.error (mt (hBad _) not_false)
  | ok r =>
    have hStart := hReply t tid
    refine EndsWell.ite (fun _ => EndsWell.pure ?_) fun _ => ?_
    · exact h.trans hStart (hBook _ _ t.engineer.eat)
    · apply ((clean_makeEbook ..).weaken hBad).bind
      intro book _
      have hPlanned := h.trans hStart (hBook _ book.2 0)
      refine EndsWell.ite (fun _ => ?_) fun _ => EndsWell.pure hPlanned
      apply (nextEnstruction_frame h hBad).bind
      intro r hNext
      apply (setTargetFromEnstruction_frame h hBad r.1).mono
      intro t' hTarget
      exact h.trans hPlanned (h.trans hNext hTarget)

end frame

section commands

variable (h : CommandFrame R) (hBad : ∀ fault, bad fault → fault.OfState)
include h hBad

theorem issueChecked_frame (type : CommandType) (speed : Int) :
    EndsWell bad (R t) (issueChecked t type speed) :=
  EndsWell.ite (fun _ => EndsWell.ok (h.issue t _)) fun _ => EndsWell.error (mt (hBad _) not_false)

theorem requestTrack_frame (hRequest : ∀ t message, R t (t.send (.trackRequest message)))
    (nextNode prevNode : Node) :
    EndsWell bad (R t) (requestTrack world around t nextNode prevNode) := by
  refine ((clean_stoppingDist _ _).weaken hBad).bind fun _ _ =>
    ((clean_getReserveNodes ..).weaken hBad).bind fun _ _ =>
    ((clean_getReleaseNodes ..).weaken hBad).bind fun _ _ => ?_
  refine EndsWell.ite (fun _ => EndsWell.pure ?_) fun _ => EndsWell.pure (hRequest t _)
  exact h.trans (hRequest t _) (h.issue _ _)

theorem reachTarget_frame : EndsWell bad (R t) (reachTarget world t) := by
  have hStop : R t (clearTarget (issueSpeedCommand t 0)) :=
    h.trans (h.issue t _) (h.target _ none 0 _)
  refine EndsWell.ite (fun _ => ?_) fun _ => EndsWell.pure hStop
  apply (nextEnstruction_frame h.toTurnFrame hBad).bind
  intro r hNext
  apply (setTargetFromEnstruction_frame h.toTurnFrame hBad r.1).bind
  intro t' hTarget
  apply (issueChecked_frame h hBad _ _).mono
  intro t'' hReverse
  exact h.trans hStop (h.trans hNext (h.trans hTarget hReverse))

theorem checkTarget_frame [DecidableEq Node]
    (hStops : EndsWell bad (fun _ => True) (stopsAtTarget world t.trackBitmap t.engineer)) :
    EndsWell bad (R t) (checkTarget world t) := by
  rw [checkTarget_eq]
  apply hStops.bind
  intro stops _
  cases stops with
  | false => exact EndsWell.pure (h.refl t)
  | true => exact reachTarget_frame h hBad

end commands

end TrainKernel.User
