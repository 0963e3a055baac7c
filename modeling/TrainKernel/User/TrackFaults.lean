import TrainKernel.Library.Outcome
import TrainKernel.User.Engineer

/-!
# Faults of the track

A function that walks along the track, fills a book or reads a table fails for what it finds
there. The other faults come from the state of the engineer: its pointers, its stored claim and
the numbers that it divides by.
-/

namespace TrainKernel.User

open Library.Outcome

variable {Node : Type} {α β : Type}

def EngineerFault.OfState : EngineerFault → Prop
  | .divideByZero => True
  | .nullPointer .prevNode | .nullPointer .prevSensor | .nullPointer .nextSensor => True
  | .assertion .known | .assertion .prevNodeKnown => True
  | .assertion .noOutstandingClaim | .assertion .argument => True
  | _ => False

abbrev Clean (x : Except EngineerFault α) : Prop :=
  EndsWell EngineerFault.OfState (fun _ => True) x

theorem Clean.bind {x : Except EngineerFault α} {f : α → Except EngineerFault β}
    {P : β → Prop} (h : Clean x) (hf : ∀ a, EndsWell EngineerFault.OfState P (f a)) :
    EndsWell EngineerFault.OfState P (x >>= f) :=
  EndsWell.bind h fun a _ => hf a

theorem Clean.pure (a : α) : Clean (Pure.pure a : Except EngineerFault α) := trivial

theorem Clean.error {fault : EngineerFault} (h : ¬fault.OfState) :
    Clean (.error fault : Except EngineerFault α) := h

theorem clean_known (check : Check) (h : ¬(EngineerFault.assertion check).OfState)
    (pointer : Option α) : Clean (known check pointer) := by
  cases pointer with
  | none => exact Clean.error h
  | some x => trivial

theorem clean_deref (pointer : Option α) : Clean (deref .other pointer) := by
  cases pointer with
  | none => exact Clean.error not_false
  | some x => trivial

theorem clean_assertThat (check : Check) (h : ¬(EngineerFault.assertion check).OfState)
    (p : Bool) : Clean (assertThat check p) :=
  EndsWell.ite (fun _ => trivial) fun _ => Clean.error h

section track

variable (track : Track Node) (trackBitmap : TrackBitmap)

theorem clean_getNextEdge (node : Node) : Clean (getNextEdge track trackBitmap node) := by
  rw [getNextEdge]
  split
  · exact (clean_known .turnout not_false _).bind fun curved => Clean.pure _
  · exact Clean.pure _
  · exact Clean.pure _

theorem clean_getNextNode (node : Node) : Clean (getNextNode track trackBitmap node) :=
  (clean_getNextEdge track trackBitmap node).bind fun nextEdge => by
    cases nextEdge <;> exact Clean.pure _

theorem clean_getNextSensor (node : Node) :
    Clean (getNextSensor track trackBitmap node) := by
  rw [getNextSensor]
  generalize walkLimit = fuel
  induction fuel generalizing node with
  | zero => exact Clean.error not_false
  | succ fuel ih =>
    apply (clean_getNextNode track trackBitmap node).bind
    intro next
    cases next with
    | none => exact Clean.pure _
    | some next => exact EndsWell.ite (fun _ => Clean.pure _) fun _ => ih next

theorem clean_distanceLoop [DecidableEq Node] (dst : Node) (rounds : Nat) (src : Node)
    (total : Int) : Clean (distanceLoop track trackBitmap dst rounds src total) := by
  induction rounds generalizing src total with
  | zero => exact Clean.pure _
  | succ rounds ih =>
    apply (clean_getNextEdge track trackBitmap src).bind
    intro nextEdge
    cases nextEdge with
    | none => exact Clean.pure _
    | some nextEdge =>
      dsimp only
      cases track.dest src nextEdge with
      | none => exact Clean.pure _
      | some node => exact EndsWell.ite (fun _ => Clean.pure _) fun _ => ih node _

theorem clean_sensorFrom (node : Node) : Clean (sensorFrom track trackBitmap node) :=
  EndsWell.ite (fun _ => Clean.pure _) fun _ => clean_getNextSensor ..

theorem clean_branchClaims (node : Node) : Clean (branchClaims track trackBitmap node) := by
  refine (clean_getNextNode ..).bind fun next =>
    (clean_known .claimedNode not_false _).bind fun primary =>
    (clean_known .turnout not_false _).bind fun curved => ?_
  refine (clean_sensorFrom ..).bind fun _ =>
    (clean_known .claimedNode not_false _).bind fun primary => ?_
  split
  · exact Clean.pure _
  · refine EndsWell.ite (fun _ => Clean.pure _) fun _ => ?_
    exact (clean_sensorFrom ..).bind fun _ => (clean_deref _).bind fun _ =>
      Clean.pure _

theorem clean_getNextClaimsLoop (fuel : Nat) (node : Node) :
    Clean (getNextClaimsLoop track trackBitmap fuel node) := by
  induction fuel generalizing node with
  | zero => exact Clean.error not_false
  | succ fuel ih =>
    refine (clean_getNextNode ..).bind fun next =>
      (clean_known .claimedNode not_false _).bind fun node => ?_
    split
    · exact clean_branchClaims track trackBitmap node
    · apply (clean_getNextSensor ..).bind
      intro secondary
      cases secondary <;> exact Clean.pure _
    · exact Clean.pure _
    · exact ih node
    · exact Clean.error not_false

theorem clean_getReserveNodes (src : Node) (reserveDist : Int) :
    Clean (getReserveNodes track trackBitmap src reserveDist) := by
  refine Clean.bind ?_ fun _ => Clean.pure _
  generalize maxReserveSize - 1 = rounds, (0 : Int) = dist
  induction rounds generalizing src dist with
  | zero => exact Clean.error not_false
  | succ rounds ih =>
    refine EndsWell.ite (fun _ => Clean.pure _) fun _ => ?_
    exact (clean_getNextEdge ..).bind fun _ => (clean_deref _).bind fun _ =>
      (clean_getNextNode ..).bind fun _ => (clean_deref _).bind fun node =>
      (ih node _).bind fun _ => Clean.pure _

theorem clean_getPrevOwnedNode (owner : Owners Node) (node : Node) (tid : Nat) :
    Clean (getPrevOwnedNode track trackBitmap owner node tid) := by
  refine EndsWell.ite (fun _ => Clean.pure _) fun _ => ?_
  dsimp only
  split
  · exact (clean_getNextNode ..).bind fun _ => (clean_deref _).bind fun _ =>
      Clean.pure _
  · exact (clean_getNextNode ..).bind fun _ => (clean_deref _).bind fun _ =>
      Clean.pure _
  · exact (clean_deref _).bind fun _ => EndsWell.ite (fun _ => Clean.pure _) fun _ =>
      (clean_deref _).bind fun _ => EndsWell.ite (fun _ => Clean.pure _) fun _ =>
      Clean.pure _
  · exact Clean.pure _

theorem clean_getReleaseNodes (owner : Owners Node) (src : Node) (tid : Nat) :
    Clean (getReleaseNodes track trackBitmap owner src tid) := by
  refine EndsWell.ite (fun _ => Clean.pure _) fun h => Clean.bind ?_ fun _ => Clean.pure _
  clear h
  generalize maxReleaseSize - 1 = rounds
  induction rounds generalizing src with
  | zero => exact Clean.pure _
  | succ rounds ih =>
    apply (clean_getPrevOwnedNode ..).bind
    intro prevNode
    cases prevNode with
    | none => exact Clean.pure _
    | some prevNode => exact (ih prevNode).bind fun _ => Clean.pure _

end track

section ebook

variable {book : Ebook Node}

theorem clean_newEnstruction (id : Int) (togo : Position Node) (node : Option Node)
    (turnop : Int) : Clean (newEnstruction book id togo node turnop) :=
  EndsWell.ite (fun _ => trivial) fun _ => Clean.error not_false

theorem clean_setTogo (node : Option Node) : Clean (setTogo book node) :=
  EndsWell.ite (fun _ => trivial) fun _ => Clean.error not_false

theorem clean_addNode (node : Option Node) (turnop : Int) :
    Clean (addNode book node turnop) :=
  EndsWell.ite (fun _ => trivial) fun _ => Clean.error not_false

theorem clean_makeEbook [DecidableEq Node] (track : Track Node) (pb : PathBuffer Node)
    (book : Ebook Node) : Clean (makeEbook track pb book) := by
  refine EndsWell.ite (fun _ => Clean.pure _) fun _ =>
    (clean_newEnstruction ..).bind fun book => Clean.bind ?_ fun book =>
    (clean_setTogo _).bind fun book => (clean_addNode _ _).bind fun book => Clean.pure _
  generalize (pb.length - 2).toNat = rounds, 1 = i, (1 : Int) = enIdx
  induction rounds generalizing i enIdx book with
  | zero => trivial
  | succ rounds ih =>
    refine EndsWell.ite (fun _ => ?_) fun _ => ?_
    · exact (clean_setTogo _).bind fun book => (clean_newEnstruction ..).bind fun book =>
        ih book _ _
    · exact (clean_addNode _ _).bind fun book => ih book _ _

end ebook

theorem clean_stoppingDist (e : Engineer Node) (speed : Int) :
    Clean (e.stoppingDist speed) := by
  rw [Engineer.stoppingDist]
  split
  · exact EndsWell.ite (fun _ => trivial) fun _ => Clean.error not_false
  · exact Clean.error not_false

theorem clean_timeDelta (e : Engineer Node) (speed sensor : Int) :
    Clean (e.timeDelta speed sensor) :=
  EndsWell.ite (fun _ => trivial) fun _ => Clean.error not_false

end TrainKernel.User
