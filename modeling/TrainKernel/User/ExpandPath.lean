import TrainKernel.Library.Outcome
import TrainKernel.User.EbookPages
import TrainKernel.User.Routes

/-!
# Expanding a path

`expandPath` copies a path and adds, behind every node where it is reversed, the nodes that the
train needs for its length. The copy stands on the stack, and a quarter of it is made.
-/

namespace TrainKernel.User

open Function Library.Outcome

variable {Node : Type}

/-- As in `planRoute`, bytes are counted; the flags are `int`s too. -/
def pbinit (pb : PathBuffer Node) : PathBuffer Node where
  trainNum := 0
  length := 0
  tracknodes := clearTracknodes pb.tracknodes
  reverse := fun i => if i < maxPathLength / 4 then false else pb.reverse i

def pbcopy (dst src : PathBuffer Node) : PathBuffer Node where
  trainNum := src.trainNum
  length := src.length
  tracknodes := copyEntries dst.tracknodes src.tracknodes
  reverse := copyEntries dst.reverse src.reverse

/-- `pb->tracknodes[pb->length++] = node`. -/
def putNode (pb : PathBuffer Node) (node : Option Node) : Except RouteFault (PathBuffer Node) :=
  if pb.length < maxPathLength then
    .ok { pb with
      tracknodes := update pb.tracknodes pb.length.toNat node
      length := pb.length + 1 }
  else .error .bufferOverrun

/-- The flag goes to the entry behind the node. -/
def flagNext (pb : PathBuffer Node) : Except RouteFault (PathBuffer Node) :=
  if pb.length < maxPathLength then
    .ok { pb with reverse := update pb.reverse pb.length.toNat true }
  else .error .bufferOverrun

variable (track : Track Node)

/-- `PADDING`, in millimetres. -/
def padDist : Int := 2 * 20 * 10

def nodeAhead (node : Option Node) : Except RouteFault (Option Node) :=
  match node with
  | some n => .ok (track.dest n dirAhead)
  | none => .error .nullPointer

def distAfter (node : Option Node) : Except RouteFault Int :=
  match node with
  | some n => .ok (track.dist n dirAhead)
  | none => .error .nullPointer

/-- The inner loop; in every round it looks ahead of the same node. Each round fills an entry, so
that the rounds are never used up. -/
def padLoop (node : Option Node) :
    Nat → Int → PathBuffer Node → Except RouteFault (PathBuffer Node)
  | 0, _, _ => .error .outOfFuel
  | rounds + 1, extra, pb =>
    if extra < padDist then do
      let next ← nodeAhead track node
      let pb ← putNode pb next
      let dist ← distAfter track next
      padLoop node rounds (extra + dist) pb
    else .ok pb

def expandNode (clonedpb : PathBuffer Node) (i : Nat) (pb : PathBuffer Node) :
    Except RouteFault (PathBuffer Node) := do
  let pb ← putNode pb (clonedpb.tracknodes i)
  if clonedpb.reverse i then
    let pb ← flagNext pb
    padLoop track (clonedpb.tracknodes i) (maxPathLength + 1) 0 pb
  else return pb

def expandLoop (clonedpb : PathBuffer Node) :
    Nat → Nat → PathBuffer Node → Except RouteFault (PathBuffer Node)
  | 0, _, pb => .ok pb
  | rounds + 1, i, pb => do
    let pb ← expandNode track clonedpb i pb
    expandLoop clonedpb rounds (i + 1) pb

/-- `onStack` is what the memory of `clonedpb` holds before. -/
def expandPath (onStack pb : PathBuffer Node) : Except RouteFault (Int × PathBuffer Node) := do
  let clonedpb := pbcopy onStack pb
  let pb ← expandLoop track clonedpb clonedpb.length.toNat 0 (pbinit pb)
  return (pb.length, pb)

variable {track} {pb pb' pb'' clonedpb : PathBuffer Node} {node : Option Node} {n : Node}
variable {rounds i : Nat} {extra : Int} {l : List Node}

structure PathBuffer.Grows (pb pb' : PathBuffer Node) : Prop where
  length_le : pb.length ≤ pb'.length
  tracknodes : ∀ i : Nat, i < pb.length → pb'.tracknodes i = pb.tracknodes i

namespace PathBuffer.Grows

theorem refl (pb : PathBuffer Node) : pb.Grows pb := ⟨le_rfl, fun _ _ => rfl⟩

theorem trans (h : pb.Grows pb') (h' : pb'.Grows pb'') : pb.Grows pb'' where
  length_le := h.length_le.trans h'.length_le
  tracknodes i hi :=
    (h'.tracknodes i (hi.trans_le h.length_le)).trans (h.tracknodes i hi)

theorem putNode : Yields pb.Grows (putNode pb node) := by
  refine EndsWell.ite (fun _ => EndsWell.ok ⟨?_, ?_⟩) fun _ => Yields.error
  · exact Int.le_add_one le_rfl
  · intro i hi
    apply update_of_ne
    omega

theorem flagNext : Yields pb.Grows (flagNext pb) :=
  EndsWell.ite (fun _ => EndsWell.ok ⟨le_rfl, fun _ _ => rfl⟩) fun _ => Yields.error

theorem padLoop : Yields pb.Grows (padLoop track node rounds extra pb) := by
  induction rounds generalizing extra pb with
  | zero => exact Yields.error
  | succ rounds ih =>
    refine EndsWell.ite (fun _ => Yields.skip fun next _ => ?_) fun _ => EndsWell.ok (.refl pb)
    refine Grows.putNode.bind fun pb₁ hPut => Yields.skip fun dist _ => ?_
    exact ih.mono fun pb₂ hRest => hPut.trans hRest

theorem expandNode : Yields pb.Grows (expandNode track clonedpb i pb) := by
  apply Grows.putNode.bind
  intro pb₁ hPut
  refine EndsWell.ite (fun _ => ?_) fun _ => EndsWell.pure hPut
  apply Grows.flagNext.bind
  intro pb₂ hFlag
  exact Grows.padLoop.mono fun pb₃ hPad => hPut.trans (hFlag.trans hPad)

theorem expandLoop : Yields pb.Grows (expandLoop track clonedpb rounds i pb) := by
  induction rounds generalizing i pb with
  | zero => exact EndsWell.ok (.refl pb)
  | succ rounds ih =>
    exact Grows.expandNode.bind fun pb₁ hNode => ih.mono fun pb₂ hRest => hNode.trans hRest

end PathBuffer.Grows

def PathBuffer.InRange (pb : PathBuffer Node) : Prop := 0 ≤ pb.length ∧ pb.length ≤ maxPathLength

theorem putNode_inRange (hRange : pb.InRange) : EndsWell (· = .outOfFuel)
    (fun pb' : PathBuffer Node => pb'.InRange ∧ pb'.length = pb.length + 1)
    (putNode pb node) := by
  refine EndsWell.ite (fun hLess => EndsWell.ok ⟨⟨?_, ?_⟩, rfl⟩) fun _ => EndsWell.error nofun
  · exact Int.add_nonneg hRange.1 Int.one_nonneg
  · exact hLess

theorem flagNext_inRange (hRange : pb.InRange) :
    EndsWell (· = .outOfFuel) PathBuffer.InRange (flagNext pb) :=
  EndsWell.ite (fun _ => EndsWell.ok hRange) fun _ => EndsWell.error nofun

theorem nodeAhead_endsWell : EndsWell (· = .outOfFuel) (fun _ => True) (nodeAhead track node) := by
  cases node with
  | none => exact EndsWell.error nofun
  | some n => exact EndsWell.ok trivial

theorem distAfter_endsWell : EndsWell (· = .outOfFuel) (fun _ => True) (distAfter track node) := by
  cases node with
  | none => exact EndsWell.error nofun
  | some n => exact EndsWell.ok trivial

theorem padLoop_inRange (hRange : pb.InRange) (hRounds : maxPathLength < pb.length + rounds) :
    EndsWell (· = .outOfFuel) PathBuffer.InRange (padLoop track node rounds extra pb) := by
  induction rounds generalizing extra pb with
  | zero => exact absurd hRange.2 (by omega)
  | succ rounds ih =>
    refine EndsWell.ite (fun _ => nodeAhead_endsWell.bind fun next _ => ?_) fun _ =>
      EndsWell.ok hRange
    apply (putNode_inRange hRange).bind
    intro pb₁ hPut
    refine distAfter_endsWell.bind fun dist _ => ih hPut.1 ?_
    omega

theorem expandNode_inRange (hRange : pb.InRange) :
    EndsWell (· = .outOfFuel) PathBuffer.InRange (expandNode track clonedpb i pb) := by
  refine (putNode_inRange hRange).bind fun pb₁ hPut => EndsWell.ite (fun _ => ?_) fun _ =>
    EndsWell.pure hPut.1
  refine (flagNext_inRange hPut.1).bind fun pb₂ hRange₂ => padLoop_inRange hRange₂ ?_
  have hNonneg := hRange₂.1
  omega

theorem expandLoop_inRange (hRange : pb.InRange) :
    EndsWell (· = .outOfFuel) PathBuffer.InRange (expandLoop track clonedpb rounds i pb) := by
  induction rounds generalizing i pb with
  | zero => exact EndsWell.ok hRange
  | succ rounds ih => exact (expandNode_inRange hRange).bind fun pb₁ hRange₁ => ih hRange₁

/-- A loop that would go on for ever leaves the buffer first. -/
theorem expandPath_ne_outOfFuel (onStack pb : PathBuffer Node) :
    expandPath track onStack pb ≠ .error .outOfFuel := by
  have hRange : (pbinit pb).InRange := ⟨le_rfl, Int.natCast_nonneg _⟩
  have hEnds : EndsWell (· = .outOfFuel) (fun _ => True) (expandPath track onStack pb) :=
    (expandLoop_inRange hRange).bind fun pb' _ => EndsWell.pure trivial
  exact hEnds.ne_error rfl

/-- The nodes at the start of the buffer. -/
structure PathBuffer.Lists (pb : PathBuffer Node) (l : List Node) : Prop where
  length_eq : pb.length = l.length
  tracknodes : ∀ i n, l[i]? = some n → pb.tracknodes i = some n

theorem PathBuffer.Lists.putNode (h : pb.Lists l) (hRoom : l.length < maxPathLength) (n : Node) :
    ∃ pb', putNode pb (some n) = .ok pb' ∧ pb'.Lists (l ++ [n]) := by
  have hLess : pb.length < maxPathLength := by
    rw [h.length_eq]
    exact Int.ofNat_lt.mpr hRoom
  refine ⟨_, if_pos hLess, ?_, ?_⟩
  · rw [List.length_append, h.length_eq]
    rfl
  · intro i m hMem
    have hIndex : pb.length.toNat = l.length := by
      rw [h.length_eq]
      rfl
    dsimp only
    rw [hIndex]
    rcases getElem?_concat hMem with ⟨hOld, hi⟩ | ⟨rfl, rfl⟩
    · rw [update_of_ne (Nat.ne_of_lt hi)]
      exact h.tracknodes i m hOld
    · exact update_self ..

end TrainKernel.User
