import TrainKernel.Library.FirstFound
import TrainKernel.User.Navigation
import TrainKernel.User.Routes

/-!
# The layout of a track

Each landmark is two nodes, one for each direction of travel: two sensors, a branch and a merge, or
an entrance and an exit. Each piece of rail is two edges. On such a track the next node along the
turnouts is always known, and no way leads to an entrance.
-/

namespace TrainKernel.User

open Library.FirstFound

variable {Node : Type}

/-- What a landmark is in the other direction. -/
def NodeType.reverse : NodeType → NodeType
  | .none => .none
  | .sensor => .sensor
  | .branch => .merge
  | .merge => .branch
  | .enter => .exit
  | .exit => .enter

def Track.Edge (track : Track Node) (n m : Node) : Prop :=
  ∃ d ∈ track.edges n, track.dest n d = some m

structure Track.LaidOut [Fintype Node] (track : Track Node) : Prop extends track.WellFormed where
  type_ne_none : ∀ n, track.type n ≠ .none
  type_reverse : ∀ n, track.type (track.reverse n) = (track.type n).reverse
  edge_reverse : ∀ n m, track.Edge n m → track.Edge (track.reverse m) (track.reverse n)
  isTurnout : ∀ n, track.type n = .branch → IsTurnout (track.num n)

/-- The edges that do not leave a sensor. -/
def Track.Unsensed (track : Track Node) (n m : Node) : Prop :=
  track.type n ≠ .sensor ∧ track.Edge n m

/-- Every directed cycle contains a sensor. -/
def Track.SensorOnCycles (track : Track Node) : Prop := Acyclic track.Unsensed

section ways

variable (track : Track Node) (trackBitmap : TrackBitmap)

def Track.curved (n : Node) : Prop := turnoutIsCurved trackBitmap (track.num n) = some true

instance : DecidablePred (track.curved trackBitmap) := fun _ =>
  inferInstanceAs (Decidable (_ = _))

/-- The edge by which the turnouts let a train leave a node; without a turnout there is only
one. -/
def Track.way (n : Node) : Dir :=
  if track.type n = .branch ∧ track.curved trackBitmap n then dirCurved else dirStraight

/-- The length of the edge that a train leaves a node by. -/
def Track.distAhead (n : Node) : Int := track.dist n (track.way trackBitmap n)

/-- The next node along the turnouts. -/
def Track.ahead (n : Node) : Option Node :=
  if track.type n = .exit then none else track.dest n (track.way trackBitmap n)

/-- Where a branch leads if its turnout is set the other way. -/
def Track.otherWay (n : Node) : Option Node :=
  track.dest n (if track.curved trackBitmap n then dirStraight else dirCurved)

end ways

variable {track : Track Node} {trackBitmap : TrackBitmap} {n m : Node}

theorem Track.ahead_exit (hExit : track.type n = .exit) : track.ahead trackBitmap n = none :=
  if_pos hExit

theorem Track.ahead_eq (hExit : track.type n ≠ .exit) (hBranch : track.type n ≠ .branch) :
    track.ahead trackBitmap n = track.dest n dirAhead := by
  rw [ahead, if_neg hExit, way, if_neg (hBranch ·.1)]
  rfl

theorem Track.way_mem_edges (hExit : track.type n ≠ .exit) :
    track.way trackBitmap n ∈ track.edges n := by
  rw [way]
  by_cases hBranch : track.type n = .branch
  · rw [track.edges_branch hBranch]
    split_ifs <;> decide
  · rw [track.edges_ahead hExit hBranch, if_neg (hBranch ·.1)]
    exact List.mem_singleton_self dirAhead

theorem Track.edge_ahead (hAhead : track.ahead trackBitmap n = some m) : track.Edge n m := by
  rw [ahead] at hAhead
  split_ifs at hAhead with hExit
  exact ⟨track.way trackBitmap n, Track.way_mem_edges hExit, hAhead⟩

namespace Track.LaidOut

variable [Fintype Node] (hTrack : track.LaidOut)
include hTrack

theorem exists_curved (hBranch : track.type n = .branch) :
    turnoutIsCurved trackBitmap (track.num n) = some (decide (track.curved trackBitmap n)) := by
  obtain ⟨a, ha⟩ := exists_bitAddress (hTrack.isTurnout n hBranch)
  have hKnown := @turnoutIsCurved_eq trackBitmap _ _ ha
  simp [Track.curved, hKnown]

/-- The turnouts of the track are all known, so there is always an answer. -/
theorem getNextEdge_eq (hExit : track.type n ≠ .exit) :
    getNextEdge track trackBitmap n = .ok (some (track.way trackBitmap n)) := by
  rw [getNextEdge, Track.way]
  split
  case h_1 hBranch =>
    rw [hTrack.exists_curved hBranch, hBranch]
    by_cases hCurved : track.curved trackBitmap n
    · rw [if_pos ⟨rfl, hCurved⟩, decide_eq_true hCurved]
      rfl
    · rw [if_neg (hCurved ·.2), decide_eq_false hCurved]
      rfl
  case h_2 => contradiction
  case h_3 hBranch _ =>
    rw [if_neg (hBranch ·.1)]
    rfl

theorem getNextNode_eq :
    getNextNode track trackBitmap n = .ok (track.ahead trackBitmap n) := by
  rw [getNextNode, Track.ahead]
  by_cases hExit : track.type n = .exit
  · rw [getNextEdge, hExit]
    rfl
  · rw [hTrack.getNextEdge_eq hExit, if_neg hExit]
    rfl

theorem exists_ahead (hExit : track.type n ≠ .exit) : ∃ m, track.ahead trackBitmap n = some m := by
  rw [Track.ahead, if_neg hExit, ← Option.isSome_iff_exists]
  exact hTrack.dest_isSome n _ (Track.way_mem_edges hExit)

theorem ahead_eq_none_iff : track.ahead trackBitmap n = none ↔ track.type n = .exit := by
  refine ⟨fun hEnd => ?_, Track.ahead_exit⟩
  by_contra hExit
  obtain ⟨m, hAhead⟩ := hTrack.exists_ahead hExit
  cases hEnd.symm.trans hAhead

theorem exists_otherWay (hBranch : track.type n = .branch) :
    ∃ m, track.otherWay trackBitmap n = some m := by
  rw [← Option.isSome_iff_exists, Track.otherWay]
  apply hTrack.dest_isSome
  rw [track.edges_branch hBranch]
  split_ifs <;> decide

/-- In the other direction an entrance is an exit, which no edge leaves. -/
theorem type_ne_enter (hEdge : track.Edge n m) : track.type m ≠ .enter := by
  intro hEnter
  obtain ⟨d, hd, -⟩ := hTrack.edge_reverse n m hEdge
  rw [edges, hTrack.type_reverse, hEnter] at hd
  exact absurd hd List.not_mem_nil

end Track.LaidOut

end TrainKernel.User
