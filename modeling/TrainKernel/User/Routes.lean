import TrainKernel.Library.Walks
import TrainKernel.User.Pathfinding

/-!
# Routes on the track

What the route search is for: a route leads from one node to another along the edges of the
track, and leaves only nodes that are free or owned by the train. A route is the list of the
directions it takes, the last one first.
-/

namespace TrainKernel.User

open Library.Walks Library.BestFirst

variable {Node : Type}

/-- The edges by which a train can leave a node. -/
def Track.edges (track : Track Node) (n : Node) : List Dir :=
  match track.type n with
  | .branch => [dirStraight, dirCurved]
  | .exit => []
  | _ => [dirAhead]

def Track.roads (track : Track Node) : Roads Node Dir where
  out := track.edges
  target n d := (track.dest n d).getD n
  length := track.dist

theorem Track.roads_target {track : Track Node} {n m : Node} {d : Dir}
    (h : track.dest n d = some m) : track.roads.target n d = m := by
  simp [roads, h]

structure Track.WellFormed [Fintype Node] (track : Track Node) : Prop where
  idx_injective : Function.Injective track.idx
  reverse_involutive : Function.Involutive track.reverse
  reverse_ne : ∀ n, track.reverse n ≠ n
  dest_isSome : ∀ n, ∀ d ∈ track.edges n, (track.dest n d).isSome
  /-- An edge leads to another piece of track. -/
  dest_ne : ∀ n d m, track.dest n d = some m → m ≠ n ∧ m ≠ track.reverse n
  dist_nonneg : ∀ n d, 0 ≤ track.dist n d
  card_le : Fintype.card Node ≤ trackMax

/-- No way around that ends where it began has length zero. -/
def Track.NoFreeLoop (track : Track Node) : Prop :=
  ∀ n p, p ≠ [] → track.roads.IsWalk n p → track.roads.stop n p = n → track.roads.distance n p ≠ 0

theorem Track.edges_branch {track : Track Node} {n : Node} (h : track.type n = .branch) :
    track.edges n = [dirStraight, dirCurved] := by
  rw [edges, h]

theorem Track.edges_ahead {track : Track Node} {n : Node} (hExit : track.type n ≠ .exit)
    (hBranch : track.type n ≠ .branch) : track.edges n = [dirAhead] := by
  rw [edges]
  split <;> first | contradiction | rfl

theorem Track.edges_nodup (track : Track Node) (n : Node) : (track.edges n).Nodup := by
  rw [edges]
  split <;> decide

theorem Track.length_edges_le (track : Track Node) (n : Node) :
    (track.edges n).length ≤ 2 := by
  rw [edges]
  split <;> simp

variable (track : Track Node) (owner : Owners Node) (trainNum : Int) (src dst : Node)

/-- A node that a route to `dst` may leave. -/
def MayLeave (n : Node) : Prop :=
  n = dst ∨ track.type n ≠ .exit ∧ (owner n = -1 ∨ owner n = trainNum)

/-- A node that the search for `dst` looks past. -/
def Passable (n : Node) : Prop :=
  n ≠ dst ∧ track.type n ≠ .exit ∧ (owner n = -1 ∨ owner n = trainNum)

variable [DecidableEq Node]

instance : DecidablePred (MayLeave track owner trainNum dst) := fun _ =>
  inferInstanceAs (Decidable (_ ∨ _))

instance : DecidablePred (Passable track owner trainNum dst) := fun _ =>
  inferInstanceAs (Decidable (_ ∧ _))

structure IsRoute (p : List Dir) : Prop where
  walk : (track.roads.restrict (MayLeave track owner trainNum dst)).IsWalk src p
  stop : track.roads.stop src p = dst

structure IsShortest (p : List Dir) : Prop extends IsRoute track owner trainNum src dst p where
  le : ∀ q, IsRoute track owner trainNum src dst q →
    track.roads.distance src p ≤ track.roads.distance src q

abbrev searchRoads : Roads Node Dir := track.roads.restrict (Passable track owner trainNum dst)

variable [Fintype Node] {track} (hTrack : track.WellFormed)

/-- The walks that the search for `dst` can look at, as a tree. -/
def routeTree : SearchTree (List Dir) :=
  (searchRoads track owner trainNum dst).tree src (fun n d _ => hTrack.dist_nonneg n d) fun n => by
    simp only [searchRoads, Roads.restrict]
    split_ifs
    · exact track.edges_nodup n
    · exact List.nodup_nil

variable {owner trainNum src dst} {p : List Dir}

theorem routeTree_below_iff : (routeTree owner trainNum src dst hTrack).Below [] p ↔
    (searchRoads track owner trainNum dst).IsWalk src p :=
  Roads.tree_below_iff _

@[simp] theorem routeTree_cost : (routeTree owner trainNum src dst hTrack).cost p
    = track.roads.distance src p :=
  Roads.restrict_distance ..

theorem routeTree_children : (routeTree owner trainNum src dst hTrack).children p =
    if Passable track owner trainNum dst (track.roads.stop src p) then
      (track.edges (track.roads.stop src p)).map (· :: p) else [] := by
  change ((searchRoads track owner trainNum dst).out
    ((searchRoads track owner trainNum dst).stop src p)).map (· :: p) = _
  rw [searchRoads, Roads.restrict_stop]
  simp only [Roads.restrict]
  split_ifs <;> rfl

theorem length_routeTree_children_le :
    ((routeTree owner trainNum src dst hTrack).children p).length ≤ 2 := by
  rw [routeTree_children]
  split_ifs
  · rw [List.length_map]
    exact track.length_edges_le _
  · exact Nat.zero_le _

omit [Fintype Node] in
theorem IsRoute.of_searchRoads (h : (searchRoads track owner trainNum dst).IsWalk src p)
    (hStop : track.roads.stop src p = dst) : IsRoute track owner trainNum src dst p :=
  ⟨Roads.IsWalk.mono _ (fun _ h => Or.inr h.2) h, hStop⟩

include hTrack in
theorem IsRoute.exists_searchRoads (h : IsRoute track owner trainNum src dst p) :
    ∃ q, (searchRoads track owner trainNum dst).IsWalk src q ∧ track.roads.stop src q = dst ∧
      track.roads.distance src q ≤ track.roads.distance src p :=
  Roads.exists_first_arrival _ (fun _ h hNe => ⟨hNe, h.resolve_left hNe⟩)
    (fun n d _ => hTrack.dist_nonneg n d) h.walk h.stop

end TrainKernel.User
