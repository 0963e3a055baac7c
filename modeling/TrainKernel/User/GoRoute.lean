import TrainKernel.User.Engineer
import TrainKernel.User.Reservations
import TrainKernel.User.ShortestRoute

/-!
# The route of the go command

The track server knows an engineer by its task id, and the route search by the train number in
the path buffer. The go command leaves that number as it finds it on the stack.
-/

namespace TrainKernel.User

open Function Library.Walks Library.BestFirst

variable {Node : Type} [DecidableEq Node] {track : Track Node} {owner owner' : Owners Node}
variable {src dst : Node} {gNodes : NodePool Node} {pb : PathBuffer Node}

def OnlyOwner (owner : Owners Node) (tid : Nat) : Prop := ∀ n, owner n = -1 ∨ owner n = tid

theorem OnlyOwner.release {tid : Nat} (h : OnlyOwner owner tid) (l : List Node) :
    OnlyOwner (releaseLoop owner l) tid := by
  intro n
  rw [releaseLoop_apply]
  split_ifs
  · exact Or.inl rfl
  · exact h n

theorem OnlyOwner.reserve {tid : Nat} (h : OnlyOwner owner tid) (l : List Node) :
    OnlyOwner (reserveLoop track tid owner l).1 tid := by
  induction l generalizing owner with
  | nil => exact h
  | cons m l ih =>
    rw [reserveLoop]
    split_ifs
    · exact h
    · exact h
    · refine ih fun n => ?_
      rcases eq_or_ne n m with rfl | hn
      · exact Or.inr (update_self ..)
      · rw [update_of_ne hn]
        exact h n

theorem serveTracks_onlyOwner (track : Track Node) {tid : Nat} (h : OnlyOwner owner tid)
    (messages : List (Nat × TrackServerMessage Node))
    (hTid : ∀ m ∈ messages, m.1 = tid) : OnlyOwner (serveTracks track owner messages) tid := by
  induction messages generalizing owner with
  | nil => exact h
  | cons m messages ih =>
    obtain rfl := hTid m List.mem_cons_self
    exact ih ((h.release _).reserve _) fun m hm => hTid m (List.mem_cons_of_mem _ hm)

omit [DecidableEq Node] in
theorem Track.dirAhead_mem_edges (track : Track Node) {n : Node} (hExit : track.type n ≠ .exit) :
    dirAhead ∈ track.edges n := by
  by_cases hBranch : track.type n = .branch
  · rw [Track.edges_branch hBranch]
    exact List.mem_cons_self
  · rw [Track.edges_ahead hExit hBranch]
    exact List.mem_cons_self

omit [DecidableEq Node] in
theorem Track.WellFormed.exists_dest [Fintype Node] (hTrack : track.WellFormed) {n : Node}
    (hExit : track.type n ≠ .exit) :
    ∃ m, track.dest n dirAhead = some m ∧ m ≠ n ∧ m ≠ track.reverse n := by
  obtain ⟨m, hDest⟩ := Option.isSome_iff_exists.mp
    (hTrack.dest_isSome n dirAhead (track.dirAhead_mem_edges hExit))
  exact ⟨m, hDest, hTrack.dest_ne n dirAhead m hDest⟩

theorem isRoute_ahead {trainNum : Int} {n m : Node} (hExit : track.type n ≠ .exit)
    (hDest : track.dest n dirAhead = some m) (hOwner : owner n = -1 ∨ owner n = trainNum) :
    IsRoute track owner trainNum n m [dirAhead] := by
  refine ⟨(Roads.isWalk_restrict_cons _).mpr ⟨⟨Or.inr ⟨hExit, hOwner⟩, ?_⟩, trivial⟩, ?_⟩
  · exact track.dirAhead_mem_edges hExit
  · exact Track.roads_target hDest

/-- The search asks of a node that is not an exit whether it is foreign, and of others
nothing. -/
theorem search_congr {trainNum : Int}
    (h : ∀ n, track.type n ≠ .exit →
      (owner n ≠ -1 ∧ owner n ≠ trainNum ↔ owner' n ≠ -1 ∧ owner' n ≠ trainNum))
    (fuel : Nat) (s : Search Node) :
    search track owner dst trainNum fuel s = search track owner' dst trainNum fuel s := by
  induction fuel generalizing s with
  | zero => rfl
  | succ fuel ih =>
    rw [search, search]
    refine bind_congr fun popd => ?_
    obtain ⟨_ | popd, pq⟩ := popd
    · rfl
    dsimp only
    apply if_congr Iff.rfl rfl
    cases (s.nodes popd).tn with
    | none => rfl
    | some tn =>
      dsimp only
      by_cases hExit : track.type tn = .exit
      · rw [if_pos hExit, if_pos hExit]
        exact ih _
      · rw [if_neg hExit, if_neg hExit]
        refine if_congr (h tn hExit) (ih _) (if_congr Iff.rfl ?_ ?_)
        · exact bind_congr fun s => bind_congr fun s => ih s
        · exact bind_congr fun s => ih s

theorem planRoute_congr (h : ∀ n, track.type n ≠ .exit →
      (owner n ≠ -1 ∧ owner n ≠ pb.trainNum ↔ owner' n ≠ -1 ∧ owner' n ≠ pb.trainNum)) :
    planRoute track owner gNodes src dst pb = planRoute track owner' gNodes src dst pb := by
  simp only [planRoute, search_congr h]

section blocked

variable [Fintype Node] (hTrack : track.WellFormed)
include hTrack

theorem planRoute_blocked (hDst : dst ≠ track.reverse src) (hNe : src ≠ dst)
    (hBlocked : ¬Passable track owner pb.trainNum dst src) :
    planRoute track owner gNodes src dst pb = .error .heapEmpty := by
  have hNil {p : List Dir} (hWalk : (searchRoads track owner pb.trainNum dst).IsWalk src p) :
      p = [] := by
    induction p with
    | nil => rfl
    | cons d p ih =>
      obtain ⟨⟨hPassable, -⟩, hRest⟩ := (Roads.isWalk_restrict_cons _).mp hWalk
      obtain rfl := ih hRest
      exact absurd hPassable hBlocked
  have hAll {opened closed : Multiset (List Dir)}
      (h : SearchRun owner pb.trainNum src dst hTrack opened closed) :
      (opened + closed).card ≤ 1 := by
    have hSub : opened + closed ⊆ {[]} := fun p hp =>
      Multiset.mem_singleton.mpr (hNil ((routeTree_below_iff hTrack).mp (h.below_root p hp)))
    exact Multiset.card_le_card ((Multiset.le_iff_subset h.nodup).mpr hSub)
  cases planRoute_ended owner gNodes pb hTrack hDst with
  | exhausted _ _ hPlan => exact hPlan
  | @overrun f t queue closed hReaches hNext _ hFull =>
    obtain ⟨hPopped, hEntered⟩ := hReaches.popped hTrack hNext
    obtain rfl := hNil ((routeTree_below_iff hTrack).mp (hPopped.run.below_root t (by simp)))
    rw [continuations, Roads.stop, if_neg hBlocked, List.length_nil, hEntered] at hFull
    exact absurd (hFull.trans_le (hAll hPopped.run)) (by decide)
  | @found f t queue closed hReaches hNext hStop =>
    have hPopped := (hReaches.popped hTrack hNext).1
    obtain rfl := hNil ((routeTree_below_iff hTrack).mp (hPopped.run.below_root t (by simp)))
    exact absurd hStop hNe

theorem planRoute_ne_heapEmpty (hDst : dst ≠ track.reverse src)
    (hRoute : ∃ p, IsRoute track owner pb.trainNum src dst p) :
    planRoute track owner gNodes src dst pb ≠ .error .heapEmpty := by
  obtain ⟨p, hp⟩ := hRoute
  cases planRoute_ended owner gNodes pb hTrack hDst with
  | exhausted hReaches hNext => exact absurd hp (hReaches.no_route hTrack hNext)
  | overrun _ _ _ _ hPlan =>
    rw [hPlan]
    exact fun h => nomatch h
  | found _ _ _ _ _ _ hPlan => exact hPlan

end blocked

section call

variable {trainNum : Int} {p q : List Dir}

theorem IsRoute.free (h : IsRoute track owner trainNum src dst p) :
    IsRoute track (Owners.free Node) trainNum src dst p :=
  ⟨Roads.IsWalk.mono _ (fun _ hLeave => hLeave.imp_right fun h => ⟨h.1, Or.inl rfl⟩) h.walk, h.stop⟩

theorem IsRoute.of_nodesOf (h : IsRoute track owner trainNum src dst p)
    (hq : IsRoute track owner' trainNum src dst q)
    (hEq : nodesOf track src q = nodesOf track src p) :
    IsRoute track owner trainNum src dst q := by
  have hVisited : track.roads.visited src q = track.roads.visited src p := List.reverse_inj.mp hEq
  refine ⟨(Roads.isWalk_restrict_iff _).mpr ⟨Roads.IsWalk.of_restrict _ hq.walk, ?_⟩, hq.stop⟩
  rw [hVisited]
  exact ((Roads.isWalk_restrict_iff _).mp h.walk).2

theorem pathNodes_subset_free (P : Int → Prop) : pathNodes track owner trainNum src dst P ⊆
    pathNodes track (Owners.free Node) trainNum src dst P := by
  rintro p (rfl | ⟨d, q, rfl, hWalk, hP⟩)
  · exact Or.inl rfl
  · refine Or.inr ⟨d, q, rfl, Roads.IsWalk.mono _ (fun _ h => ?_) hWalk, hP⟩
    exact ⟨h.1, h.2.1, Or.inl rfl⟩

variable [Fintype Node]

variable (gNodes) in
theorem exists_route_of_planRoute (hTrack : track.WellFormed) (hDst : dst ≠ track.reverse src)
    {r : Int × PathBuffer Node} (hPlan : planRoute track owner gNodes src dst pb = .ok r) :
    ∃ p, IsRoute track owner pb.trainNum src dst p ∧
      r = ((p.length : Int) + 1, pb.withRoute track src p) := by
  cases planRoute_ended owner gNodes pb hTrack hDst with
  | exhausted _ _ hFault => exact nomatch hPlan.symm.trans hFault
  | overrun _ _ _ _ hFault => exact nomatch hPlan.symm.trans hFault
  | @found f p queue closed hReaches hNext hStop _ hShort hLong =>
    refine ⟨p, (hReaches.popped hTrack hNext).1.isRoute hStop, ?_⟩
    by_cases hLength : p.length < maxPathLength
    · exact Except.ok.inj (hPlan.symm.trans (hShort hLength))
    · exact absurd hPlan (hLong (Nat.not_lt.mp hLength) r)

/-- Where a shortest route of the free track is the only one, no distance overflows and the pool is
large enough, the reservations of the train go unnoticed if and only if they leave that route
open. -/
theorem planRoute_eq_free_iff (hTrack : track.WellFormed) (hDst : dst ≠ track.reverse src)
    (hp : IsShortest track (Owners.free Node) pb.trainNum src dst p)
    (hUnique : ∀ q, IsShortest track (Owners.free Node) pb.trainNum src dst q → q = p)
    (hFits : DistancesFit track (Owners.free Node) pb.trainNum src dst)
    (hFew : (pathNodes track (Owners.free Node) pb.trainNum src dst
      (· ≤ track.roads.distance src p)).encard ≤ exploreSize) :
    planRoute track owner gNodes src dst pb = planRoute track (Owners.free Node) gNodes src dst pb ↔
      IsRoute track owner pb.trainNum src dst p := by
  obtain ⟨t, ht, hFree⟩ := planRoute_of_few gNodes hTrack hFits hDst hp.toIsRoute hFew
  obtain rfl := hUnique t ht
  rw [hFree]
  constructor
  · intro hOwned
    obtain ⟨q, hq, hSame⟩ := exists_route_of_planRoute gNodes hTrack hDst hOwned
    obtain ⟨hEq, hBuffer⟩ := Prod.mk.inj hSame
    have hLength : t.length = q.length := by omega
    refine hq.of_nodesOf ht.toIsRoute (List.ext_getElem? fun i => ?_)
    by_cases hi : i ≤ t.length
    · have hNode := congrFun (congrArg PathBuffer.tracknodes hBuffer) i
      simp only [PathBuffer.withRoute] at hNode
      rwa [if_pos hi, if_pos (hLength ▸ hi)] at hNode
    · rw [List.getElem?_eq_none (by simp [nodesOf]; omega),
        List.getElem?_eq_none (by simp [nodesOf]; omega)]
  · intro hRoute
    have hShortest (q : List Dir) (hq : IsShortest track owner pb.trainNum src dst q) : q = t :=
      hUnique q ⟨hq.toIsRoute.free, fun r hr => (hq.le t hRoute).trans (hp.le r hr)⟩
    have hFitsOwned : DistancesFit track owner pb.trainNum src dst := by
      intro q hq
      obtain rfl := hShortest q hq
      exact fun u hu => hFits q hp u (pathNodes_subset_free _ hu)
    obtain ⟨q, hq, hOwned⟩ := planRoute_of_few gNodes hTrack hFitsOwned hDst hRoute
      ((Set.encard_le_encard (pathNodes_subset_free _)).trans hFew)
    rw [hOwned, hShortest q hq]

end call

/-- The search of the go command takes no notice of the owners. -/
def OwnNeverBlocks (world : EngineerWorld Node) (owner : Owners Node) (trainNum : Int) : Prop :=
  ∀ around : Surroundings Node, around.owner = owner → around.pb.trainNum = trainNum →
    ∀ prevNode dst, goRoute world around prevNode dst
      = goRoute world { around with owner := Owners.free Node } prevNode dst

/-- The route of the go command ignores the reservations of its train only where the stack
happens to hold the task id, or where no reserved node leads anywhere. -/
theorem own_never_blocks_iff [Fintype Node] (world : EngineerWorld Node)
    (hTrack : world.track.WellFormed) (hOwn : OnlyOwner owner world.myTid) (trainNum : Int) :
    OwnNeverBlocks world owner trainNum ↔
      trainNum = world.myTid ∨ ∀ n, owner n ≠ -1 → world.track.type n = .exit := by
  constructor
  · intro hNever
    rw [or_iff_not_imp_left]
    intro hNum n hReserved
    by_contra hExit
    have hOwner := (hOwn n).resolve_left hReserved
    obtain ⟨m, hDest, hNe, hReverse⟩ := hTrack.exists_dest hExit
    let pb : PathBuffer Node := ⟨trainNum, 0, fun _ => none, fun _ => false⟩
    have hEq := hNever ⟨0, owner, .success, fun _ => ⟨none, none, 0, 0, false⟩, pb⟩ rfl rfl n m
    simp only [goRoute] at hEq
    rw [planRoute_blocked hTrack hReverse hNe.symm] at hEq
    · refine planRoute_ne_heapEmpty hTrack hReverse ⟨[dirAhead], ?_⟩ hEq.symm
      exact isRoute_ahead hExit hDest (Or.inl rfl)
    · rintro ⟨-, -, hFree | hNum'⟩
      · exact hReserved hFree
      · exact hNum (hNum'.symm.trans hOwner)
  · rintro hCondition around rfl rfl prevNode dst
    refine planRoute_congr fun n hExit => iff_of_false ?_ fun h => h.1 rfl
    rintro ⟨hReserved, hForeign⟩
    rcases hCondition with hNum | hExits
    · exact hForeign ((hOwn n).resolve_left hReserved |>.trans hNum.symm)
    · exact hExit (hExits n hReserved)

def shortLineWorld : EngineerWorld LineNode := ⟨shortLine, fun i => (decide (2 ≤ i), i % 2 = 1), 5⟩

/-- Engineer 5 has reserved the piece of track it stands on. -/
def shortLineOwner : Owners LineNode :=
  serveTracks shortLine (Owners.free LineNode) [(5, ⟨[lineEntry], []⟩)]

theorem own_never_blocks_iff_shortLine : OwnNeverBlocks shortLineWorld shortLineOwner 0 ↔
    (0 : Int) = 5 ∨ ∀ n, shortLineOwner n ≠ -1 → shortLine.type n = .exit :=
  own_never_blocks_iff shortLineWorld shortLine_wellFormed
    (serveTracks_onlyOwner shortLine (fun _ => Or.inl rfl) _ (by simp [shortLineWorld])) 0

theorem own_blocks : ¬OwnNeverBlocks shortLineWorld shortLineOwner 0 := by
  intro hNever
  have hEq := hNever ⟨0, shortLineOwner, .success, blankPool, blankBuffer⟩ rfl rfl lineEntry
    lineExit
  have hStuck : planRoute shortLine shortLineOwner blankPool lineEntry lineExit blankBuffer
    = .error .heapEmpty := rfl
  obtain ⟨pb', hFree⟩ : ∃ pb', planRoute shortLine (Owners.free LineNode) blankPool lineEntry
    lineExit blankBuffer = .ok (2, pb') := ⟨_, rfl⟩
  exact nomatch (hStuck.symm.trans hEq).trans hFree

end TrainKernel.User
