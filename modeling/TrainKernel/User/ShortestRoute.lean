import TrainKernel.User.RouteSearch

/-!
# What the route search returns

The search returns whenever it comes to a route before the pool is full, and where no distance
overflows that is a shortest one. Where there is no route, it does not return.
-/

namespace TrainKernel.User

open Function Library.Int32 Library.Walks Library.BestFirst

variable {Node : Type} {track : Track Node} {src dst : Node}

/-- The nodes of a route in the order in which the train passes them. -/
def nodesOf (track : Track Node) (src : Node) (p : List Dir) : List Node :=
  (track.roads.visited src p).reverse

def PathBuffer.withRoute (pb : PathBuffer Node) (track : Track Node) (src : Node)
    (p : List Dir) : PathBuffer Node where
  trainNum := pb.trainNum
  length := p.length + 1
  tracknodes i := if i ≤ p.length then (nodesOf track src p)[i]?
    else clearTracknodes pb.tracknodes i
  reverse i := if i < p.length then false else pb.reverse i

def PathBuffer.filled (pb : PathBuffer Node) (track : Track Node) (src : Node)
    (k : Nat) (p : List Dir) : PathBuffer Node where
  trainNum := pb.trainNum
  length := k + p.length + 1
  tracknodes i := if k ≤ i ∧ i ≤ k + p.length then (track.roads.visited src p)[i - k]?
    else pb.tracknodes i
  reverse i := if k ≤ i ∧ i < k + p.length then false else pb.reverse i

theorem Pooled.eq_zero {nodes : NodePool Node} {path : Nat → List Dir} {n i : Nat}
    (h : Pooled track src nodes path n) (hi : i < n) (hPath : path i = []) : i = 0 := by
  obtain ⟨f, -, ⟨rfl, -⟩ | ⟨j, d, -, -, hCons⟩⟩ := h i hi
  · rfl
  · exact absurd (hPath.symm.trans hCons) (List.cons_ne_nil _ _).symm

theorem Pooled.fromNode {nodes : NodePool Node} {path : Nat → List Dir} {n i : Nat} {d : Dir}
    {p : List Dir} (h : Pooled track src nodes path n) (hi : i < n) (hPath : path i = d :: p) :
    i ≠ 0 ∧ ∃ j < n, (nodes i).fromNode = some j ∧ path j = p := by
  obtain ⟨f, hNode, ⟨-, hNil⟩ | ⟨j, e, hj, rfl, hCons⟩⟩ := h i hi
  · exact absurd (hNil.symm.trans hPath) (List.cons_ne_nil _ _).symm
  · refine ⟨by omega, j, by omega, by rw [hNode], ?_⟩
    exact (List.cons.inj (hCons.symm.trans hPath)).2

theorem fillPath_eq {nodes : NodePool Node} {path : Nat → List Dir} {n i : Nat} {p : List Dir}
    (h : Pooled track src nodes path n) (hi : i < n) (hPath : path i = p) {fuel k : Nat}
    (hFuel : p.length < fuel) (hLength : k + p.length < maxPathLength) (pb : PathBuffer Node) :
    fillPath nodes 0 fuel (some i) k pb
      = .ok (k + p.length + 1, pb.filled track src k p) := by
  have hNode : (nodes i).tn = some (track.roads.stop src p) ∧ (nodes i).reverse = false := by
    obtain ⟨f, hNode, -⟩ := h i hi
    rw [hNode, hPath]
    exact ⟨rfl, rfl⟩
  induction p generalizing i fuel k pb with
  | nil =>
    obtain ⟨fuel, rfl⟩ := Nat.exists_eq_add_of_lt hFuel
    obtain rfl := h.eq_zero hi hPath
    rw [fillPath, if_pos rfl, if_pos (by simpa using hLength), PathBuffer.filled, hNode.1]
    congr 3
    · funext j
      rw [update_apply]
      rcases eq_or_ne j k with rfl | hj
      · simp [Roads.visited, Roads.stop]
      · rw [if_neg hj, if_neg (by simp; omega)]
    · funext j
      rw [if_neg (by simp)]
  | cons d p ih =>
    obtain ⟨fuel, rfl⟩ := Nat.exists_eq_add_of_lt hFuel
    obtain ⟨hNe, j, hj, hFrom, hPath'⟩ := h.fromNode hi hPath
    rw [List.length_cons] at hLength
    have hNode' : (nodes j).tn = some (track.roads.stop src p) ∧ (nodes j).reverse = false := by
      obtain ⟨f, hNode, -⟩ := h j hj
      rw [hNode, hPath']
      exact ⟨rfl, rfl⟩
    rw [fillPath, if_neg (by simpa using hNe), if_pos (by omega)]
    rw [hFrom, ih hj hPath' (by simp; omega) (by omega) _ hNode', List.length_cons]
    simp only [PathBuffer.filled, hNode.1, hNode.2, List.length_cons]
    congr 2
    · omega
    congr 1
    · simp; omega
    · funext j
      rcases lt_trichotomy j k with hj | rfl | hj
      · rw [if_neg (by omega), if_neg (by omega), update_of_ne hj.ne]
      · rw [if_neg (by omega), if_pos (by omega), update_self, Nat.sub_self]
        rfl
      · obtain ⟨m, rfl⟩ := Nat.exists_eq_add_of_lt hj
        rw [update_of_ne (by omega), show k + m + 1 - (k + 1) = m by omega,
          show k + m + 1 - k = m + 1 by omega, Roads.visited, List.getElem?_cons_succ]
        exact if_congr (by omega) rfl rfl
    · funext j
      rcases eq_or_ne j k with rfl | hj
      · rw [if_neg (by omega), if_pos (by omega), update_self]
      · rw [update_of_ne hj]
        exact if_congr (by omega) rfl rfl

theorem reverseInPlace_eq {fuel i j : Nat} (hFuel : j ≤ i + 2 * fuel)
    (tracknodes : Nat → Option Node) (k : Nat) : reverseInPlace fuel i j tracknodes k =
      if i ≤ k ∧ k ≤ j then tracknodes (i + j - k) else tracknodes k := by
  induction fuel generalizing i j tracknodes with
  | zero =>
    rw [reverseInPlace]
    split_ifs with hk
    · exact congrArg tracknodes (by omega)
    · rfl
  | succ fuel ih =>
    rw [reverseInPlace]
    split_ifs with hij hk hk
    · rw [ih (by omega)]
      rcases eq_or_ne k i with rfl | hi
      · rw [if_neg (by omega), update_of_ne hij.ne, update_self]
        exact congrArg tracknodes (by omega)
      rcases eq_or_ne k j with rfl | hj
      · rw [if_neg (by omega), update_self]
        exact congrArg tracknodes (by omega)
      · rw [if_pos (by omega), update_of_ne (by omega), update_of_ne (by omega)]
        exact congrArg tracknodes (by omega)
    · rw [ih (by omega), if_neg (by omega), update_of_ne (by omega), update_of_ne (by omega)]
    · exact congrArg tracknodes (by omega)
    · rfl

theorem filled_reversed (pb : PathBuffer Node) (p : List Dir) :
    { pb.filled track src 0 p with
        tracknodes := reverseInPlace (0 + p.length + 1) 0 (0 + p.length + 1 - 1)
          (pb.filled track src 0 p).tracknodes } =
      { pb with
        length := p.length + 1
        tracknodes := fun i => if i ≤ p.length then (nodesOf track src p)[i]?
          else pb.tracknodes i
        reverse := fun i => if i < p.length then false else pb.reverse i } := by
  simp only [PathBuffer.filled, Nat.zero_le, true_and, Nat.zero_add, Nat.sub_zero]
  congr 1
  · simp
  · funext i
    rw [reverseInPlace_eq (by omega)]
    rcases Nat.lt_or_ge p.length i with hi | hi
    · rw [if_neg (by omega), if_neg hi.not_ge, if_neg hi.not_ge]
    · rw [if_pos (by omega), if_pos (by omega), if_pos hi, nodesOf,
        List.getElem?_reverse (by simp; omega), Roads.length_visited]
      exact congrArg _ (by omega)

theorem fillPath_ne_heapEmpty (nodes : NodePool Node) (start fuel : Nat) (pn : Option Nat)
    (k : Nat) (pb : PathBuffer Node) : fillPath nodes start fuel pn k pb ≠ .error .heapEmpty := by
  induction fuel generalizing pn k pb with
  | zero => exact fun h => nomatch h
  | succ fuel ih =>
    cases pn with
    | none =>
      rw [fillPath]
      split_ifs <;> exact fun h => nomatch h
    | some i =>
      rw [fillPath]
      split_ifs
      · exact fun h => nomatch h
      · exact fun h => nomatch h
      · exact ih _ _ _
      · exact fun h => nomatch h

/-- Without room for the nodes of the path no call returns. -/
theorem fillPath_ne_ok {nodes : NodePool Node} {path : Nat → List Dir} {n i : Nat} {p : List Dir}
    (h : Pooled track src nodes path n) (hi : i < n) (hPath : path i = p) {k : Nat}
    (hLong : maxPathLength ≤ k + p.length) (fuel : Nat) (pb : PathBuffer Node)
    (r : Nat × PathBuffer Node) : fillPath nodes 0 fuel (some i) k pb ≠ .ok r := by
  induction p generalizing i fuel k pb with
  | nil =>
    obtain rfl := h.eq_zero hi hPath
    cases fuel with
    | zero => exact fun hEq => nomatch hEq
    | succ fuel =>
      have hNoRoom : ¬k < maxPathLength := Nat.not_lt.mpr hLong
      rw [fillPath, if_pos rfl, if_neg hNoRoom]
      exact fun hEq => nomatch hEq
  | cons d p ih =>
    obtain ⟨hNe, j, hj, hFrom, hPath'⟩ := h.fromNode hi hPath
    rw [List.length_cons] at hLong
    cases fuel with
    | zero => exact fun hEq => nomatch hEq
    | succ fuel =>
      rw [fillPath, if_neg (by simpa using hNe)]
      split_ifs
      · rw [hFrom]
        exact ih hj hPath' (by omega) _ _
      · exact fun hEq => nomatch hEq

/-! ## The call as a whole -/

/-- What is done with the result of the search. -/
def storePath (pb : PathBuffer Node) :
    Option Nat × Search Node → Except RouteFault (Int × PathBuffer Node)
  | (none, _) => return (-1, { pb with length := -1 })
  | (some last, s) => do
    let (pathLength, pb) ← fillPath s.nodes 0 (maxPathLength + 1) (some last) 0 pb
    let tracknodes := reverseInPlace pathLength 0 (pathLength - 1) pb.tracknodes
    return (pathLength, { pb with tracknodes := tracknodes })

def PathBuffer.cleared (pb : PathBuffer Node) : PathBuffer Node :=
  { pb with tracknodes := clearTracknodes pb.tracknodes, length := 0 }

section stored

variable {s : Search Node} {path : Nat → List Dir} {f : Frontier} {last : Nat}

theorem storePath_eq (h : Explores track src s path f) (hLt : last < s.numNodes)
    (hLength : (path last).length < maxPathLength) (pb : PathBuffer Node) :
    storePath pb.cleared (some last, s) =
      .ok ((path last).length + 1, pb.withRoute track src (path last)) := by
  rw [storePath, fillPath_eq h.pooled hLt rfl (by omega) (by omega)]
  dsimp only [bind, Except.bind, pure, Except.pure]
  refine congrArg Except.ok (Prod.ext (by simp) ?_)
  exact filled_reversed _ _

theorem storePath_ne_ok (h : Explores track src s path f) (hLt : last < s.numNodes)
    (hLong : maxPathLength ≤ (path last).length) (pb : PathBuffer Node)
    (r : Int × PathBuffer Node) : storePath pb (some last, s) ≠ .ok r := by
  rw [storePath]
  cases hFill : fillPath s.nodes 0 (maxPathLength + 1) (some last) 0 pb with
  | error fault => exact fun hEq => nomatch hEq
  | ok r' => exact absurd hFill (fillPath_ne_ok h.pooled hLt rfl (by omega) _ _ _)

theorem storePath_ne_heapEmpty (pb : PathBuffer Node) :
    storePath pb (some last, s) ≠ .error .heapEmpty := by
  rw [storePath]
  cases hFill : fillPath s.nodes 0 (maxPathLength + 1) (some last) 0 pb with
  | error fault =>
    rintro ⟨⟩
    exact fillPath_ne_heapEmpty _ _ _ _ _ _ hFill
  | ok r => exact fun hEq => nomatch hEq

end stored

/-- The pool with the path node of the source. -/
abbrev startNodes (gNodes : NodePool Node) (src : Node) : NodePool Node :=
  setPathNode gNodes 0 none (some src) 0 0 false

theorem explores_start (track : Track Node) (src : Node) (gNodes : NodePool Node) :
    ∃ pq f, pqPush (startNodes gNodes src) ⟨fun _ => none, 0⟩ 0 = .ok pq ∧
      Frontier.empty.enter track src [] = some f ∧
      Explores track src ⟨startNodes gNodes src, 1, pq⟩ (fun _ => []) f := by
  have hPooled : Pooled track src (startNodes gNodes src) (fun _ => []) 1 := by
    intro i hi
    obtain rfl : i = 0 := Nat.lt_one_iff.mp hi
    refine ⟨none, ?_, Or.inl ⟨rfl, rfl⟩⟩
    rw [startNodes, setPathNode, update_self]
    rfl
  have hEmpty : Heap.Sim (StandsFor (fun _ => []) 1) ⟨fun _ => none, 0⟩ Frontier.empty.queue := by
    refine ⟨rfl, fun i hi hi' => ?_⟩
    have hNone : i ≤ 0 := hi'
    omega
  have hRoom : Frontier.empty.queue.count < 2 ^ pqHeight := by decide
  obtain ⟨pq, queue, hPush, hEnter, hSim⟩ :=
    hEmpty.push hPooled.cost_eq ⟨0, Nat.one_pos, rfl, rfl⟩ hRoom
  have hOne : 1 ≤ exploreSize := by decide
  refine ⟨pq, ⟨1, queue⟩, ?_, ?_, hOne, hPooled, rfl, hSim⟩
  · rw [pqPush, hPush]
  · rw [Frontier.enter, hEnter]
    rfl

section call

variable [DecidableEq Node] [Fintype Node] {owner : Owners Node}
variable {gNodes : NodePool Node} {pb : PathBuffer Node}

omit [Fintype Node] in
theorem planRoute_eq_search {pq : Heap (Option Nat)}
    (hIdx : track.idx (track.reverse src) ≠ track.idx dst)
    (hPush : pqPush (startNodes gNodes src) ⟨fun _ => none, 0⟩ 0 = .ok pq) :
    planRoute track owner gNodes src dst pb =
      search track owner dst pb.trainNum (exploreSize + 1) ⟨startNodes gNodes src, 1, pq⟩
        >>= storePath pb.cleared := by
  rw [planRoute]
  dsimp only
  rw [if_neg hIdx, hPush]
  dsimp only [bind, Except.bind]
  cases search track owner dst pb.trainNum (exploreSize + 1)
    ⟨startNodes gNodes src, 1, pq⟩ with
  | error fault => rfl
  | ok found =>
    obtain ⟨last, s⟩ := found
    cases last with
    | none => rfl
    | some last => rfl

variable (track owner gNodes src dst pb) in
inductive PlanEnded : Prop
  | exhausted {f : Frontier} {closed : Multiset (List Dir)} :
      Reaches track src owner pb.trainNum dst f closed → f.next track src = none →
      planRoute track owner gNodes src dst pb = .error .heapEmpty → PlanEnded
  | overrun {f : Frontier} {p : List Dir} {queue : Heap (List Dir)}
      {closed : Multiset (List Dir)} :
      Reaches track src owner pb.trainNum dst f closed → f.next track src = some (p, queue) →
      track.roads.stop src p ≠ dst →
      exploreSize < f.entered + (continuations track src owner pb.trainNum dst p).length →
      planRoute track owner gNodes src dst pb = .error .poolOverrun → PlanEnded
  | found {f : Frontier} {p : List Dir} {queue : Heap (List Dir)}
      {closed : Multiset (List Dir)} :
      Reaches track src owner pb.trainNum dst f closed → f.next track src = some (p, queue) →
      track.roads.stop src p = dst → f.entered ≤ exploreSize →
      (p.length < maxPathLength → planRoute track owner gNodes src dst pb
        = .ok (p.length + 1, pb.withRoute track src p)) →
      (maxPathLength ≤ p.length → ∀ r, planRoute track owner gNodes src dst pb ≠ .ok r) →
      planRoute track owner gNodes src dst pb ≠ .error .heapEmpty → PlanEnded

variable (owner gNodes pb) in
theorem planRoute_ended (hTrack : track.WellFormed) (hDst : dst ≠ track.reverse src) :
    PlanEnded track src dst owner gNodes pb := by
  have hIdx : track.idx (track.reverse src) ≠ track.idx dst :=
    fun h => hDst (hTrack.idx_injective h).symm
  obtain ⟨pq, f, hPush, hEnter, hStart⟩ := explores_start track src gNodes
  have hPlan : planRoute track owner gNodes src dst pb = _ := planRoute_eq_search hIdx hPush
  have hReaches : Reaches track src owner pb.trainNum dst f 0 := .start hEnter
  have hSearch := search_ended hTrack hStart hReaches (Nat.lt_succ_self exploreSize)
  generalize search track owner dst pb.trainNum _ _ = ended at hPlan hSearch
  cases hSearch with
  | exhausted hReaches hNone => exact .exhausted hReaches hNone hPlan
  | overrun hReaches hNext hStop hFull => exact .overrun hReaches hNext hStop hFull hPlan
  | found hReaches hNext hStop hExplores hLt =>
    refine .found hReaches hNext hStop (hExplores.entered ▸ hExplores.numNodes_le) ?_ ?_ ?_
    · intro hLength
      exact hPlan.trans (storePath_eq hExplores hLt hLength pb)
    · intro hLong r
      rw [hPlan]
      exact storePath_ne_ok hExplores hLt hLong _ r
    · rw [hPlan]
      exact storePath_ne_heapEmpty _

variable (gNodes) in
/-- The search follows the frontier as long as the pool has room. -/
theorem planRoute_of_reaches (hTrack : track.WellFormed) (hDst : dst ≠ track.reverse src)
    {f : Frontier} {p : List Dir} {queue : Heap (List Dir)} {closed : Multiset (List Dir)}
    (hReaches : Reaches track src owner pb.trainNum dst f closed)
    (hNext : f.next track src = some (p, queue)) (hStop : track.roads.stop src p = dst)
    (hRoom : f.entered ≤ exploreSize) (hLength : p.length < maxPathLength) :
    planRoute track owner gNodes src dst pb
      = .ok (p.length + 1, pb.withRoute track src p) := by
  have hIdx : track.idx (track.reverse src) ≠ track.idx dst :=
    fun h => hDst (hTrack.idx_injective h).symm
  obtain ⟨pq, f₀, hPush, hEnter, hStart⟩ := explores_start track src gNodes
  obtain ⟨s, path, hExplores, hSearch⟩ := hReaches.search_eq hTrack hEnter hStart hRoom
  obtain ⟨fuel, hFuel⟩ : ∃ fuel, exploreSize + 1 = fuel + 1 + closed.card := by
    obtain ⟨-, hEntered⟩ := hReaches.popped hTrack hNext
    rw [Multiset.card_add] at hEntered
    exact ⟨exploreSize - closed.card, by omega⟩
  rw [planRoute_eq_search hIdx hPush, hFuel, hSearch]
  cases search_round hTrack hExplores hReaches with
  | exhausted hNone => exact nomatch hNone.symm.trans hNext
  | @arrived s' path' last _ hNext' _ hExplores' hLt hFound =>
    obtain ⟨rfl, rfl⟩ := Prod.mk.inj (Option.some.inj (hNext'.symm.trans hNext))
    rw [hFound]
    exact storePath_eq hExplores' hLt hLength pb
  | overrun hNext' hStop' =>
    obtain ⟨rfl, rfl⟩ := Prod.mk.inj (Option.some.inj (hNext'.symm.trans hNext))
    exact absurd hStop hStop'
  | continued hNext' hStop' =>
    obtain ⟨rfl, rfl⟩ := Prod.mk.inj (Option.some.inj (hNext'.symm.trans hNext))
    exact absurd hStop hStop'

variable {p q t : List Dir} {f : Frontier} {rest closed : Multiset (List Dir)} {trainNum : Int}

theorem Popped.isRoute {hTrack : track.WellFormed} {key : List Dir → Int}
    (h : Popped owner trainNum src dst hTrack key t rest closed)
    (hStop : track.roads.stop src t = dst) : IsRoute track owner trainNum src dst t :=
  .of_searchRoads ((routeTree_below_iff hTrack).mp (h.run.below_root t (by simp))) hStop

theorem Reaches.no_route (hTrack : track.WellFormed)
    (h : Reaches track src owner trainNum dst f closed) (hNext : f.next track src = none) :
    ¬IsRoute track owner trainNum src dst p := by
  intro hp
  have hRun := (h.searches hTrack).run
  rw [Frontier.content_of_next_none hNext] at hRun
  obtain ⟨q, hWalk, hStop, -⟩ := hp.exists_searchRoads hTrack
  rcases hRun.covered ((routeTree_below_iff hTrack).mpr hWalk) with hClosed | ⟨a, ha, -⟩
  · exact hRun.not_goal q hClosed hStop
  · exact Multiset.notMem_zero a ha

/-! ## Ending inside the buffers -/

/-- The call returns, and it returns -1 exactly where there is no route. -/
def EndsInside (track : Track Node) (owner : Owners Node) (gNodes : NodePool Node)
    (src dst : Node) (pb : PathBuffer Node) : Prop :=
  ∃ r pb', planRoute track owner gNodes src dst pb = .ok (r, pb') ∧
    ((r = -1 ∧ pb'.length = -1) ↔ ¬∃ p, IsRoute track owner pb.trainNum src dst p)

variable (owner gNodes src dst pb) in
theorem endsInside_iff (hTrack : track.WellFormed) (hDst : dst ≠ track.reverse src) :
    EndsInside track owner gNodes src dst pb ↔
      ArrivesInside track src owner pb.trainNum dst := by
  constructor
  · rintro ⟨r, pb', hPlan, -⟩
    cases planRoute_ended owner gNodes pb hTrack hDst with
    | exhausted _ _ hFault => exact nomatch hPlan.symm.trans hFault
    | overrun _ _ _ _ hFault => exact nomatch hPlan.symm.trans hFault
    | @found f p queue closed hReaches hNext hStop hRoom _ hLong =>
      refine ⟨f, closed, p, queue, hReaches, hNext, hStop, hRoom, ?_⟩
      by_contra hLength
      exact hLong (Nat.not_lt.mp hLength) _ hPlan
  · rintro ⟨f, closed, p, queue, hReaches, hNext, hStop, hRoom, hLength⟩
    refine ⟨_, _, planRoute_of_reaches gNodes hTrack hDst hReaches hNext hStop hRoom hLength,
      iff_of_false ?_ fun hNone => hNone ⟨p, (hReaches.popped hTrack hNext).1.isRoute hStop⟩⟩
    rintro ⟨hEq, -⟩
    omega

/-- The walks that get a path node when the search closes those with a distance that
meets `P`. -/
def pathNodes (track : Track Node) (owner : Owners Node) (trainNum : Int) (src dst : Node)
    (P : Int → Prop) : Set (List Dir) :=
  {p | p = [] ∨ ∃ d q, p = d :: q ∧ (searchRoads track owner trainNum dst).IsWalk src p ∧
    P (track.roads.distance src q)}

/-- A walk that is no longer than a shortest route still fits a machine integer with one more
edge. -/
def DistancesFit (track : Track Node) (owner : Owners Node) (trainNum : Int) (src dst : Node) :
    Prop :=
  ∀ p, IsShortest track owner trainNum src dst p →
    ∀ q ∈ pathNodes track owner trainNum src dst (· ≤ track.roads.distance src p),
      FitsInt (track.roads.distance src q)

theorem routeTree_created (hTrack : track.WellFormed) (P : Int → Prop) :
    (routeTree owner trainNum src dst hTrack).created P
      = pathNodes track owner trainNum src dst P := by
  apply (Roads.tree_created _ P).trans
  simp only [pathNodes, Roads.restrict_distance]

theorem DistancesFit.of_le (hTrack : track.WellFormed) {longest : Int}
    (hLongest : ∀ n d, track.dist n d ≤ longest)
    (hRoute : IsRoute track owner trainNum src dst p)
    (hFits : track.roads.distance src p + longest < 2 ^ 31) :
    DistancesFit track owner trainNum src dst := by
  rintro g hShortest q (rfl | ⟨d, q, rfl, hWalk, hLe⟩)
  · exact (by decide : FitsInt 0)
  · have hNonneg := track.roads.distance_nonneg (fun n d _ => hTrack.dist_nonneg n d)
      (Roads.IsWalk.of_restrict _ hWalk)
    have hEdge := hLongest (track.roads.stop src q) d
    have hMin := hShortest.le p hRoute
    have hCons : track.roads.distance src (d :: q)
      = track.roads.distance src q + track.dist (track.roads.stop src q) d := rfl
    exact ⟨by omega, by omega⟩

/-- Some shortest route ends where it first comes to its destination. -/
theorem IsRoute.exists_goal (hTrack : track.WellFormed)
    (hRoute : IsRoute track owner trainNum src dst p) :
    ∃ g, IsShortest track owner trainNum src dst g ∧
      (routeTree owner trainNum src dst hTrack).Below [] g := by
  classical
  have hSome : ∃ k : Nat, ∃ g, (searchRoads track owner trainNum dst).IsWalk src g ∧
      track.roads.stop src g = dst ∧ (track.roads.distance src g).toNat = k := by
    obtain ⟨g, hWalk, hStop, -⟩ := hRoute.exists_searchRoads hTrack
    exact ⟨_, g, hWalk, hStop, rfl⟩
  obtain ⟨g, hWalk, hStop, hCost⟩ := Nat.find_spec hSome
  refine ⟨g, ⟨.of_searchRoads hWalk hStop, fun q hq => ?_⟩, (routeTree_below_iff hTrack).mpr hWalk⟩
  obtain ⟨q', hWalk', hStop', hLe⟩ := hq.exists_searchRoads hTrack
  have hMin := Nat.find_min' hSome ⟨q', hWalk', hStop', rfl⟩
  have hNonneg := track.roads.distance_nonneg (v := src) (p := q')
    (fun n d _ => hTrack.dist_nonneg n d) (Roads.IsWalk.of_restrict _ hWalk')
  omega

namespace Popped

variable {hTrack : track.WellFormed}

theorem by_distance (h : Popped owner trainNum src dst hTrack (walkCost track src) t rest closed)
    (hFits : DistancesFit track owner trainNum src dst)
    (hRoute : IsRoute track owner trainNum src dst p) :
    Popped owner trainNum src dst hTrack (routeTree owner trainNum src dst hTrack).cost t rest
      closed := by
  obtain ⟨g, hShortest, hBelow⟩ := hRoute.exists_goal hTrack
  have hKey (u : List Dir) (hu : u ∈ (routeTree owner trainNum src dst hTrack).created
      (· ≤ (routeTree owner trainNum src dst hTrack).cost g)) :
      walkCost track src u = (routeTree owner trainNum src dst hTrack).cost u := by
    rw [routeTree_created, routeTree_cost] at hu
    rw [routeTree_cost]
    exact wrap32_of_fits (hFits g hShortest u hu)
  have hRun := h.run.of_key hBelow hShortest.stop hKey
  refine ⟨hRun, fun u hu => ?_⟩
  rw [← hKey t (hRun.mem_created hBelow hShortest.stop (by simp)),
    ← hKey u (hRun.mem_created hBelow hShortest.stop (by simp [hu]))]
  exact h.le u hu

section distance

variable (h : Popped owner trainNum src dst hTrack (routeTree owner trainNum src dst hTrack).cost
  t rest closed)
include h

theorem distance_le (hWalk : (searchRoads track owner trainNum dst).IsWalk src q)
    (hStop : track.roads.stop src q = dst) :
    track.roads.distance src t ≤ track.roads.distance src q := by
  have hLe := h.run.cost_le_goal h.le ((routeTree_below_iff hTrack).mpr hWalk) hStop
  rwa [routeTree_cost, routeTree_cost] at hLe

theorem closed_le (hWalk : (searchRoads track owner trainNum dst).IsWalk src q)
    (hStop : track.roads.stop src q = dst) (u : List Dir) (hu : u ∈ t ::ₘ closed) :
    (routeTree owner trainNum src dst hTrack).cost u ≤ track.roads.distance src q := by
  rcases Multiset.mem_cons.mp hu with rfl | hu
  · exact (routeTree_cost hTrack).trans_le (h.distance_le hWalk hStop)
  · exact (h.run.closed_le_goal ((routeTree_below_iff hTrack).mpr hWalk) hStop u hu).trans_eq
      (routeTree_cost hTrack)

theorem isShortest (hStop : track.roads.stop src t = dst) :
    IsShortest track owner trainNum src dst t := by
  refine ⟨h.isRoute hStop, fun q hq => ?_⟩
  obtain ⟨q', hWalk', hStop', hLe⟩ := hq.exists_searchRoads hTrack
  exact (h.distance_le hWalk' hStop').trans hLe

theorem free_loop (hStop : track.roads.stop src t = dst) (hLong : ¬t.length < maxPathLength) :
    ∃ q p', q ≠ [] ∧ (searchRoads track owner trainNum dst).IsWalk src p' ∧
      (searchRoads track owner trainNum dst).IsWalk (track.roads.stop src p') q ∧
      track.roads.stop (track.roads.stop src p') q = track.roads.stop src p' ∧
      track.roads.distance (track.roads.stop src p') q = 0 ∧
      track.roads.distance src p' ≤ track.roads.distance src t := by
  have hNodup : ¬((searchRoads track owner trainNum dst).visited src t).Nodup := by
    intro hNodup
    have hLe := (Roads.length_le_card _ hNodup).trans hTrack.card_le
    exact hLong hLe
  have hWalk := (routeTree_below_iff hTrack).mp (h.run.below_root t (by simp))
  obtain ⟨q, p', hq, hp', hWalk', hLoop⟩ := Roads.exists_free_loop _
    (fun n d _ => hTrack.dist_nonneg n d) hWalk hNodup fun p' hp' hEq => by
      simp only [Roads.restrict_stop, Roads.restrict_distance] at hEq ⊢
      exact h.distance_le hp' (hEq.trans hStop)
  simp only [Roads.restrict_stop, Roads.restrict_distance] at hWalk' hLoop
  exact ⟨q, p', hq, hp', hWalk', hLoop⟩

end distance

end Popped

/-- The call returns the length of a shortest route, and the nodes of the route are in the
buffer. -/
def ReturnsShortest (track : Track Node) (owner : Owners Node) (gNodes : NodePool Node)
    (src dst : Node) (pb : PathBuffer Node) : Prop :=
  ∃ p pb', IsShortest track owner pb.trainNum src dst p ∧
    planRoute track owner gNodes src dst pb = .ok (p.length + 1, pb') ∧
    pb'.length = p.length + 1 ∧
    ∀ i ≤ p.length, pb'.tracknodes i = (nodesOf track src p)[i]?

variable (owner gNodes src dst pb) in
/-- The heap never asks for more than the pool has, so that only the pool is a condition. -/
theorem planRoute_shortest (hTrack : track.WellFormed) (hLoop : track.NoFreeLoop)
    (hDst : dst ≠ track.reverse src)
    (hRoute : ∃ q, IsRoute track owner pb.trainNum src dst q)
    (hFits : DistancesFit track owner pb.trainNum src dst)
    (hPool : planRoute track owner gNodes src dst pb ≠ .error .poolOverrun) :
    ReturnsShortest track owner gNodes src dst pb := by
  obtain ⟨q, hq⟩ := hRoute
  cases planRoute_ended owner gNodes pb hTrack hDst with
  | exhausted hReaches hNext => exact absurd hq (hReaches.no_route hTrack hNext)
  | overrun _ _ _ _ hPlan => exact absurd hPlan hPool
  | @found f t queue closed hReaches hNext hStop _ hPlan =>
    have hPopped := (hReaches.popped hTrack hNext).1.by_distance hFits hq
    refine ⟨t, _, hPopped.isShortest hStop, hPlan ?_, rfl, fun i hi => if_pos hi⟩
    by_contra hLong
    obtain ⟨q, p', hNe, -, hWalk, hBack, hFree, -⟩ := hPopped.free_loop hStop hLong
    exact hLoop _ q hNe (Roads.IsWalk.of_restrict _ hWalk) hBack hFree

/-! ## How many walks are looked at -/

section few

variable (hTrack : track.WellFormed) (hFits : DistancesFit track owner pb.trainNum src dst)
include hTrack hFits

variable (gNodes) in
theorem planRoute_of_few (hDst : dst ≠ track.reverse src)
    (hp : IsRoute track owner pb.trainNum src dst p)
    (hFew : (pathNodes track owner pb.trainNum src dst (· ≤ track.roads.distance src p)).encard
      ≤ exploreSize) : ∃ t, IsShortest track owner pb.trainNum src dst t ∧
      planRoute track owner gNodes src dst pb = .ok (t.length + 1, pb.withRoute track src t) := by
  obtain ⟨q, hWalk, hStop, hLe⟩ := hp.exists_searchRoads hTrack
  rw [← routeTree_created hTrack] at hFew
  cases planRoute_ended owner gNodes pb hTrack hDst with
  | exhausted hReaches hNext => exact absurd hp (hReaches.no_route hTrack hNext)
  | overrun hReaches hNext hNe hFull =>
    obtain ⟨hPopped, hEntered⟩ := hReaches.popped hTrack hNext
    have hRun := hPopped.by_distance hFits hp
    have hCard := (hRun.run.expand hRun.le hNe).card_le_created
      (P := (· ≤ track.roads.distance src p))
      fun u hu => (hRun.closed_le hWalk hStop u hu).trans hLe
    rw [SearchTree.Run.expand_eq, Multiset.card_add, Multiset.coe_card, ← hEntered] at hCard
    have hAll := hCard.trans hFew
    rw [Nat.cast_le, ← continuations_eq hTrack] at hAll
    omega
  | @found f t queue closed hReaches hNext hGoal _ hPlan =>
    have hPopped := (hReaches.popped hTrack hNext).1.by_distance hFits hp
    refine ⟨t, hPopped.isShortest hGoal, hPlan ?_⟩
    by_contra hLong
    obtain ⟨q', p', hNe, hp', hq', hBack, hFree, hCost⟩ := hPopped.free_loop hGoal hLong
    have hInfinite : ((routeTree owner pb.trainNum src dst hTrack).created
        (· ≤ track.roads.distance src p)).Infinite := by
      refine Roads.tree_created_infinite _ hNe hp' (by simpa using hq') (by simpa using hBack)
        (by simpa using hFree) ?_
      rw [Roads.restrict_distance]
      exact hCost.trans ((hPopped.distance_le hWalk hStop).trans hLe)
    rw [hInfinite.encard_eq] at hFew
    exact absurd hFew (by simp)

/-- Only the walks exactly as long as a shortest route depend on the order in which the heap keeps
walks of the same length. -/
theorem ArrivesInside.few (h : ArrivesInside track src owner pb.trainNum dst) :
    ∃ p, IsShortest track owner pb.trainNum src dst p ∧
      (pathNodes track owner pb.trainNum src dst (· < track.roads.distance src p)).encard
        ≤ exploreSize := by
  obtain ⟨f, closed, t, queue, hReaches, hNext, hStop, hRoom, -⟩ := h
  obtain ⟨hPopped, hEntered⟩ := hReaches.popped hTrack hNext
  have hRun := hPopped.by_distance hFits (hPopped.isRoute hStop)
  refine ⟨t, hRun.isShortest hStop, ?_⟩
  rw [← routeTree_created hTrack]
  refine (hRun.run.created_le_card fun u hBelow hu => ?_).trans
    (Nat.cast_le.mpr (hEntered ▸ hRoom))
  exact hRun.run.mem_closed_of_cost_lt hRun.le hBelow (hu.trans_eq (routeTree_cost hTrack).symm)

end few

end call

abbrev LineNode := Bool × Bool

/-- Each place has an entry to the line and an exit from it. -/
def shortLine : Track LineNode where
  idx n := 2 * n.1.toNat + n.2.toNat
  type n := if n.1 = n.2 then .enter else .exit
  num n := 2 * n.1.toNat + n.2.toNat
  reverse n := (n.1, !n.2)
  dest n d := if n.1 = n.2 ∧ d = dirAhead then some (!n.1, n.2) else none
  dist _ _ := 100

def lineEntry : LineNode := (false, false)
def lineExit : LineNode := (true, false)
def otherEntry : LineNode := (true, true)

theorem shortLine_wellFormed : shortLine.WellFormed where
  idx_injective := by decide
  reverse_involutive := (by decide : ∀ n, shortLine.reverse (shortLine.reverse n) = n)
  reverse_ne := by decide
  dest_isSome := by decide
  dest_ne := by decide
  dist_nonneg := by decide
  card_le := by decide

theorem shortLine_noFreeLoop : shortLine.NoFreeLoop := by
  intro n p hNe hWalk hBack
  have hRank := shortLine.roads.rank_add_length_le (fun n => if n.1 = n.2 then 0 else 1)
    (by decide) hWalk
  rw [hBack] at hRank
  have := List.length_pos_of_ne_nil hNe
  omega

def blankPool : NodePool LineNode := fun _ => ⟨none, none, 0, 0, false⟩
def blankBuffer : PathBuffer LineNode := ⟨0, 0, fun _ => none, fun _ => false⟩

theorem shortLine_isRoute :
    IsRoute shortLine (Owners.free LineNode) 0 lineEntry lineExit [dirAhead] :=
  ⟨⟨by decide, trivial⟩, rfl⟩

theorem shortLine_distancesFit :
    DistancesFit shortLine (Owners.free LineNode) 0 lineEntry lineExit :=
  .of_le shortLine_wellFormed (fun _ _ => Int.le_refl 100) shortLine_isRoute (by decide)

theorem planRoute_shortest_shortLine : ReturnsShortest shortLine (Owners.free LineNode) blankPool
    lineEntry lineExit blankBuffer := by
  refine planRoute_shortest lineEntry lineExit (Owners.free LineNode) blankPool blankBuffer
    shortLine_wellFormed shortLine_noFreeLoop (by decide) ⟨_, shortLine_isRoute⟩
    shortLine_distancesFit fun h => ?_
  obtain ⟨pb', hPlan⟩ : ∃ pb', planRoute shortLine (Owners.free LineNode) blankPool lineEntry
    lineExit blankBuffer = .ok (2, pb') := ⟨_, rfl⟩
  exact nomatch hPlan.symm.trans h

/-- The walk ahead is handed out second. -/
theorem shortLine_arrivesInside :
    ArrivesInside shortLine lineEntry (Owners.free LineNode) 0 lineExit := by
  refine ⟨_, _, [dirAhead], _, .next (.start rfl) rfl (by decide) rfl, rfl, rfl, ?_, ?_⟩
  · decide
  · decide

theorem endsInside_iff_shortLine :
    ArrivesInside shortLine lineEntry (Owners.free LineNode) 0 lineExit ∧
      EndsInside shortLine (Owners.free LineNode) blankPool lineEntry lineExit blankBuffer :=
  ⟨shortLine_arrivesInside, (endsInside_iff lineEntry lineExit (Owners.free LineNode) blankPool
    blankBuffer shortLine_wellFormed (by decide)).mpr shortLine_arrivesInside⟩

/-- No route leads from one entry to the other, and the search stops at an empty heap. -/
theorem not_endsInside :
    ¬EndsInside shortLine (Owners.free LineNode) blankPool lineEntry otherEntry blankBuffer := by
  rintro ⟨r, pb', hPlan, -⟩
  have hStuck : planRoute shortLine (Owners.free LineNode) blankPool lineEntry otherEntry
    blankBuffer = .error .heapEmpty := rfl
  exact nomatch hPlan.symm.trans hStuck

/-- A place and a direction. -/
abbrev FarNode := (Bool × Bool) × Bool

def farStart : FarNode := ((false, false), false)
def farStraight : FarNode := ((false, true), false)
def farSiding : FarNode := ((true, false), false)
def farFinish : FarNode := ((true, true), false)

/-- Two legs of 1200 km lead straight on, and one of 1300 km leads through the siding. -/
def farTrack : Track FarNode where
  idx n := 4 * n.1.1.toNat + 2 * n.1.2.toNat + n.2.toNat
  type n := if n = farStart then .branch
    else if n = farStraight ∨ n = farSiding then .sensor else .exit
  num _ := 0
  reverse n := (n.1, !n.2)
  dest n d := if n = farStart then if d = dirStraight then some farStraight else some farSiding
    else if n = farStraight ∨ n = farSiding then some farFinish else none
  dist n d := if n = farStart then if d = dirStraight then 1200000000 else 1300000000
    else if n = farStraight then 1200000000 else 100

theorem farTrack_wellFormed : farTrack.WellFormed where
  idx_injective := by decide
  reverse_involutive := (by decide : ∀ n, farTrack.reverse (farTrack.reverse n) = n)
  reverse_ne := by decide
  dest_isSome := by decide
  dest_ne := by decide
  dist_nonneg := by decide
  card_le := by decide

theorem farTrack_intDist : farTrack.IntDist := by
  change ∀ n d, FitsInt (farTrack.dist n d)
  decide

theorem farTrack_noFreeLoop : farTrack.NoFreeLoop := by
  intro n p hNe hWalk hBack
  have hRank := farTrack.roads.rank_add_length_le
    (fun n => if n = farStart then 0 else if n = farFinish then 2 else 1) (by decide) hWalk
  rw [hBack] at hRank
  have := List.length_pos_of_ne_nil hNe
  omega

theorem farTrack_isRoute :
    IsRoute farTrack (Owners.free FarNode) 0 farStart farFinish [dirAhead, dirCurved] :=
  ⟨⟨by decide, by decide, trivial⟩, rfl⟩

def farPool : NodePool FarNode := fun _ => ⟨none, none, 0, 0, false⟩
def farBuffer : PathBuffer FarNode := ⟨0, 0, fun _ => none, fun _ => false⟩

/-- The two legs straight on add up to a negative integer. -/
theorem not_returnsShortest : farTrack.WellFormed ∧ farTrack.NoFreeLoop ∧ farTrack.IntDist ∧
    (∃ q, IsRoute farTrack (Owners.free FarNode) 0 farStart farFinish q) ∧
    farFinish ≠ farTrack.reverse farStart ∧
    planRoute farTrack (Owners.free FarNode) farPool farStart farFinish farBuffer
      ≠ .error .poolOverrun ∧
    ¬ReturnsShortest farTrack (Owners.free FarNode) farPool farStart farFinish farBuffer := by
  obtain ⟨pb', hPlan, hStraight⟩ : ∃ pb', planRoute farTrack (Owners.free FarNode) farPool farStart
      farFinish farBuffer = .ok (3, pb') ∧ pb'.tracknodes 1 = some farStraight :=
    ⟨_, rfl, rfl⟩
  refine ⟨farTrack_wellFormed, farTrack_noFreeLoop, farTrack_intDist, ⟨_, farTrack_isRoute⟩,
    by decide, (fun h => nomatch hPlan.symm.trans h), ?_⟩
  rintro ⟨p, pb, hShortest, hPlan', -, hNodes⟩
  obtain ⟨hLength, rfl⟩ := Prod.mk.inj (Except.ok.inj (hPlan.symm.trans hPlan'))
  have hTwo : p.length = 2 := by omega
  have hSecond := hStraight.symm.trans (hNodes 1 (by omega))
  have hLe := hShortest.le _ farTrack_isRoute
  obtain ⟨a, b, rfl⟩ := List.length_eq_two.mp hTwo
  have hLong : ∀ a b, some farStraight = (nodesOf farTrack farStart [a, b])[1]? →
      farTrack.roads.distance farStart [dirAhead, dirCurved]
        < farTrack.roads.distance farStart [a, b] := by
    decide
  exact absurd (hLong a b hSecond) (not_lt.mpr hLe)

end TrainKernel.User
