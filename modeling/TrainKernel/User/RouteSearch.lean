import TrainKernel.User.Frontier

/-!
# The route search keeps a frontier of walks

Path nodes stand for walks, and the heap of the search for the queue of the frontier. Each round
hands out a walk and puts its continuations into the queue, so that the search ends in one of three
ways: with a route, with nothing left to look at, or with a full pool.
-/

namespace TrainKernel.User

open Function Library.Int32 Library.Walks Library.BestFirst

variable {Node : Type} {track : Track Node}

/-- The pool up to `n` stands for the walks `path`, and path nodes point at earlier ones. -/
def Pooled (track : Track Node) (src : Node) (nodes : NodePool Node) (path : Nat → List Dir)
    (n : Nat) : Prop :=
  ∀ i < n, ∃ f, nodes i = ⟨f, some (track.roads.stop src (path i)),
    walkCost track src (path i), (path i).length, false⟩ ∧
    (i = 0 ∧ path i = [] ∨ ∃ j d, j < i ∧ f = some j ∧ path i = d :: path j)

/-- The path node in a slot of the heap stands for the walk. -/
def StandsFor (path : Nat → List Dir) (n : Nat) (v : Option Nat) (p : List Dir) : Prop :=
  ∃ i < n, v = some i ∧ path i = p

/-- The search stands for the frontier, and its path nodes for the walks `path`. -/
structure Explores (track : Track Node) (src : Node) (s : Search Node) (path : Nat → List Dir)
    (f : Frontier) : Prop where
  numNodes_le : s.numNodes ≤ exploreSize
  pooled : Pooled track src s.nodes path s.numNodes
  entered : s.numNodes = f.entered
  sim : Heap.Sim (StandsFor path s.numNodes) s.pq f.queue

theorem Pooled.nodes_eq {src : Node} {nodes : NodePool Node} {path : Nat → List Dir} {n i : Nat}
    (h : Pooled track src nodes path n) (hi : i < n) :
    (nodes i).tn = some (track.roads.stop src (path i)) ∧
      (nodes i).cost = walkCost track src (path i) ∧ (nodes i).length = (path i).length := by
  obtain ⟨f, hEq, -⟩ := h i hi
  rw [hEq]
  exact ⟨rfl, rfl, rfl⟩

theorem Pooled.cost_eq {src : Node} {nodes : NodePool Node} {path : Nat → List Dir} {n : Nat}
    (h : Pooled track src nodes path n) (v : Option Nat) (p : List Dir)
    (hStands : StandsFor path n v p) : nodeCost nodes v = walkCost track src p := by
  obtain ⟨i, hi, rfl, rfl⟩ := hStands
  exact (h.nodes_eq hi).2.1

theorem Pooled.succ {src : Node} {nodes : NodePool Node} {path : Nat → List Dir} {n popd : Nat}
    (h : Pooled track src nodes path n) (hPopd : popd < n) (d : Dir) :
    Pooled track src (setPathNode nodes n (some popd)
        (some (track.roads.stop src (d :: path popd)))
        (walkCost track src (d :: path popd)) ((path popd).length + 1) false)
      (update path n (d :: path popd)) (n + 1) := by
  intro i hi
  rcases eq_or_ne i n with rfl | hEq
  · refine ⟨some popd, ?_, Or.inr ⟨popd, d, hPopd, rfl, ?_⟩⟩
    · rw [setPathNode, update_self, update_self, List.length_cons]
      rfl
    · rw [update_self, update_of_ne hPopd.ne]
  · obtain ⟨f, hNode, hFrom⟩ := h i (by omega)
    refine ⟨f, ?_, hFrom.imp ?_ ?_⟩
    · rw [setPathNode, update_of_ne hEq, update_of_ne hEq, hNode]
    · rintro ⟨rfl, hNil⟩
      exact ⟨rfl, by rw [update_of_ne hEq, hNil]⟩
    · rintro ⟨j, e, hj, rfl, hCons⟩
      exact ⟨j, e, hj, rfl, by rw [update_of_ne hEq, update_of_ne (by omega), hCons]⟩

/-- The path nodes for several continuations of the walk, one after the other. -/
def followAll (track : Track Node) (popd : Nat) (tn : Node) :
    List Dir → Search Node → Except RouteFault (Search Node)
  | [], s => .ok s
  | d :: ds, s => do
    let s ← follow s popd (track.dest tn d) (track.dist tn d)
    followAll track popd tn ds s

namespace Explores

variable {src : Node} {s : Search Node} {path : Nat → List Dir} {f : Frontier} {popd : Nat}

/-- The path node that is popped stands for the walk that is handed out. -/
theorem pqPop_cases (h : Explores track src s path f) :
    f.next track src = none ∧ pqPop s.nodes s.pq = .error .heapEmpty ∨
      ∃ popd pq queue, pqPop s.nodes s.pq = .ok (some popd, pq) ∧ popd < s.numNodes ∧
        f.next track src = some (path popd, queue) ∧
        Explores track src { s with pq := pq } path ⟨f.entered, queue⟩ := by
  cases hNext : f.next track src with
  | none =>
    refine Or.inl ⟨rfl, ?_⟩
    rw [pqPop, h.sim.pop_none hNext]
  | some handed =>
    obtain ⟨p, queue⟩ := handed
    obtain ⟨v, pq, hPop, ⟨popd, hLt, rfl, rfl⟩, hSim⟩ :=
      h.sim.pop_some h.pooled.cost_eq hNext
    refine Or.inr ⟨popd, pq, queue, ?_, hLt, rfl, h.numNodes_le, h.pooled, h.entered, hSim⟩
    rw [pqPop, hPop]

/-- A path node is made for one continuation of the walk that was popped. -/
theorem follow_cases (h : Explores track src s path f) (hPopd : popd < s.numNodes)
    {t : List Dir} (hPath : path popd = t) {d : Dir}
    (hDest : (track.dest (track.roads.stop src t) d).isSome)
    (hRoom : s.numNodes < exploreSize → f.queue.count < 2 ^ pqHeight) :
    s.numNodes = exploreSize ∧
      follow s popd (track.dest (track.roads.stop src t) d)
        (track.dist (track.roads.stop src t) d) = .error .poolOverrun ∨
      ∃ s' f', follow s popd (track.dest (track.roads.stop src t) d)
          (track.dist (track.roads.stop src t) d) = .ok s' ∧
        f.enter track src (d :: t) = some f' ∧ s'.numNodes = s.numNodes + 1 ∧
        f'.queue.count = f.queue.count + 1 ∧
        Explores track src s' (update path s.numNodes (d :: t)) f' := by
  subst hPath
  rcases h.numNodes_le.eq_or_lt with hFull | hLt
  · exact Or.inl ⟨hFull, if_neg (by omega)⟩
  obtain ⟨m, hm⟩ := Option.isSome_iff_exists.mp hDest
  have hStop : track.roads.stop src (d :: path popd) = m := by
    rw [Roads.stop, Track.roads_target hm]
  obtain ⟨-, hCost, hLength⟩ := h.pooled.nodes_eq hPopd
  let nodes := setPathNode s.nodes s.numNodes (some popd) (some m)
    (wrap32 ((s.nodes popd).cost + track.dist (track.roads.stop src (path popd)) d))
    ((s.nodes popd).length + 1) false
  have hPooled : Pooled track src nodes (update path s.numNodes (d :: path popd))
      (s.numNodes + 1) := by
    have hSucc := h.pooled.succ hPopd d
    rw [hStop, ← hLength, walkCost_cons] at hSucc
    simp only [nodes, hCost]
    exact hSucc
  have hOld (v : Option Nat) (p : List Dir) (hStands : StandsFor path s.numNodes v p) :
      StandsFor (update path s.numNodes (d :: path popd)) (s.numNodes + 1) v p := by
    obtain ⟨i, hi, rfl, rfl⟩ := hStands
    exact ⟨i, by omega, rfl, update_of_ne hi.ne _ _⟩
  have hNew : StandsFor (update path s.numNodes (d :: path popd)) (s.numNodes + 1)
      (some s.numNodes) (d :: path popd) :=
    ⟨s.numNodes, Nat.lt_succ_self _, rfl, update_self ..⟩
  obtain ⟨pq, queue, hPush, hEnter, hSim⟩ :=
    (h.sim.mono fun v _ p => hOld v p).push hPooled.cost_eq hNew (hRoom hLt)
  refine Or.inr ⟨⟨nodes, s.numNodes + 1, pq⟩, ⟨f.entered + 1, queue⟩, ?_, ?_, rfl, ?_, hLt,
    hPooled, congrArg Nat.succ h.entered, hSim⟩
  · rw [follow, if_pos hLt, hm]
    change (do
      let pq ← pqPush nodes s.pq s.numNodes
      return (⟨nodes, s.numNodes + 1, pq⟩ : Search Node)) = _
    rw [pqPush, hPush]
    rfl
  · rw [Frontier.enter, hEnter]
    rfl
  · exact Heap.count_of_push hEnter

theorem followAll_cases (h : Explores track src s path f) (hPopd : popd < s.numNodes)
    {t : List Dir} (hPath : path popd = t) {ds : List Dir}
    (hDest : ∀ d ∈ ds, (track.dest (track.roads.stop src t) d).isSome)
    (hRoom : ∀ k < ds.length, s.numNodes + k < exploreSize → f.queue.count + k < 2 ^ pqHeight) :
    exploreSize < s.numNodes + ds.length ∧
      followAll track popd (track.roads.stop src t) ds s = .error .poolOverrun ∨
      ∃ s' path' f', followAll track popd (track.roads.stop src t) ds s = .ok s' ∧
        f.enterAll track src (ds.map (· :: t)) = some f' ∧ Explores track src s' path' f' := by
  induction ds generalizing s path f with
  | nil => exact Or.inr ⟨s, path, f, rfl, rfl, h⟩
  | cons d ds ih =>
    rw [followAll, List.length_cons, List.map_cons, Frontier.enterAll]
    rcases h.follow_cases hPopd hPath (hDest d List.mem_cons_self) (hRoom 0 (Nat.succ_pos _))
      with ⟨hFull, hFollow⟩ | ⟨s', f', hFollow, hEnter, hNum, hCount, hNext⟩
    · rw [hFollow]
      exact Or.inl ⟨by omega, rfl⟩
    · have hPath' : update path s.numNodes (d :: t) popd = t := by
        rw [update_of_ne hPopd.ne, hPath]
      have hRoom' (k : Nat) (hk : k < ds.length) (hLt : s'.numNodes + k < exploreSize) :
          f'.queue.count + k < 2 ^ pqHeight := by
        have hMore := hRoom (k + 1) (Nat.succ_lt_succ hk) (by omega)
        omega
      have hRest := ih hNext (by omega) hPath' (fun d hd => hDest d (List.mem_cons_of_mem _ hd))
        hRoom'
      have hSum : s.numNodes + (ds.length + 1) = s'.numNodes + ds.length := by
        omega
      rw [hFollow, hEnter, hSum]
      exact hRest

end Explores

section rounds

variable [DecidableEq Node] (owner : Owners Node) (trainNum : Int) (src dst : Node)

variable (track) in
/-- A round of the search does with its heap what is done with the frontier. -/
inductive Round (s : Search Node) (f : Frontier) : Prop
  | exhausted : f.next track src = none →
      (∀ fuel, search track owner dst trainNum (fuel + 1) s = .error .heapEmpty) → Round s f
  | arrived {s' : Search Node} {path : Nat → List Dir} {last : Nat} {queue : Heap (List Dir)} :
      f.next track src = some (path last, queue) → track.roads.stop src (path last) = dst →
      Explores track src s' path ⟨f.entered, queue⟩ → last < s'.numNodes →
      (∀ fuel, search track owner dst trainNum (fuel + 1) s = .ok (some last, s')) → Round s f
  | overrun {p : List Dir} {queue : Heap (List Dir)} :
      f.next track src = some (p, queue) → track.roads.stop src p ≠ dst →
      exploreSize < f.entered + (continuations track src owner trainNum dst p).length →
      (∀ fuel, search track owner dst trainNum (fuel + 1) s = .error .poolOverrun) → Round s f
  | continued {p : List Dir} {queue : Heap (List Dir)} {s' : Search Node}
      {path : Nat → List Dir} {f' : Frontier} :
      f.next track src = some (p, queue) → track.roads.stop src p ≠ dst →
      Frontier.enterAll track src ⟨f.entered, queue⟩ (continuations track src owner trainNum dst p)
        = some f' →
      Explores track src s' path f' →
      (∀ fuel, search track owner dst trainNum (fuel + 1) s
        = search track owner dst trainNum fuel s') → Round s f

variable (track) in
inductive Ended : Except RouteFault (Option Nat × Search Node) → Prop
  | exhausted {f : Frontier} {closed : Multiset (List Dir)} :
      Reaches track src owner trainNum dst f closed → f.next track src = none →
      Ended (.error .heapEmpty)
  | overrun {f : Frontier} {p : List Dir} {queue : Heap (List Dir)}
      {closed : Multiset (List Dir)} :
      Reaches track src owner trainNum dst f closed → f.next track src = some (p, queue) →
      track.roads.stop src p ≠ dst →
      exploreSize < f.entered + (continuations track src owner trainNum dst p).length →
      Ended (.error .poolOverrun)
  | found {s : Search Node} {path : Nat → List Dir} {last : Nat} {f : Frontier}
      {queue : Heap (List Dir)} {closed : Multiset (List Dir)} :
      Reaches track src owner trainNum dst f closed →
      f.next track src = some (path last, queue) → track.roads.stop src (path last) = dst →
      Explores track src s path ⟨f.entered, queue⟩ → last < s.numNodes → Ended (.ok (some last, s))

variable {owner trainNum src dst}

/-- A round in which the popped walk is continued. -/
theorem search_passable {fuel : Nat} {s : Search Node} {pq : Heap (Option Nat)} {popd : Nat}
    {tn : Node} (hPop : pqPop s.nodes s.pq = .ok (some popd, pq))
    (hTn : (s.nodes popd).tn = some tn) (hPassable : Passable track owner trainNum dst tn) :
    search track owner dst trainNum (fuel + 1) s = (do
      let s ← followAll track popd tn (track.edges tn) { s with pq := pq }
      search track owner dst trainNum fuel s) := by
  obtain ⟨hNe, hExit, hOwner⟩ := hPassable
  rw [search, hPop]
  dsimp only [bind, Except.bind]
  rw [hTn, if_neg fun h => hNe (Option.some.inj h)]
  dsimp only
  rw [if_neg hExit, if_neg fun h => hOwner.elim h.1 h.2]
  rcases eq_or_ne (track.type tn) .branch with hBranch | hBranch
  · rw [if_pos hBranch, Track.edges_branch hBranch]
    simp only [followAll, bind, Except.bind]
    cases follow { s with pq := pq } popd (track.dest tn dirStraight) (track.dist tn dirStraight)
      with
    | error fault => rfl
    | ok s' =>
      dsimp only
      cases follow s' popd (track.dest tn dirCurved) (track.dist tn dirCurved) <;> rfl
  · rw [if_neg hBranch, Track.edges_ahead hExit hBranch]
    simp only [followAll, bind, Except.bind]
    cases follow { s with pq := pq } popd (track.dest tn dirAhead) (track.dist tn dirAhead) <;> rfl

/-- A round in which the popped walk is dropped. -/
theorem search_not_passable {fuel : Nat} {s : Search Node} {pq : Heap (Option Nat)} {popd : Nat}
    {tn : Node} (hPop : pqPop s.nodes s.pq = .ok (some popd, pq))
    (hTn : (s.nodes popd).tn = some tn) (hNe : tn ≠ dst)
    (hPassable : ¬Passable track owner trainNum dst tn) :
    search track owner dst trainNum (fuel + 1) s =
      search track owner dst trainNum fuel { s with pq := pq } := by
  rw [search, hPop]
  dsimp only [bind, Except.bind]
  rw [hTn, if_neg fun h => hNe (Option.some.inj h)]
  dsimp only
  split_ifs with hExit hOwner
  · rfl
  · rfl
  all_goals exact absurd ⟨hNe, hExit, by tauto⟩ hPassable

/-- The queue holds at most about half of what has been put into it, since a walk that is handed
out is replaced by at most two. -/
theorem Reaches.count_le [Fintype Node] (hTrack : track.WellFormed) {f : Frontier}
    {closed : Multiset (List Dir)} {p : List Dir} {queue : Heap (List Dir)}
    (h : Reaches track src owner trainNum dst f closed)
    (hNext : f.next track src = some (p, queue)) : 2 * queue.count + 1 ≤ f.entered := by
  obtain ⟨hPopped, hEntered⟩ := h.popped hTrack hNext
  have hCard := hPopped.run.card_le fun _ => length_routeTree_children_le hTrack
  rw [← Heap.card_content, hEntered]
  simp only [Multiset.card_add, Multiset.card_cons] at hCard ⊢
  omega

section reached

variable [Fintype Node] {s : Search Node} {path : Nat → List Dir}
variable {f : Frontier} {closed : Multiset (List Dir)}

theorem search_round (hTrack : track.WellFormed)
    (hExplores : Explores track src s path f)
    (hReaches : Reaches track src owner trainNum dst f closed) :
    Round track owner trainNum src dst s f := by
  rcases hExplores.pqPop_cases with ⟨hNone, hPop⟩ | ⟨popd, pq, queue, hPop, hLt, hHanded, hNext⟩
  · refine .exhausted hNone fun fuel => ?_
    rw [search, hPop]
    rfl
  have hTn : (s.nodes popd).tn = some (track.roads.stop src (path popd)) :=
    (hExplores.pooled.nodes_eq hLt).1
  rcases eq_or_ne (track.roads.stop src (path popd)) dst with hStop | hStop
  · refine .arrived hHanded hStop hNext hLt fun fuel => ?_
    rw [search, hPop]
    change (if (s.nodes popd).tn = some dst then _ else _) = _
    rw [if_pos (hTn.trans (congrArg some hStop))]
    rfl
  by_cases hPassable : Passable track owner trainNum dst (track.roads.stop src (path popd))
  · have hContinue : continuations track src owner trainNum dst (path popd) =
        (track.edges (track.roads.stop src (path popd))).map (· :: path popd) := if_pos hPassable
    have hRoom (k : Nat) (hk : k < (track.edges (track.roads.stop src (path popd))).length)
        (hFree : s.numNodes + k < exploreSize) : queue.count + k < 2 ^ pqHeight := by
      have hCount := hReaches.count_le hTrack hHanded
      have hTwo := track.length_edges_le (track.roads.stop src (path popd))
      rw [← hExplores.entered] at hCount
      simp only [exploreSize, pqHeight] at hFree ⊢
      omega
    rcases hNext.followAll_cases hLt rfl (hTrack.dest_isSome _) hRoom
      with ⟨hFull, hFollow⟩ | ⟨s', path', f', hFollow, hEnter, hNext'⟩
    · refine .overrun hHanded hStop ?_ fun fuel => ?_
      · rw [hContinue, List.length_map, ← hExplores.entered]
        exact hFull
      · rw [search_passable hPop hTn hPassable, hFollow]
        rfl
    · refine .continued hHanded hStop (hContinue.symm ▸ hEnter) hNext' fun fuel => ?_
      rw [search_passable hPop hTn hPassable, hFollow]
      rfl
  · have hNone : continuations track src owner trainNum dst (path popd) = [] := if_neg hPassable
    refine .continued hHanded hStop ?_ hNext fun fuel =>
      search_not_passable hPop hTn hStop hPassable
    rw [hNone, Frontier.enterAll]

theorem search_ended (hTrack : track.WellFormed) {fuel : Nat}
    (hExplores : Explores track src s path f)
    (hReaches : Reaches track src owner trainNum dst f closed)
    (hFuel : exploreSize < fuel + closed.card) :
    Ended track owner trainNum src dst (search track owner dst trainNum fuel s) := by
  induction fuel generalizing s path f closed with
  | zero =>
    have hCard := (hReaches.searches hTrack).entered
    have hLe := hExplores.numNodes_le
    rw [hExplores.entered] at hLe
    rw [Multiset.card_add] at hCard
    omega
  | succ fuel ih =>
    cases search_round hTrack hExplores hReaches with
    | exhausted hNone hSearch => exact hSearch fuel ▸ .exhausted hReaches hNone
    | arrived hNext hStop hExplores' hLt hSearch =>
      exact hSearch fuel ▸ .found hReaches hNext hStop hExplores' hLt
    | overrun hNext hStop hFull hSearch => exact hSearch fuel ▸ .overrun hReaches hNext hStop hFull
    | @continued p _ _ _ _ hNext hStop hEnter hExplores' hSearch =>
      rw [hSearch fuel]
      refine ih hExplores' (hReaches.next hNext hStop hEnter) ?_
      rw [Multiset.card_cons]
      omega

/-- The search comes to every frontier for which the pool has room. -/
theorem Reaches.search_eq (hTrack : track.WellFormed) {s₀ : Search Node}
    {path₀ : Nat → List Dir} {f₀ : Frontier}
    (hEnter₀ : Frontier.empty.enter track src [] = some f₀)
    (hExplores₀ : Explores track src s₀ path₀ f₀)
    (hReaches : Reaches track src owner trainNum dst f closed)
    (hRoom : f.entered ≤ exploreSize) :
    ∃ s path, Explores track src s path f ∧
      ∀ fuel, search track owner dst trainNum (fuel + closed.card) s₀
        = search track owner dst trainNum fuel s := by
  induction hReaches with
  | start hEnter =>
    obtain rfl := Option.some.inj (hEnter₀.symm.trans hEnter)
    exact ⟨s₀, path₀, hExplores₀, fun fuel => rfl⟩
  | @next f f' p queue closed hReaches hNext hStop hEnter ih =>
    have hEntered : f'.entered
        = f.entered + (continuations track src owner trainNum dst p).length :=
      (Frontier.enterAll_spec (Frontier.next_spec (hReaches.searches hTrack).ordered hNext).2.1
        hEnter).2.2
    obtain ⟨s, path, hExplores, hSearch⟩ := ih (by omega)
    cases search_round hTrack hExplores hReaches with
    | exhausted hNone => exact nomatch hNone.symm.trans hNext
    | arrived hNext' hStop' =>
      obtain ⟨rfl, rfl⟩ := Prod.mk.inj (Option.some.inj (hNext'.symm.trans hNext))
      exact absurd hStop' hStop
    | overrun hNext' _ hFull =>
      obtain ⟨rfl, rfl⟩ := Prod.mk.inj (Option.some.inj (hNext'.symm.trans hNext))
      omega
    | @continued _ _ s' path' _ hNext' _ hEnter' hExplores' hSearch' =>
      obtain ⟨rfl, rfl⟩ := Prod.mk.inj (Option.some.inj (hNext'.symm.trans hNext))
      obtain rfl := Option.some.inj (hEnter'.symm.trans hEnter)
      refine ⟨s', path', hExplores', fun fuel => ?_⟩
      rw [Multiset.card_cons, ← hSearch' fuel, ← hSearch (fuel + 1)]
      exact congrArg (search track owner dst trainNum · s₀) (by omega)

end reached

end rounds

end TrainKernel.User
