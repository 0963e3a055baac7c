import TrainKernel.Library.Outcome
import TrainKernel.User.ShortestRoute

/-!
# The reverse flags of a path

`planRoute` fills two arrays from the end of the path to its start, and turns only the nodes
around. The loop leaves the flag of the start as it was, which is then the flag of the last node.
-/

namespace TrainKernel.User

open Function Library.Int32 Library.Outcome

variable {Node : Type}

/-- `at`, after so many rounds of `at = at->from`. -/
def goBack (nodes : NodePool Node) : Nat → Option Nat → Option Nat
  | 0, pn => pn
  | k + 1, some i => goBack nodes k (nodes i).fromNode
  | _ + 1, none => none

/-- None of the path nodes up to `n` is a reverse move, and each is one further from the start than
the one it comes from. -/
structure Linked (nodes : NodePool Node) (n : Nat) : Prop where
  pos : 0 < n
  start : (nodes 0).length = 0
  length : ∀ i < n, ∀ j, (nodes i).fromNode = some j →
    j < i ∧ (nodes i).length = (nodes j).length + 1
  reverse : ∀ i < n, (nodes i).reverse = false

namespace Linked

variable {nodes : NodePool Node} {n i j m popd : Nat}

theorem start_pool (gNodes : NodePool Node) (src : Option Node) :
    Linked (setPathNode gNodes 0 none src 0 0 false) 1 := by
  have hStart : setPathNode gNodes 0 none src 0 0 false 0 = ⟨none, src, 0, 0, false⟩ := by
    rw [setPathNode, update_self]
  refine ⟨Nat.one_pos, ?_, ?_, ?_⟩
  · rw [hStart]
  · intro i hi j hFrom
    obtain rfl := Nat.lt_one_iff.mp hi
    rw [hStart] at hFrom
    cases hFrom
  · intro i hi
    obtain rfl := Nat.lt_one_iff.mp hi
    rw [hStart]

theorem add (h : Linked nodes n) (hPopd : popd < n) (dest : Option Node) (cost : Int) :
    Linked (setPathNode nodes n (some popd) dest cost ((nodes popd).length + 1) false) (n + 1) := by
  generalize hNodes : setPathNode nodes n (some popd) dest cost ((nodes popd).length + 1) false
    = nodes'
  have hNew : nodes' n = ⟨some popd, dest, cost, (nodes popd).length + 1, false⟩ := by
    rw [← hNodes, setPathNode, update_self]
  have hOld (i : Nat) (hi : i < n) : nodes' i = nodes i := by
    rw [← hNodes, setPathNode, update_of_ne hi.ne]
  refine ⟨Nat.succ_pos n, ?_, ?_, ?_⟩
  · rw [hOld 0 h.pos]
    exact h.start
  · intro i hi j hFrom
    rcases Nat.lt_succ_iff_lt_or_eq.mp hi with hLess | rfl
    · rw [hOld i hLess] at hFrom ⊢
      obtain ⟨hj, hLength⟩ := h.length i hLess j hFrom
      rw [hOld j (hj.trans hLess)]
      exact ⟨hj, hLength⟩
    · rw [hNew] at hFrom ⊢
      obtain rfl := Option.some.inj hFrom
      rw [hOld popd hPopd]
      exact ⟨hPopd, rfl⟩
  · intro i hi
    rcases Nat.lt_succ_iff_lt_or_eq.mp hi with hLess | rfl
    · rw [hOld i hLess]
      exact h.reverse i hLess
    · rw [hNew]

/-- The length of a path node is the number of rounds back to the start. -/
theorem goBack (h : Linked nodes n) (hi : i < n) (hBack : goBack nodes m (some i) = some j) :
    j < n ∧ (nodes i).length = (nodes j).length + m := by
  induction m generalizing i with
  | zero =>
    obtain rfl := Option.some.inj hBack
    exact ⟨hi, by rw [Nat.cast_zero, add_zero]⟩
  | succ m ih =>
    rw [User.goBack] at hBack
    cases hFrom : (nodes i).fromNode with
    | none =>
      rw [hFrom] at hBack
      cases m with
      | zero => cases hBack
      | succ m => cases hBack
    | some f =>
      rw [hFrom] at hBack
      obtain ⟨hf, hLength⟩ := h.length i hi f hFrom
      obtain ⟨hj, hRest⟩ := ih (hf.trans hi) hBack
      refine ⟨hj, ?_⟩
      push_cast
      omega

end Linked

structure Search.Linked (s : Search Node) : Prop where
  linked : User.Linked s.nodes s.numNodes
  ordered : Heap.Ordered (nodeCost s.nodes) s.pq
  content : ∀ v ∈ s.pq.content, ∃ i < s.numNodes, v = some i

namespace Search.Linked

variable {s : Search Node} {popd : Nat}

theorem pqPop (h : s.Linked) : Yields (fun r : Option Nat × Heap (Option Nat) =>
    ∃ i < s.numNodes, r.1 = some i ∧ Search.Linked { s with pq := r.2 })
      (pqPop s.nodes s.pq) := by
  rcases Nat.eq_zero_or_pos s.pq.count with hZero | hPos
  · rw [User.pqPop, Heap.pop, if_neg (by omega)]
    exact Yields.error
  · obtain ⟨v, pq, hPop, hContent, hOrdered, -⟩ := Heap.pop_spec h.ordered hPos
    have hHeld (u : Option Nat) (hu : u ∈ v ::ₘ pq.content) : ∃ i < s.numNodes, u = some i :=
      h.content u (hContent ▸ hu)
    obtain ⟨i, hi, rfl⟩ := hHeld v (Multiset.mem_cons_self v pq.content)
    rw [User.pqPop, hPop]
    refine EndsWell.ok ⟨i, hi, rfl, h.linked, hOrdered, ?_⟩
    intro u hu
    exact hHeld u (Multiset.mem_cons_of_mem hu)

theorem pqPush {nodes : NodePool Node} {n : Nat} {pq : Heap (Option Nat)}
    (hNodes : User.Linked nodes n) (hOrdered : Heap.Ordered (nodeCost nodes) pq) (hi : popd < n)
    (hContent : ∀ v ∈ pq.content, ∃ i < n, v = some i) :
    Yields (fun pq' => Search.Linked ⟨nodes, n, pq'⟩) (pqPush nodes pq popd) := by
  rw [User.pqPush]
  rcases Nat.lt_or_ge pq.count (2 ^ pqHeight) with hRoom | hFull
  · obtain ⟨pq', hPush, hPushed, hOrdered'⟩ := Heap.push_spec hOrdered hRoom (some popd)
    rw [hPush]
    refine EndsWell.ok ⟨hNodes, hOrdered', ?_⟩
    intro v hv
    rcases Multiset.mem_cons.mp (hPushed ▸ hv) with rfl | hHeld
    · exact ⟨popd, hi, rfl⟩
    · exact hContent v hHeld
  · rw [Heap.push, if_neg (not_lt.mpr hFull)]
    exact Yields.error

theorem follow (h : s.Linked) (hPopd : popd < s.numNodes) (dest : Option Node) (dist : Int) :
    Yields (fun s' => s'.Linked ∧ s.numNodes < s'.numNodes) (follow s popd dest dist) := by
  refine EndsWell.ite (fun _ => ?_) fun _ => Yields.error
  have hNodes := h.linked.add hPopd dest (wrap32 ((s.nodes popd).cost + dist))
  have hOrdered : Heap.Ordered (nodeCost (setPathNode s.nodes s.numNodes (some popd) dest
      (wrap32 ((s.nodes popd).cost + dist)) ((s.nodes popd).length + 1) false)) s.pq := by
    apply h.ordered.congr
    intro v hv
    obtain ⟨i, hi, rfl⟩ := h.content v hv
    rw [nodeCost, nodeCost, setPathNode, update_of_ne hi.ne]
  apply (pqPush hNodes hOrdered (Nat.lt_succ_self s.numNodes) _).bind
  · intro pq hLinked
    exact EndsWell.pure ⟨hLinked, Nat.lt_succ_self s.numNodes⟩
  · intro v hv
    obtain ⟨i, hi, rfl⟩ := h.content v hv
    exact ⟨i, hi.trans (Nat.lt_succ_self _), rfl⟩

variable [DecidableEq Node] {track : Track Node} {owner : Owners Node} {dst : Node} {trainNum : Int}

theorem search {fuel : Nat} (h : s.Linked) :
    Yields (fun r : Option Nat × Search Node => r.2.Linked ∧ ∀ last ∈ r.1, last < r.2.numNodes)
      (search track owner dst trainNum fuel s) := by
  induction fuel generalizing s with
  | zero => exact Yields.error
  | succ fuel ih =>
    rw [User.search]
    apply h.pqPop.bind
    rintro ⟨-, pq⟩ ⟨popd, hPopd, rfl, hRest⟩
    refine EndsWell.ite (fun _ => EndsWell.pure ⟨hRest, ?_⟩) fun _ => ?_
    · intro last hLast
      obtain rfl := Option.some.inj hLast
      exact hPopd
    · dsimp only
      cases (s.nodes popd).tn with
      | none => exact Yields.error
      | some tn =>
        refine EndsWell.ite (fun _ => ih hRest) fun _ => EndsWell.ite (fun _ => ih hRest) fun _ =>
          EndsWell.ite (fun _ => ?_) fun _ => ?_
        · apply (hRest.follow hPopd _ _).bind
          intro s₁ hStraight
          apply (hStraight.1.follow (hPopd.trans hStraight.2) _ _).bind
          intro s₂ hCurved
          exact ih hCurved.1
        · apply (hRest.follow hPopd _ _).bind
          intro s₁ hAhead
          exact ih hAhead.1

end Search.Linked

/-! ## The loop that fills the buffer -/

/-- From place `k` on the buffer has what is met on the way back from `pn`, with the start at the
last place, where no flag is written. -/
structure Filled (nodes : NodePool Node) (start : Nat) (pn : Option Nat) (k n : Nat)
    (pb pb' : PathBuffer Node) : Prop where
  lt : k < n
  start : goBack nodes (n - 1 - k) pn = some start
  tracknodes : ∀ m, k ≤ m → m < n → ∃ j, goBack nodes (m - k) pn = some j ∧
    pb'.tracknodes m = (nodes j).tn ∧ (m + 1 < n → pb'.reverse m = (nodes j).reverse)
  before : ∀ m < k, pb'.tracknodes m = pb.tracknodes m ∧ pb'.reverse m = pb.reverse m
  behind : ∀ m, n ≤ m + 1 → pb'.reverse m = pb.reverse m

theorem fillPath_filled (nodes : NodePool Node) (start fuel : Nat) (pn : Option Nat) (k : Nat)
    (pb : PathBuffer Node) :
    Yields (fun r : Nat × PathBuffer Node => Filled nodes start pn k r.1 pb r.2)
      (fillPath nodes start fuel pn k pb) := by
  induction fuel generalizing pn k pb with
  | zero => exact Yields.error
  | succ fuel ih =>
    refine EndsWell.ite (fun hStart => ?_) fun _ => EndsWell.ite (fun _ => ?_) fun _ => Yields.error
    · refine EndsWell.ite (fun _ => EndsWell.ok ?_) fun _ => Yields.error
      refine ⟨Nat.lt_succ_self k, ?_, ?_, ?_, fun _ _ => rfl⟩
      · rw [hStart, Nat.add_sub_cancel, Nat.sub_self, goBack]
      · intro m hk hm
        obtain rfl : m = k := by omega
        refine ⟨start, ?_, update_self .., fun hNext => absurd hNext (lt_irrefl _)⟩
        rw [hStart, Nat.sub_self, goBack]
      · intro m hm
        exact ⟨update_of_ne hm.ne .., rfl⟩
    · cases pn with
      | none => exact Yields.error
      | some i =>
        apply (ih (nodes i).fromNode (k + 1) _).mono
        rintro ⟨n, pb'⟩ hFilled
        have hLess : k + 1 < n := hFilled.lt
        obtain ⟨hNode, hFlag⟩ := hFilled.before k (Nat.lt_succ_self k)
        refine ⟨(Nat.lt_succ_self k).trans hLess, ?_, ?_, ?_, ?_⟩
        · rw [show n - 1 - k = n - 1 - (k + 1) + 1 by omega, goBack]
          exact hFilled.start
        · intro m hk hm
          rcases Nat.eq_or_lt_of_le hk with rfl | hLater
          · refine ⟨i, ?_, hNode.trans (update_self ..), fun _ => hFlag.trans (update_self ..)⟩
            rw [Nat.sub_self, goBack]
          · rw [show m - k = m - (k + 1) + 1 by omega, goBack]
            exact hFilled.tracknodes m hLater hm
        · intro m hm
          obtain ⟨hNodeBefore, hFlagBefore⟩ := hFilled.before m (hm.trans (Nat.lt_succ_self k))
          exact ⟨hNodeBefore.trans (update_of_ne hm.ne ..),
            hFlagBefore.trans (update_of_ne hm.ne ..)⟩
        · intro m hm
          exact (hFilled.behind m hm).trans (update_of_ne (by omega) ..)

/-- The flag of the path node that is met after so many rounds. -/
def flagBack (nodes : NodePool Node) (k : Nat) (pn : Option Nat) : Option Bool :=
  (goBack nodes k pn).map fun i => (nodes i).reverse

/-- Whatever the flags are, they line up only if they read the same from both ends, up to the last
place, where the buffer must have had the flag of the end. -/
theorem Filled.lineUp_iff {nodes : NodePool Node} {start n last : Nat} {pb pb' : PathBuffer Node}
    (h : Filled nodes start (some last) 0 n pb pb') :
    (∀ i < n, flagBack nodes (n - 1 - i) (some last) = some (pb'.reverse i)) ↔
      (∀ i, i + 1 < n → flagBack nodes (n - 1 - i) (some last) = flagBack nodes i (some last)) ∧
        (nodes last).reverse = pb.reverse (n - 1) := by
  have hFront (i : Nat) (hi : i + 1 < n) : flagBack nodes i (some last) = some (pb'.reverse i) := by
    obtain ⟨j, hBack, -, hFlag⟩ := h.tracknodes i (Nat.zero_le i) (Nat.lt_of_succ_lt hi)
    rw [Nat.sub_zero] at hBack
    rw [flagBack, hBack, Option.map_some, hFlag hi]
  have hEnd : pb'.reverse (n - 1) = pb.reverse (n - 1) := h.behind (n - 1) (by omega)
  have hPos : 0 < n := h.lt
  have hLast : flagBack nodes (n - 1 - (n - 1)) (some last) = some (nodes last).reverse := by
    rw [Nat.sub_self, flagBack, goBack, Option.map_some]
  constructor
  · intro hAll
    constructor
    · intro i hi
      rw [hAll i (Nat.lt_of_succ_lt hi), hFront i hi]
    · have hThere := hAll (n - 1) (by omega)
      rw [hLast, hEnd] at hThere
      exact Option.some.inj hThere
  · rintro ⟨hMirrored, hThere⟩ i hi
    rcases Nat.lt_or_ge (i + 1) n with hBefore | hLastPlace
    · rw [hMirrored i hBefore, hFront i hBefore]
    · obtain rfl : i = n - 1 := by omega
      rw [hLast, hEnd, hThere]

section call

variable [DecidableEq Node] (track : Track Node) (owner : Owners Node) (gNodes : NodePool Node)
variable (src dst : Node)

/-- `planRoute` up to where `end` is found: the path node `end`, and what the search has left. -/
def planSearch (trainNum : Int) : Except RouteFault (Option (Nat × Search Node)) := do
  if track.idx (track.reverse src) = track.idx dst then return none
  let start := 0
  let nodes := setPathNode gNodes start none (some src) 0 0 false
  let pq ← pqPush nodes ⟨fun _ => none, 0⟩ start
  match ← search track owner dst trainNum (exploreSize + 1) ⟨nodes, 1, pq⟩ with
  | (none, _) => return none
  | (some last, s) => return some (last, s)

/-- Each place of the returned path, which has `r` nodes, has the node and the flag of the path node
through which the path reaches it. -/
def FlagsLineUp (trainNum r : Int) (pb' : PathBuffer Node) : Prop :=
  ∀ i : Nat, i < r → ∃ last s j,
    planSearch track owner gNodes src dst trainNum = .ok (some (last, s)) ∧
      goBack s.nodes (r.toNat - 1 - i) (some last) = some j ∧
        pb'.tracknodes i = (s.nodes j).tn ∧ pb'.reverse i = (s.nodes j).reverse

variable {track owner gNodes src dst} {pb pb' : PathBuffer Node} {trainNum r : Int} {last : Nat}
variable {s : Search Node}

theorem planSearch_linked : Yields (fun found => ∀ last s, found = some (last, s) →
      s.Linked ∧ last < s.numNodes) (planSearch track owner gNodes src dst trainNum) := by
  have hPool := Linked.start_pool gNodes (some src)
  refine EndsWell.ite (fun _ => EndsWell.pure nofun) fun _ => ?_
  have hOrdered : Heap.Ordered (nodeCost (setPathNode gNodes 0 none (some src) 0 0 false))
      ⟨fun _ => none, 0⟩ := by
    intro i hi hCount
    have hEmpty : i ≤ 0 := hCount
    omega
  apply (Search.Linked.pqPush hPool hOrdered Nat.one_pos nofun).bind
  intro pq hLinked
  apply hLinked.search.bind
  rintro ⟨found, s⟩ ⟨hSearch, hLess⟩
  cases found with
  | none => exact EndsWell.pure nofun
  | some last =>
    apply EndsWell.pure
    rintro _ _ ⟨⟩
    exact ⟨hSearch, hLess last rfl⟩

theorem planSearch_eq {pq : Heap (Option Nat)} {found : Option Nat}
    (hApart : track.idx (track.reverse src) ≠ track.idx dst)
    (hPush : pqPush (setPathNode gNodes 0 none (some src) 0 0 false) ⟨fun _ => none, 0⟩ 0 = .ok pq)
    (hSearch : search track owner dst trainNum (exploreSize + 1)
      ⟨setPathNode gNodes 0 none (some src) 0 0 false, 1, pq⟩ = .ok (found, s)) :
    planSearch track owner gNodes src dst trainNum = .ok (found.map fun last => (last, s)) := by
  rw [planSearch, if_neg hApart]
  dsimp only
  rw [hPush]
  change (search track owner dst trainNum (exploreSize + 1) _ >>= _) = _
  rw [hSearch]
  cases found with
  | none => rfl
  | some last => rfl

theorem planRoute_cases : Yields (fun result : Int × PathBuffer Node =>
    result.1 ≤ 0 ∧ planSearch track owner gNodes src dst pb.trainNum = .ok none ∨
    ∃ (last : Nat) (s : Search Node) (n : Nat) (pb₁ : PathBuffer Node),
      planSearch track owner gNodes src dst pb.trainNum = .ok (some (last, s)) ∧ result.1 = n ∧
      result.2 = { pb₁ with tracknodes := reverseInPlace n 0 (n - 1) pb₁.tracknodes } ∧
        Filled s.nodes 0 (some last) 0 n
          { pb with tracknodes := clearTracknodes pb.tracknodes, length := 0 } pb₁)
      (planRoute track owner gNodes src dst pb) := by
  rw [planRoute]
  dsimp only
  rcases eq_or_ne (track.idx (track.reverse src)) (track.idx dst) with hSame | hApart
  · rw [if_pos hSame]
    refine EndsWell.pure (Or.inl ⟨le_rfl, ?_⟩)
    rw [planSearch, if_pos hSame]
    rfl
  rw [if_neg hApart]
  apply Yields.skip
  intro pq hPush
  apply Yields.skip
  rintro ⟨found, s⟩ hSearch
  have hFound := planSearch_eq hApart hPush hSearch
  cases found with
  | none => exact EndsWell.pure (Or.inl ⟨Int.negSucc_lt_zero 0 |>.le, hFound⟩)
  | some last =>
    apply (fillPath_filled s.nodes 0 (maxPathLength + 1) (some last) 0 _).bind
    rintro ⟨n, pb₁⟩ hFilled
    exact EndsWell.pure (Or.inr ⟨last, s, n, pb₁, hFound, rfl, rfl, hFilled⟩)

theorem Filled.flagsLineUp_iff {n : Nat} (h : Filled s.nodes 0 (some last) 0 n pb pb')
    (hSearch : planSearch track owner gNodes src dst trainNum = .ok (some (last, s))) :
    FlagsLineUp track owner gNodes src dst trainNum n
        { pb' with tracknodes := reverseInPlace n 0 (n - 1) pb'.tracknodes } ↔
      ∀ i < n, flagBack s.nodes (n - 1 - i) (some last) = some (pb'.reverse i) := by
  constructor
  · intro hFlags i hi
    obtain ⟨last', s', j, hFound, hBack, -, hFlag⟩ := hFlags i (Nat.cast_lt.mpr hi)
    obtain ⟨rfl, rfl⟩ := Prod.mk.inj (Option.some.inj (Except.ok.inj (hFound.symm.trans hSearch)))
    rw [Int.toNat_natCast] at hBack
    rw [flagBack, hBack, Option.map_some, ← hFlag]
  · intro hFlags i hi
    have hLess : i < n := Nat.cast_lt.mp hi
    obtain ⟨j, hBack, hNode, -⟩ := h.tracknodes (n - 1 - i) (Nat.zero_le _) (by omega)
    rw [Nat.sub_zero] at hBack
    refine ⟨last, s, j, hSearch, by rwa [Int.toNat_natCast], ?_, ?_⟩
    · dsimp only
      rw [reverseInPlace_eq (by omega), if_pos (by omega), Nat.zero_add]
      exact hNode
    · have hFlag := hFlags i hLess
      rw [flagBack, hBack, Option.map_some] at hFlag
      exact (Option.some.inj hFlag).symm

variable (track owner gNodes src dst pb) in
/-- The flags line up exactly if the buffer had a false flag at the place of the last node, which
is as many places from the start as the search has counted. -/
theorem planRoute_flagsLineUp_iff
    (hPlan : planRoute track owner gNodes src dst pb = .ok (r, pb')) :
    FlagsLineUp track owner gNodes src dst pb.trainNum r pb' ↔
      ∀ last s, planSearch track owner gNodes src dst pb.trainNum = .ok (some (last, s)) →
        pb.reverse (s.nodes last).length.toNat = false := by
  rcases planRoute_cases.of_ok hPlan with ⟨hNone, hSearch⟩ |
    ⟨last, s, n, pb₁, hSearch, rfl, rfl, hFilled⟩
  · constructor
    · intro _ last s hFound
      cases hSearch.symm.trans hFound
    · intro _ i hi
      have hr : r ≤ 0 := hNone
      omega
  · obtain ⟨hLinked, hLast⟩ := planSearch_linked.of_ok hSearch last s rfl
    have hPos : 0 < n := hFilled.lt
    have hLength : (s.nodes last).length.toNat = n - 1 := by
      have hCount := (hLinked.linked.goBack hLast hFilled.start).2
      rw [hLinked.linked.start] at hCount
      omega
    have hFalse (i : Nat) (hi : i < n) : flagBack s.nodes i (some last) = some false := by
      obtain ⟨j, hBack, -⟩ := hFilled.tracknodes i (Nat.zero_le i) hi
      rw [Nat.sub_zero] at hBack
      rw [flagBack, hBack, Option.map_some,
        hLinked.linked.reverse j (hLinked.linked.goBack hLast hBack).1]
    rw [hFilled.flagsLineUp_iff hSearch, hFilled.lineUp_iff, hLinked.linked.reverse last hLast]
    constructor
    · rintro ⟨-, hThere⟩ last' s' hFound
      obtain ⟨rfl, rfl⟩ := Prod.mk.inj (Option.some.inj (Except.ok.inj (hFound.symm.trans hSearch)))
      rw [hLength]
      exact hThere.symm
    · intro hThere
      constructor
      · intro i hi
        rw [hFalse i (Nat.lt_of_succ_lt hi), hFalse (n - 1 - i) (by omega)]
      · rw [← hLength]
        exact (hThere last s hSearch).symm

end call

/-- A buffer in which every flag has been left set. -/
def flaggedBuffer : PathBuffer LineNode := ⟨0, 0, fun _ => none, fun _ => true⟩

/-- The flag of the last node is the one that was there before. -/
theorem not_flagsLineUp : ¬∀ (pb : PathBuffer LineNode) (r : Int) (pb' : PathBuffer LineNode),
    planRoute shortLine (Owners.free LineNode) blankPool lineEntry lineExit pb = .ok (r, pb') →
      FlagsLineUp shortLine (Owners.free LineNode) blankPool lineEntry lineExit pb.trainNum r
        pb' := by
  intro hAll
  obtain ⟨pb', hPlan, hFlag⟩ : ∃ pb', planRoute shortLine (Owners.free LineNode) blankPool lineEntry
    lineExit flaggedBuffer = .ok (2, pb') ∧ pb'.reverse 1 = true := ⟨_, rfl, rfl⟩
  obtain ⟨last, s, j, hSearch, hBack, -, hSame⟩ := hAll flaggedBuffer 2 pb' hPlan 1 (by decide)
  obtain rfl := Option.some.inj hBack
  obtain ⟨hLinked, hLast⟩ := planSearch_linked.of_ok hSearch last s rfl
  rw [hFlag, hLinked.linked.reverse last hLast] at hSame
  cases hSame

theorem planRoute_flagsLineUp_iff_shortLine :
    ∃ pb', planRoute shortLine (Owners.free LineNode) blankPool lineEntry lineExit blankBuffer
        = .ok (2, pb') ∧
      FlagsLineUp shortLine (Owners.free LineNode) blankPool lineEntry lineExit 0 2 pb' :=
  ⟨_, rfl, (planRoute_flagsLineUp_iff shortLine (Owners.free LineNode) blankPool lineEntry lineExit
    blankBuffer rfl).mpr fun _ _ _ => rfl⟩

end TrainKernel.User
