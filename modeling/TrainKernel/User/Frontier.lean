import TrainKernel.User.Routes

/-!
# The frontier of the route search

The walks from a node wait in a queue and are handed out by their cost, which is their distance as
a machine integer. A walk that does not end at the destination is replaced by its continuations.
This is a best-first search of the tree of the walks, and where no distance overflows it is one by
distance.
-/

namespace TrainKernel.User

open Library.Int32 Library.Walks Library.BestFirst

variable {Node : Type}

/-- The queue, and how many walks have been put into it. -/
structure Frontier where
  entered : Nat
  queue : Heap (List Dir)

section frontier

variable (track : Track Node) (src : Node)

def walkCost (p : List Dir) : Int := wrap32 (track.roads.distance src p)

theorem walkCost_cons (d : Dir) (p : List Dir) : walkCost track src (d :: p) =
    wrap32 (walkCost track src p + track.dist (track.roads.stop src p) d) :=
  (wrap32_wrap32_add ..).symm

namespace Frontier

def empty : Frontier := ⟨0, ⟨fun _ => [], 0⟩⟩

def enter (f : Frontier) (p : List Dir) : Option Frontier :=
  (f.queue.push (walkCost track src) pqHeight p).map fun queue => ⟨f.entered + 1, queue⟩

def enterAll (f : Frontier) : List (List Dir) → Option Frontier
  | [] => some f
  | p :: ps => (f.enter track src p).bind fun f => enterAll f ps

/-- The walk that is handed out next, and the rest of the queue. -/
def next (f : Frontier) : Option (List Dir × Heap (List Dir)) :=
  f.queue.pop (walkCost track src)

end Frontier

variable [DecidableEq Node] (owner : Owners Node) (trainNum : Int) (dst : Node)

def continuations (p : List Dir) : List (List Dir) :=
  if Passable track owner trainNum dst (track.roads.stop src p) then
    (track.edges (track.roads.stop src p)).map (· :: p)
  else []

/-- The frontiers of the search, with the walks that have been handed out. -/
inductive Reaches : Frontier → Multiset (List Dir) → Prop
  | start {f : Frontier} : Frontier.empty.enter track src [] = some f → Reaches f 0
  | next {f f' : Frontier} {p : List Dir} {queue : Heap (List Dir)}
      {closed : Multiset (List Dir)} : Reaches f closed → f.next track src = some (p, queue) →
      track.roads.stop src p ≠ dst →
      Frontier.enterAll track src ⟨f.entered, queue⟩ (continuations track src owner trainNum dst p)
        = some f' →
      Reaches f' (p ::ₘ closed)

/-- In the end a walk is handed out that ends at the destination. It fits the buffer for the path,
and until then no more walks are put into the queue than there are path nodes. -/
def ArrivesInside : Prop :=
  ∃ f closed p queue, Reaches track src owner trainNum dst f closed ∧
    f.next track src = some (p, queue) ∧ track.roads.stop src p = dst ∧
    f.entered ≤ exploreSize ∧ p.length < maxPathLength

end frontier

section search

variable [DecidableEq Node] [Fintype Node] {track : Track Node} (owner : Owners Node)
variable (trainNum : Int) (src dst : Node) (hTrack : track.WellFormed)

abbrev SearchRun (opened closed : Multiset (List Dir)) : Prop :=
  (routeTree owner trainNum src dst hTrack).Run (walkCost track src)
    (fun p => track.roads.stop src p = dst) opened closed

variable {owner trainNum src dst}

theorem continuations_eq {p : List Dir} : continuations track src owner trainNum dst p =
    (routeTree owner trainNum src dst hTrack).children p :=
  (routeTree_children hTrack).symm

variable (owner trainNum src dst) in
/-- The frontier and what has been handed out are a run of the search. -/
structure Frontier.Searches (f : Frontier) (closed : Multiset (List Dir)) : Prop where
  run : SearchRun owner trainNum src dst hTrack f.queue.content closed
  ordered : Heap.Ordered (walkCost track src) f.queue
  entered : f.entered = (f.queue.content + closed).card

omit [DecidableEq Node] [Fintype Node] in
theorem Frontier.enter_spec {f f' : Frontier} {p : List Dir}
    (hOrdered : Heap.Ordered (walkCost track src) f.queue)
    (hEnter : f.enter track src p = some f') :
    f'.queue.content = p ::ₘ f.queue.content ∧ Heap.Ordered (walkCost track src) f'.queue ∧
      f'.entered = f.entered + 1 := by
  rw [enter, Option.map_eq_some_iff] at hEnter
  obtain ⟨queue, hPush, rfl⟩ := hEnter
  have hRoom : f.queue.count < 2 ^ pqHeight := by
    by_contra hFull
    rw [Heap.push, if_neg hFull] at hPush
    cases hPush
  obtain ⟨queue', hPush', hContent, hOrdered'⟩ := Heap.push_spec hOrdered hRoom p
  obtain rfl := Option.some.inj (hPush'.symm.trans hPush)
  exact ⟨hContent, hOrdered', rfl⟩

omit [DecidableEq Node] [Fintype Node] in
theorem Frontier.enterAll_spec {f f' : Frontier} {ps : List (List Dir)}
    (hOrdered : Heap.Ordered (walkCost track src) f.queue)
    (hEnter : f.enterAll track src ps = some f') :
    f'.queue.content = f.queue.content + ps ∧ Heap.Ordered (walkCost track src) f'.queue ∧
      f'.entered = f.entered + ps.length := by
  induction ps generalizing f with
  | nil =>
    obtain rfl := Option.some.inj hEnter
    rw [Multiset.coe_nil, add_zero]
    exact ⟨rfl, hOrdered, rfl⟩
  | cons p ps ih =>
    rw [enterAll, Option.bind_eq_some_iff] at hEnter
    obtain ⟨f₁, hFirst, hRest⟩ := hEnter
    obtain ⟨hContent, hOrdered, hEntered⟩ := enter_spec hOrdered hFirst
    obtain ⟨hContent', hOrdered', hEntered'⟩ := ih hOrdered hRest
    refine ⟨?_, hOrdered', ?_⟩
    · rw [hContent', hContent, ← Multiset.cons_coe, Multiset.cons_add, Multiset.add_cons]
    · rw [hEntered', hEntered, List.length_cons]
      omega

omit [DecidableEq Node] [Fintype Node] in
theorem Frontier.next_spec {f : Frontier} {p : List Dir} {queue : Heap (List Dir)}
    (hOrdered : Heap.Ordered (walkCost track src) f.queue)
    (hNext : f.next track src = some (p, queue)) :
    f.queue.content = p ::ₘ queue.content ∧ Heap.Ordered (walkCost track src) queue ∧
      ∀ u ∈ queue.content, walkCost track src p ≤ walkCost track src u := by
  have hPos : 0 < f.queue.count := by
    by_contra hNone
    rw [next, Heap.pop, if_neg hNone] at hNext
    cases hNext
  obtain ⟨v, queue', hPop, hSpec⟩ := Heap.pop_spec hOrdered hPos
  obtain ⟨rfl, rfl⟩ := Prod.mk.inj (Option.some.inj (hPop.symm.trans hNext))
  exact hSpec

omit [DecidableEq Node] [Fintype Node] in
theorem Frontier.content_of_next_none {f : Frontier} (hNext : f.next track src = none) :
    f.queue.content = 0 := by
  rw [next, Heap.pop] at hNext
  split_ifs at hNext with hPos
  rw [← Multiset.card_eq_zero, Heap.card_content]
  omega

theorem Reaches.searches {f : Frontier} {closed : Multiset (List Dir)}
    (h : Reaches track src owner trainNum dst f closed) :
    f.Searches owner trainNum src dst hTrack closed := by
  induction h with
  | @start f hEnter =>
    have hEmpty : Heap.Ordered (walkCost track src) Frontier.empty.queue := by
      intro i hi hi'
      have hNone : i ≤ 0 := hi'
      omega
    obtain ⟨hContent, hOrdered, hEntered⟩ := Frontier.enter_spec hEmpty hEnter
    have hRoot : f.queue.content = {[]} := hContent
    refine ⟨hRoot ▸ .start, hOrdered, ?_⟩
    rw [hEntered, hRoot]
    rfl
  | @next f f' p queue closed _ hNext hStop hEnter ih =>
    obtain ⟨hContent, hOrdered, hMin⟩ := Frontier.next_spec ih.ordered hNext
    have hEntered := ih.entered
    have hRun := ih.run
    rw [hContent] at hEntered hRun
    obtain ⟨hContent', hOrdered', hEntered'⟩ := Frontier.enterAll_spec hOrdered hEnter
    rw [continuations_eq hTrack] at hContent' hEntered'
    refine ⟨hContent' ▸ hRun.expand hMin hStop, hOrdered', ?_⟩
    rw [hEntered', hContent', SearchTree.Run.expand_eq, Multiset.card_add, ← hEntered]
    rfl

/-- The walk `t` is handed out, and the walks `rest` stay in the queue. -/
structure Popped (owner : Owners Node) (trainNum : Int) (src dst : Node)
    (hTrack : track.WellFormed) (key : List Dir → Int) (t : List Dir)
    (rest closed : Multiset (List Dir)) : Prop where
  run : (routeTree owner trainNum src dst hTrack).Run key
    (fun p => track.roads.stop src p = dst) (t ::ₘ rest) closed
  le : ∀ u ∈ rest, key t ≤ key u

theorem Reaches.popped {f : Frontier} {closed : Multiset (List Dir)} {p : List Dir}
    {queue : Heap (List Dir)} (h : Reaches track src owner trainNum dst f closed)
    (hNext : f.next track src = some (p, queue)) :
    Popped owner trainNum src dst hTrack (walkCost track src) p queue.content closed ∧
      f.entered = (p ::ₘ queue.content + closed).card := by
  have hSearches := h.searches hTrack
  have hRun := hSearches.run
  have hEntered := hSearches.entered
  obtain ⟨hContent, -, hMin⟩ := Frontier.next_spec hSearches.ordered hNext
  rw [hContent] at hRun hEntered
  exact ⟨⟨hRun, hMin⟩, hEntered⟩

end search

end TrainKernel.User
