import TrainKernel.User.Heap
import TrainKernel.User.Track

/-!
# The route search

The search for a shortest route, with its static pool of path nodes and its heap of
pointers into the pool. A pointer to a path node is the index of the node in the pool.
-/

namespace TrainKernel.User

open Function Library.Int32

variable {Node : Type}

def trackMax : Nat := 144
def maxPathLength : Nat := trackMax
def exploreSize : Nat := 4096 * 2
def pqHeight : Nat := 12

/-- How a call can fail to return: a failed assertion stops the task, and an access outside
an array or through a null pointer has no defined meaning. -/
inductive RouteFault where
  /-- `heap->count < (1 << height)` fails. -/
  | heapFull
  /-- `heap->count > 0` fails. -/
  | heapEmpty
  /-- `path_length < MAX_PATH_LENGTH` fails. -/
  | pathTooLong
  /-- A path node is written behind the end of `g_nodes`. -/
  | poolOverrun
  /-- A track node is written behind the end of `pb->tracknodes`. -/
  | bufferOverrun
  | nullPointer
  /-- The search is cut off by the bound on its rounds; this never happens. -/
  | outOfFuel
deriving DecidableEq, Repr

structure PathNode (Node : Type) where
  fromNode : Option Nat
  tn : Option Node
  cost : Int
  length : Int
  reverse : Bool

structure PathBuffer (Node : Type) where
  trainNum : Int
  length : Int
  tracknodes : Nat → Option Node
  reverse : Nat → Bool

abbrev NodePool (Node : Type) := Nat → PathNode Node

def setPathNode (nodes : NodePool Node) (p : Nat) (f : Option Nat) (t : Option Node)
    (c l : Int) (r : Bool) : NodePool Node :=
  update nodes p { fromNode := f, tn := t, cost := c, length := l, reverse := r }

def nodeCost (nodes : NodePool Node) (pn : Option Nat) : Int :=
  match pn with
  | some i => (nodes i).cost
  | none => 0

structure Search (Node : Type) where
  nodes : NodePool Node
  numNodes : Nat
  pq : Heap (Option Nat)

def pqPush (nodes : NodePool Node) (pq : Heap (Option Nat)) (pn : Nat) :
    Except RouteFault (Heap (Option Nat)) :=
  match pq.push (nodeCost nodes) pqHeight (some pn) with
  | some pq => .ok pq
  | none => .error .heapFull

def pqPop (nodes : NodePool Node) (pq : Heap (Option Nat)) :
    Except RouteFault (Option Nat × Heap (Option Nat)) :=
  match pq.pop (nodeCost nodes) with
  | some popd => .ok popd
  | none => .error .heapEmpty

def follow (s : Search Node) (popd : Nat) (dest : Option Node) (dist : Int) :
    Except RouteFault (Search Node) :=
  if s.numNodes < exploreSize then do
    let f := s.nodes popd
    let nodes := setPathNode s.nodes s.numNodes (some popd) dest (wrap32 (f.cost + dist))
      (f.length + 1) false
    let pq ← pqPush nodes s.pq s.numNodes
    return ⟨nodes, s.numNodes + 1, pq⟩
  else .error .poolOverrun

variable [DecidableEq Node]

/-- The rounds of the search, at most as many as the first argument says, with the path node
that leads to `dst`; `none` if a null pointer was popped. -/
def search (track : Track Node) (owner : Owners Node) (dst : Node) (trainNum : Int) :
    Nat → Search Node → Except RouteFault (Option Nat × Search Node)
  | 0, _ => .error .outOfFuel
  | fuel + 1, s => do
    match ← pqPop s.nodes s.pq with
    | (none, pq) => return (none, { s with pq := pq })
    | (some popd, pq) =>
      let s := { s with pq := pq }
      if (s.nodes popd).tn = some dst then return (some popd, s)
      match (s.nodes popd).tn with
      | none => .error .nullPointer
      | some tn =>
        if track.type tn = .exit then
          search track owner dst trainNum fuel s
        else if owner tn ≠ -1 ∧ owner tn ≠ trainNum then
          search track owner dst trainNum fuel s
        else if track.type tn = .branch then
          let s ← follow s popd (track.dest tn dirStraight) (track.dist tn dirStraight)
          let s ← follow s popd (track.dest tn dirCurved) (track.dist tn dirCurved)
          search track owner dst trainNum fuel s
        else
          let s ← follow s popd (track.dest tn dirAhead) (track.dist tn dirAhead)
          search track owner dst trainNum fuel s

def fillPath (nodes : NodePool Node) (start : Nat) :
    Nat → Option Nat → Nat → PathBuffer Node → Except RouteFault (Nat × PathBuffer Node)
  | 0, _, _, _ => .error .outOfFuel
  | fuel + 1, pn, pathLength, pb =>
    if pn = some start then
      if pathLength < maxPathLength then
        .ok (pathLength + 1, { pb with
          tracknodes := update pb.tracknodes pathLength (nodes start).tn
          length := pathLength + 1 })
      else .error .bufferOverrun
    else if pathLength < maxPathLength then
      match pn with
      | none => .error .nullPointer
      | some i =>
        fillPath nodes start fuel (nodes i).fromNode (pathLength + 1) { pb with
          reverse := update pb.reverse pathLength (nodes i).reverse
          tracknodes := update pb.tracknodes pathLength (nodes i).tn }
    else .error .pathTooLong

def reverseInPlace : Nat → Nat → Nat → (Nat → Option Node) → Nat → Option Node
  | 0, _, _, tracknodes => tracknodes
  | fuel + 1, i, j, tracknodes =>
    if i < j then
      reverseInPlace fuel (i + 1) (j - 1)
        (update (update tracknodes i (tracknodes j)) j (tracknodes i))
    else tracknodes

/-- `memset` counts bytes, and a pointer has four. -/
def clearTracknodes (tracknodes : Nat → Option Node) : Nat → Option Node :=
  fun i => if i < maxPathLength / 4 then none else tracknodes i

def planRoute (track : Track Node) (owner : Owners Node) (gNodes : NodePool Node)
    (src dst : Node) (pb : PathBuffer Node) : Except RouteFault (Int × PathBuffer Node) := do
  let pb := { pb with tracknodes := clearTracknodes pb.tracknodes, length := 0 }
  if track.idx (track.reverse src) = track.idx dst then return (0, pb)
  let start := 0
  let nodes := setPathNode gNodes start none (some src) 0 0 false
  let pq ← pqPush nodes ⟨fun _ => none, 0⟩ start
  match ← search track owner dst pb.trainNum (exploreSize + 1) ⟨nodes, 1, pq⟩ with
  | (none, _) => return (-1, { pb with length := -1 })
  | (some last, s) =>
    let (pathLength, pb) ← fillPath s.nodes start (maxPathLength + 1) (some last) 0 pb
    let tracknodes := reverseInPlace pathLength 0 (pathLength - 1) pb.tracknodes
    return (pathLength, { pb with tracknodes := tracknodes })

end TrainKernel.User
