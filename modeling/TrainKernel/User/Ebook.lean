import TrainKernel.User.Navigation

/-!
# Ebooks

A planned path becomes a series of enstructions, each with the nodes to pass and the turnouts
to throw on the way.
-/

namespace TrainKernel.User

open Function

variable {Node : Type}

structure Position (Node : Type) where
  node : Option Node
  offset : Int

/-- A turnout operation is 0, or twice the index of the branch and one bit for curved. -/
structure Enstruction (Node : Type) where
  id : Int
  length : Int
  togo : Position Node
  turnops : Nat → Int
  tracknodes : Nat → Option Node

structure Ebook (Node : Type) where
  enstructs : Nat → Enstruction Node
  length : Int

def maxEbookLength : Nat := maxPathLength / 10

/-- `memcpy` counts bytes, and a pointer or an `int` has four. -/
def copyEntries {α : Type} (dst src : Nat → α) : Nat → α :=
  fun i => if i < maxPathLength / 4 then src i else dst i

def memsetEnstruction (dst src : Enstruction Node) : Enstruction Node where
  id := src.id
  length := src.length
  togo := src.togo
  turnops := copyEntries dst.turnops src.turnops
  tracknodes := copyEntries dst.tracknodes src.tracknodes

/-- The bytes that `memset` clears are the first numbers of the first enstruction, up to the
lower half of an offset. -/
def clearEnstructs (enstructs : Nat → Enstruction Node) : Nat → Enstruction Node :=
  update enstructs 0 { enstructs 0 with
    id := 0
    length := 0
    togo := ⟨none, (enstructs 0).togo.offset - (enstructs 0).togo.offset % 65536⟩ }

def initEbook (book : Ebook Node) : Ebook Node := ⟨clearEnstructs book.enstructs, 0⟩

def newEnstruction (book : Ebook Node) (id : Int) (togo : Position Node) (node : Option Node)
    (turnop : Int) : Except EngineerFault (Ebook Node) :=
  if 0 ≤ book.length ∧ book.length < maxEbookLength then
    let ens : Enstruction Node :=
      { id := id, length := 1, togo := togo,
        turnops := fun i => if i = 0 then turnop else 0,
        tracknodes := fun i => if i = 0 then node else none }
    let i := book.length.toNat
    .ok ⟨update book.enstructs i (memsetEnstruction (book.enstructs i) ens), book.length + 1⟩
  else .error .outOfBounds

def setTogo (book : Ebook Node) (node : Option Node) : Except EngineerFault (Ebook Node) :=
  if 1 ≤ book.length ∧ book.length ≤ maxEbookLength then
    let i := (book.length - 1).toNat
    let curEnst := { book.enstructs i with togo := ⟨node, 0⟩ }
    .ok { book with enstructs := update book.enstructs i curEnst }
  else .error .outOfBounds

def addNode (book : Ebook Node) (node : Option Node) (turnop : Int) :
    Except EngineerFault (Ebook Node) :=
  let i := (book.length - 1).toNat
  let curEnst := book.enstructs i
  if 1 ≤ book.length ∧ book.length ≤ maxEbookLength ∧
      0 ≤ curEnst.length ∧ curEnst.length < maxPathLength then
    let k := curEnst.length.toNat
    let curEnst := { curEnst with
      tracknodes := update curEnst.tracknodes k node
      turnops := update curEnst.turnops k turnop
      length := curEnst.length + 1 }
    .ok { book with enstructs := update book.enstructs i curEnst }
  else .error .outOfBounds

variable [DecidableEq Node] (track : Track Node)

def lookahead (curn next : Option Node) : Int :=
  match curn, next with
  | some curn, some next =>
    if track.type curn ≠ .branch then 0
    else if track.dest curn dirStraight = some next then track.idx curn * 2
    else if track.dest curn dirCurved = some next then track.idx curn * 2 + 1
    else 0
  | _, _ => 0

def makeEbookLoop (pb : PathBuffer Node) :
    Nat → Nat → Int → Ebook Node → Except EngineerFault (Ebook Node)
  | 0, _, _, book => .ok book
  | rounds + 1, i, enIdx, book => do
    let la := lookahead track (pb.tracknodes i) (pb.tracknodes (i + 1))
    if pb.reverse i then
      let book ← setTogo book (pb.tracknodes i)
      let book ← newEnstruction book enIdx ⟨none, 0⟩ (pb.tracknodes i) la
      makeEbookLoop pb rounds (i + 1) (enIdx + 1) book
    else
      let book ← addNode book (pb.tracknodes i) la
      makeEbookLoop pb rounds (i + 1) enIdx book

def makeEbook (pb : PathBuffer Node) (book : Ebook Node) :
    Except EngineerFault (Int × Ebook Node) := do
  if pb.length < 2 then return (-1, book)
  let book := initEbook book
  let la := lookahead track (pb.tracknodes 0) (pb.tracknodes 1)
  let book ← newEnstruction book 0 ⟨pb.tracknodes 0, 0⟩ (pb.tracknodes 0) la
  let book ← makeEbookLoop track pb (pb.length - 2).toNat 1 1 book
  let lasttn := pb.tracknodes (pb.length - 1).toNat
  let book ← setTogo book lasttn
  let book ← addNode book lasttn 0
  return (book.length, book)

def turnopGetTracknodeIndex (top : Int) : Int := top / 2

def turnopGetCurve (top : Int) : Bool := top % 2 = 1

end TrainKernel.User
