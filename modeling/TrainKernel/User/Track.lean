import Mathlib.Logic.Function.Basic
import TrainKernel.Library.Int32

/-!
# The track

A pointer to a track node is an element of a type of nodes. Owners are kept apart from
the rest of the node, because they are the only part of the track that changes.
-/

namespace TrainKernel.User

inductive NodeType where
  | none
  | sensor
  | branch
  | merge
  | enter
  | exit
deriving DecidableEq, Repr

/-- One of the two edges of a node. -/
abbrev Dir := Fin 2

def dirAhead : Dir := 0
def dirStraight : Dir := 0
def dirCurved : Dir := 1

/-- `dest` is `none` where the track data leaves a null pointer. -/
structure Track (Node : Type) where
  idx : Node → Int
  type : Node → NodeType
  num : Node → Int
  reverse : Node → Node
  dest : Node → Dir → Option Node
  dist : Node → Dir → Int

/-- The lengths of the edges are machine integers. -/
def Track.IntDist {Node : Type} (track : Track Node) : Prop :=
  ∀ n d, Library.Int32.FitsInt (track.dist n d)

/-- `-1` is nobody. -/
abbrev Owners (Node : Type) := Node → Int

def Owners.free (Node : Type) : Owners Node := fun _ => -1

end TrainKernel.User
