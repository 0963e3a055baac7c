import TrainKernel.User.Track

/-!
# The track server

One message releases some nodes and then reserves others. The lists take the place of the
arrays and their lengths; the warning about a foreign node is printed and nothing more.
-/

namespace TrainKernel.User

open Function

inductive TrackServerReply where
  | success
  | reserveFailSameDir
  | reserveFailOppositeDir
deriving DecidableEq, Repr

structure TrackServerMessage (Node : Type) where
  reserveNodes : List Node
  releaseNodes : List Node

variable {Node : Type} [DecidableEq Node] (track : Track Node)

def isReservable (owner : Owners Node) (node : Node) (tid : Nat) : Bool :=
  (owner node = -1 || owner node = tid) && owner (track.reverse node) = -1

/-- The first loop of `trackServer`: a foreign node is released like any other. -/
def releaseLoop (owner : Owners Node) : List Node → Owners Node
  | [] => owner
  | releaseNode :: rest => releaseLoop (update owner releaseNode (-1)) rest

def reserveLoop (tid : Nat) (owner : Owners Node) : List Node → Owners Node × TrackServerReply
  | [] => (owner, .success)
  | reserveNode :: rest =>
    if !isReservable track owner reserveNode tid then
      if owner reserveNode ≠ -1 ∧ owner reserveNode ≠ tid then (owner, .reserveFailSameDir)
      else (owner, .reserveFailOppositeDir)
    else reserveLoop tid (update owner reserveNode tid) rest

/-- One turn of `trackServer`, with the reply to the sender `tid`. -/
def serveTrack (owner : Owners Node) (tid : Nat) (message : TrackServerMessage Node) :
    Owners Node × TrackServerReply :=
  reserveLoop track tid (releaseLoop owner message.releaseNodes) message.reserveNodes

def serveTracks (owner : Owners Node) : List (Nat × TrackServerMessage Node) → Owners Node
  | [] => owner
  | (tid, message) :: rest => serveTracks (serveTrack track owner tid message).1 rest

end TrainKernel.User
