import Mathlib.Logic.Function.Basic

/-!
# Commands for a train

The ring buffers of `utils.c` are copies of one another; commands go through one of them.
An enqueue that meets the head steps over it, and the queue then holds the new element alone.
-/

namespace TrainKernel.User

open Function

structure RingBuffer (α : Type) where
  head : Nat
  tail : Nat
  size : Nat
  buffer : Nat → α

namespace RingBuffer

variable {α : Type}

/-- The flag says that nothing was lost. -/
def enqueue (q : RingBuffer α) (x : α) : RingBuffer α × Bool :=
  let tail := (q.tail + 1) % q.size
  if tail = q.head then
    let tail := (tail + 1) % q.size
    ({ q with tail := tail, buffer := update q.buffer tail x }, false)
  else ({ q with tail := tail, buffer := update q.buffer tail x }, true)

def isEmpty (q : RingBuffer α) : Bool := q.head = q.tail

def dequeue (q : RingBuffer α) : Option (α × RingBuffer α) :=
  if q.head = q.tail then none
  else
    let head := (q.head + 1) % q.size
    some (q.buffer head, { q with head := head })

end RingBuffer

inductive CommandType where
  | setSpeed
  | reverse
deriving DecidableEq, Repr

structure Command where
  type : CommandType
  trainSpeed : Int
  trainNumber : Int
deriving DecidableEq, Repr

abbrev CommandQueue := RingBuffer Command

def initCommandQueue (size : Nat) (buffer : Nat → Command) : CommandQueue := ⟨0, 0, size, buffer⟩

def enqueueCommand (q : CommandQueue) (command : Command) : CommandQueue × Bool :=
  q.enqueue command

def dequeueCommand (q : CommandQueue) : Option (Command × CommandQueue) := q.dequeue

def isCommandQueueEmpty (q : CommandQueue) : Bool := q.isEmpty

end TrainKernel.User
