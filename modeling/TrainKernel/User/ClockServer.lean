import Mathlib.Algebra.Ring.Int.Defs
import Mathlib.Algebra.Ring.Nat
import TrainKernel.Library.Ring

/-!
# The clock server

Delayed tasks stand in a circular list, and only its last one is known to the queue. A
pointer to a delayed task is its position in the pool, which is the tid of the task. `none`
is a fault: a null pointer that is followed, a loop that does not end, or the endless loop
on a request that the server does not know.
-/

namespace TrainKernel.User

open Function

abbrev maxDelayedTasks : Nat := 128

abbrev Tid := Fin 128

instance Tid.lawfulBEq : LawfulBEq Tid := inferInstance

structure DelayedTask where
  tid : Tid
  finalTick : Nat
  next : Option Tid

structure DelayedQueue where
  tasks : Tid → DelayedTask
  tail : Option Tid

def initDelayedTasks : DelayedQueue where
  tasks i := ⟨i, 0, none⟩
  tail := none

namespace DelayedQueue

def setNext (q : DelayedQueue) (i : Tid) (v : Option Tid) : DelayedQueue :=
  { q with tasks := update q.tasks i { q.tasks i with next := v } }

def setFinalTick (q : DelayedQueue) (i : Tid) (finalTick : Nat) : DelayedQueue :=
  { q with tasks := update q.tasks i { q.tasks i with finalTick := finalTick } }

end DelayedQueue

def insertLoop (task : Tid) (finalTick : Nat) : Nat → DelayedQueue → Tid → Option DelayedQueue
  | 0, _, _ => none
  | fuel + 1, q, curr =>
    match (q.tasks curr).next with
    | none => none
    | some next =>
      if finalTick ≤ (q.tasks next).finalTick then
        some ((q.setNext task (some next)).setNext curr (some task))
      else if some next = q.tail then
        let q := (q.setNext task (some next)).setNext curr (some task)
        some { q with tail := some task }
      else insertLoop task finalTick fuel q next

/-- The pool has `maxDelayedTasks` cells, so that many turns are enough for each loop. -/
def insertDelayedTask (q : DelayedQueue) (tid : Tid) (finalTick : Nat) : Option DelayedQueue :=
  let q := q.setFinalTick tid finalTick
  match q.tail with
  | none => some { q.setNext tid (some tid) with tail := some tid }
  | some tail => insertLoop tid finalTick maxDelayedTasks q tail

/-- The loop of `removeExpiredTasks`, at `curr`; `replied` are the tasks that got their
reply already. -/
def removeLoop (currTick : Nat) (tail : Tid) :
    Nat → DelayedQueue → Tid → List Tid → Option (DelayedQueue × List Tid)
  | 0, _, _, _ => none
  | fuel + 1, q, curr, replied =>
    if currTick < (q.tasks curr).finalTick then some (q.setNext tail (some curr), replied)
    else
      let replied := replied ++ [(q.tasks curr).tid]
      if curr = tail then some ({ q with tail := none }, replied)
      else
        match (q.tasks curr).next with
        | none => none
        | some next => removeLoop currTick tail fuel q next replied

def removeExpiredTasks (q : DelayedQueue) (currTick : Nat) : Option (DelayedQueue × List Tid) :=
  match q.tail with
  | none => some (q, [])
  | some tail =>
    match (q.tasks tail).next with
    | none => none
    | some curr => removeLoop currTick tail maxDelayedTasks q curr []

structure ClockReq where
  type : Int
  data : Int
deriving DecidableEq

def notification : Int := 5
def time : Int := 6
def delay : Int := 7
def delayUntil : Int := 8

/-- The local variables of `clockServerTask` that outlive a request. -/
structure ClockServer where
  tick : Nat
  queue : DelayedQueue

def initClockServer : ClockServer := ⟨0, initDelayedTasks⟩

def toUnsigned (i : Int) : Nat := (i % 2 ^ 32).toNat

/-- One turn of the loop of `clockServerTask`; gives the tasks that it replies to. -/
def serveClock (s : ClockServer) (tid : Tid) (req : ClockReq) : Option (ClockServer × List Tid) :=
  if req.type = notification then
    let tick := (s.tick + 1) % 2 ^ 32
    (removeExpiredTasks s.queue tick).map fun (queue, replied) => (⟨tick, queue⟩, tid :: replied)
  else if req.type = time then some (s, [tid])
  else if req.type = delay then
    (insertDelayedTask s.queue tid (toUnsigned (req.data + s.tick))).map fun queue =>
      ({ s with queue }, [])
  else if req.type = delayUntil then
    (insertDelayedTask s.queue tid (toUnsigned req.data)).map fun queue => ({ s with queue }, [])
  else none

end TrainKernel.User
