import Mathlib.Data.Fin.VecNotation
import TrainKernel.Kernel.Task
import TrainKernel.Library.LowestBit

/-!
# The scheduler

There is one ready queue for each priority and a status word with one bit for each
queue. The index of the lowest set bit is found with a De Bruijn multiplication.
-/

namespace TrainKernel.Kernel

open Function Library Library.Links

def scheduleTable : Fin 32 → Priority :=
  ![0, 1, 28, 2, 29, 14, 24, 3, 30, 22, 20, 15, 25, 17, 4, 8,
    31, 27, 13, 23, 21, 19, 16, 7, 26, 12, 18, 6, 11, 5, 10, 9]

def scheduleIndex (queueStatus : Word) : Priority :=
  scheduleTable (Fin.ofNat 32
    (((queueStatus ^^^ (queueStatus &&& (queueStatus - 1))) * 0x077cb531) >>> 27).toNat)

def schedule (k : State) : Option (TaskPtr × State) :=
  if k.queueStatus = 0 then none
  else
    let index := scheduleIndex k.queueStatus
    let q := k.readyQueues index
    match q.head with
    | none => none
    | some active =>
      let k' :=
        if q.head = q.tail then
          { k with
            readyQueues := update k.readyQueues index ⟨none, none⟩
            queueStatus := k.queueStatus &&& ~~~((1 : Word) <<< index.val) }
        else
          let head := (k.tasks active).next
          { k with
            readyQueues := update k.readyQueues index
              ⟨head, if head = none then none else q.tail⟩ }
      some (active, k'.setNext active none)

def queueTask (k : State) (task : TaskPtr) : State :=
  let priority := taskGetPriority (k.tasks task)
  let q := k.readyQueues priority
  let k := k.setNext task none
  match q.tail with
  | none =>
    { k with
      readyQueues := update k.readyQueues priority ⟨some task, some task⟩
      queueStatus := k.queueStatus ||| (1 : Word) <<< priority.val }
  | some last =>
    let k := k.setNext last (some task)
    { k with readyQueues := update k.readyQueues priority ⟨q.head, some task⟩ }

def addToFront (k : State) (task : TaskPtr) : State :=
  let priority := taskGetPriority (k.tasks task)
  let q := k.readyQueues priority
  match q.head with
  | none =>
    let k := k.setNext task none
    { k with
      readyQueues := update k.readyQueues priority ⟨some task, some task⟩
      queueStatus := k.queueStatus ||| (1 : Word) <<< priority.val }
  | some head =>
    let k := k.setNext task (some head)
    { k with readyQueues := update k.readyQueues priority ⟨some task, q.tail⟩ }

theorem scheduleTable_twoPow (i : Priority) :
    scheduleTable (Fin.ofNat 32 ((BitVec.twoPow 32 i * 0x077cb531) >>> 27).toNat) = i := by
  decide +revert

theorem scheduleIndex_val {x : Word} (hx : x ≠ 0) : (scheduleIndex x).val = x.ctz.toNat := by
  have hLt : x.ctz.toNat < 32 := BitVec.lt_def.mp (BitVec.ctz_lt_iff_ne_zero.mpr hx)
  rw [scheduleIndex, LowestBit.xor_and_pred hx]
  exact congrArg Fin.val (scheduleTable_twoPow ⟨x.ctz.toNat, hLt⟩)

/-- The De Bruijn expression names a set bit with none below it. -/
theorem scheduleIndex_lowest {x : Word} (hx : x ≠ 0) :
    x.getLsbD (scheduleIndex x) = true ∧ ∀ i < scheduleIndex x, x.getLsbD i = false := by
  constructor
  · rw [scheduleIndex_val hx]
    exact BitVec.getLsbD_true_ctz_of_ne_zero hx
  · intro i hi
    apply BitVec.getLsbD_false_of_lt_ctz
    rw [← scheduleIndex_val hx]
    exact hi

end TrainKernel.Kernel
