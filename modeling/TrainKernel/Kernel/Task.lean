import TrainKernel.Kernel.State

/-!
# The task table

Task ids pack the table index, the priority and a unique number into one word.
Tasks are created at the next free index, which is never given out again, and
each one takes the next stretch of stack space below the last.
-/

namespace TrainKernel.Kernel

open Function

def taskTrapSize : Word := 15

/-- `TASK_MAX_TASKS * 1024`, in words of four bytes once it meets a pointer. -/
def taskStackSize : Word := 128 * 1024

def taskStackHigh : Word := 0x1f00000

/-- The macro counts the words of `TASK_MAX_TASKS` stacks as if they were bytes. -/
def taskStackLow : Word := taskStackHigh - 128 * (taskStackSize + taskTrapSize)

def isValidTaskIndex (index : Int) : Bool := 0 < index && index < taskMaxTasks

def makeId (index priority unique : Nat) : Nat :=
  index ||| priority <<< 7 ||| unique <<< 12

def taskGetIndexById (taskId : Nat) : TaskPtr :=
  ⟨taskId &&& 127, Nat.lt_of_le_of_lt Nat.and_le_right (by decide)⟩

def taskGetIndex (task : TaskDescriptor) : TaskPtr := taskGetIndexById task.id

def taskGetPriority (task : TaskDescriptor) : Priority :=
  ⟨(task.id &&& 31 <<< 7) >>> 7, by
    rw [Nat.shiftRight_and_distrib]
    exact Nat.lt_of_le_of_lt Nat.and_le_right (by decide)⟩

def taskGetMyParentIndex (task : TaskDescriptor) : TaskPtr := taskGetIndexById task.parentId

def taskGetTDByIndex (index : Int) : Option TaskPtr :=
  if h : index ≤ 0 ∨ taskMaxTasks ≤ index then none
  else some ⟨index.toNat, by simp at h ⊢; omega⟩

def taskGetTDById (taskId : Nat) : Option TaskPtr := taskGetTDByIndex (taskGetIndexById taskId)

def taskSetRet (k : State) (task : TaskPtr) (ret : Word) : State :=
  k.modify task fun d => { d with ret := ret }

/-- A descriptor as `initTaskSystem` and, but for the last two fields, `taskExit` leave it. -/
def TaskDescriptor.cleared (originalReceiverId : Int) (ret : Word) : TaskDescriptor :=
  { id := 0, parentId := 0, sp := 0, status := .ready, sendId := 0, sendBuf := 0, recvBuf := 0,
    sendLen := 0, recvLen := 0, next := none, cpuTimeUsed := 0,
    originalReceiverId := originalReceiverId, ret := ret }

/-- The loop of `initTaskSystem` starts at 1: entry 0 keeps the zeros of static data. -/
def initTasks (index : TaskPtr) : TaskDescriptor :=
  TaskDescriptor.cleared (if index = 0 then 0 else -1) 0

def taskCreate (k : State) (priority : Int) (code : Word) (parentId : Nat) : Int × State :=
  if priority < 0 ∨ taskMaxPriority ≤ priority ∨ code = 0 then (-1, k)
  else if h : taskMaxTasks ≤ k.nextUniqueTaskId then (-2, k)
  else
    let boundary := k.currentStackAddress - 4 * taskStackSize - 4 * taskTrapSize
    if boundary < taskStackLow then (-3, k)
    else
      let uniqueId := k.nextUniqueTaskId
      let index : TaskPtr := ⟨k.nextUniqueTaskId, Nat.lt_of_not_le h⟩
      let id := makeId index priority.toNat uniqueId
      let k := k.modify index fun d =>
        { d with id, parentId, sp := k.currentStackAddress - 4 * taskTrapSize, next := none }
      (id, { k with
        nextUniqueTaskId := k.nextUniqueTaskId + 1
        currentStackAddress := k.currentStackAddress - 4 * (taskTrapSize + taskStackSize) })

def taskSpawn (k : State) (priority : Int) (code argument : Word) (parentId : Nat) :
    Option TaskPtr × State :=
  let (tid, k) := taskCreate k priority code parentId
  if tid < 0 then (none, k)
  else
    let spawnling := taskGetIndexById tid.toNat
    (some spawnling, taskSetRet k spawnling argument)

def taskExit (k : State) (task : TaskPtr) : State :=
  k.modify task fun d => TaskDescriptor.cleared d.originalReceiverId d.ret

theorem makeId_eq {index priority unique : Nat} (hi : index < 128) (hp : priority < 32) :
    makeId index priority unique = index + 128 * (priority + 32 * unique) := by
  have hu : unique <<< 12 = 2 ^ 12 * unique := by rw [Nat.shiftLeft_eq, Nat.mul_comm]
  have hq : priority <<< 7 = 2 ^ 7 * priority := by rw [Nat.shiftLeft_eq, Nat.mul_comm]
  have hLow : index ||| 2 ^ 7 * priority = 2 ^ 7 * priority + index := by
    rw [Nat.two_pow_add_eq_or_of_lt hi, Nat.or_comm]
  rw [makeId, hu, hq, hLow, Nat.or_comm,
    ← Nat.two_pow_add_eq_or_of_lt (by omega : 2 ^ 7 * priority + index < 2 ^ 12)]
  omega

theorem taskGetIndexById_val (id : Nat) : (taskGetIndexById id).val = id % 128 :=
  Nat.and_two_pow_sub_one_eq_mod id 7

theorem taskGetIndexById_makeId {index : TaskPtr} {priority unique : Nat} (hp : priority < 32) :
    taskGetIndexById (makeId index priority unique) = index := by
  apply Fin.ext
  rw [taskGetIndexById_val, makeId_eq index.isLt hp]
  have := index.isLt
  omega

theorem taskGetTDByIndex_eq_some_iff {index : Int} {t : TaskPtr} :
    taskGetTDByIndex index = some t ↔ 0 < index ∧ index = t := by
  have ht := t.isLt
  have hMax : taskMaxTasks = 128 := rfl
  rw [taskGetTDByIndex]
  split
  · simp only [reduceCtorEq, false_iff]
    omega
  · simp only [Option.some.injEq, Fin.ext_iff]
    omega

theorem taskGetTDByIndex_isSome {index : Int} :
    (taskGetTDByIndex index).isSome ↔ isValidTaskIndex index := by
  have hMax : taskMaxTasks = 128 := rfl
  rw [taskGetTDByIndex, isValidTaskIndex]
  split
  · simp only [Option.isSome_none, Bool.false_eq_true, false_iff, Bool.and_eq_true,
      decide_eq_true_eq]
    omega
  · simp only [Option.isSome_some, true_iff, Bool.and_eq_true, decide_eq_true_eq]
    omega

end TrainKernel.Kernel
