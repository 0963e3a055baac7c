import Mathlib.Logic.Function.Basic
import TrainKernel.Library.Links
import TrainKernel.Library.Words

/-!
# The data of the kernel

Words, user memory, task descriptors and the tables that the kernel modules keep
as static data: the task table, the ready queues, the send queues and the event
table. A pointer to a descriptor is its position in the task table.
-/

namespace TrainKernel.Kernel

open Function Library.Links
open Library.Words (Aligned)

abbrev Word := BitVec 32

abbrev Byte := BitVec 8

/-- User memory, byte by byte. The kernel keeps its own tables apart from it. -/
abbrev Mem := Word → Byte

/-- `memcpy`, taken at its word: exactly `n` bytes go from `src` to `dest`. -/
def memcpy (mem : Mem) (dest src n : Word) : Mem := fun a =>
  if a - dest < n then mem (src + (a - dest)) else mem a

/-- The address of the word that the byte at `p` lies in. -/
def wordAt (p : Word) : Word := p - p % 4

/-- Where byte `d` of a load at `p` comes from: `ldr` loads the word and rotates it. -/
def lane (p d : Word) : Word := wordAt p + (p + d) % 4

/-- An `int` store through a pointer, in the byte order of the ARM. -/
def storeWord (mem : Mem) (p v : Word) : Mem := fun a =>
  if a - wordAt p < 4 then (v >>> (8 * (a - wordAt p).toNat)).setWidth 8 else mem a

def loadWord (mem : Mem) (p : Word) : Word :=
  (mem (lane p 0#32)).setWidth 32 ||| (mem (lane p 1#32)).setWidth 32 <<< 8 |||
    (mem (lane p 2#32)).setWidth 32 <<< 16 ||| (mem (lane p 3#32)).setWidth 32 <<< 24

theorem toNat_mod_four (x : Word) : (x % 4).toNat = x.toNat % 4 := rfl

theorem wordAt_of_aligned {p : Word} (hp : Aligned p) : wordAt p = p := by
  have hMod := toNat_mod_four p
  rw [wordAt]
  generalize p % 4 = r at hMod ⊢
  simp only [Aligned] at hp
  bv_omega

theorem aligned_wordAt (p : Word) : Aligned (wordAt p) := by
  have hMod := toNat_mod_four p
  rw [wordAt]
  generalize p % 4 = r at hMod ⊢
  simp only [Aligned]
  bv_omega

theorem lane_of_aligned {p d : Word} (hp : Aligned p) (hd : d < 4) : lane p d = p + d := by
  have hMod := toNat_mod_four (p + d)
  rw [lane, wordAt_of_aligned hp]
  generalize (p + d) % 4 = r at hMod ⊢
  simp only [Aligned] at hp
  bv_omega

theorem storeWord_byte (mem : Mem) (p v : Word) {d : Word} (h : d < 4) :
    storeWord mem p v (wordAt p + d) = (v >>> (8 * d.toNat)).setWidth 8 := by
  rw [storeWord, BitVec.add_comm, BitVec.add_sub_cancel, if_pos h]

/-- What is stored is found in the word itself, wherever in it the pointer points. -/
theorem loadWord_storeWord_wordAt (mem : Mem) (p v : Word) :
    loadWord (storeWord mem p v) (wordAt p) = v := by
  have hLane {d : Word} (hd : d < 4) : lane (wordAt p) d = wordAt p + d :=
    lane_of_aligned (aligned_wordAt p) hd
  rw [loadWord, hLane (by decide), hLane (by decide), hLane (by decide), hLane (by decide),
    storeWord_byte _ _ _ (by decide), storeWord_byte _ _ _ (by decide),
    storeWord_byte _ _ _ (by decide), storeWord_byte _ _ _ (by decide)]
  ext i hi
  simp only [BitVec.getElem_or, BitVec.getElem_setWidth, BitVec.getElem_shiftLeft,
    BitVec.getLsbD_setWidth, BitVec.getLsbD_ushiftRight]
  grind

theorem loadWord_storeWord (mem : Mem) {p : Word} (v : Word) (hp : Aligned p) :
    loadWord (storeWord mem p v) p = v := by
  have hStored := loadWord_storeWord_wordAt mem p v
  rwa [wordAt_of_aligned hp] at hStored

def minLen (a b : Word) : Word := if a < b then a else b

theorem minLen_comm (a b : Word) : minLen a b = minLen b a := by
  rw [minLen, minLen]
  split <;> split <;> bv_omega

abbrev taskMaxTasks : Nat := 128

abbrev taskMaxPriority : Nat := 32

/-- A task descriptor pointer: a position in `global_task_table`. -/
abbrev TaskPtr := Fin 128

abbrev Priority := Fin 32

inductive Status where
  | ready
  | sendBlock
  | receiveBlock
  | replyBlock
deriving DecidableEq, Repr

/-- `ret` is the word at `sp + 2`, the slot of the trap frame from which the task
finds its `r0` when it runs again. -/
structure TaskDescriptor where
  id : Nat
  parentId : Nat
  sp : Word
  status : Status
  sendId : Word
  sendBuf : Word
  recvBuf : Word
  sendLen : Word
  recvLen : Word
  next : Option TaskPtr
  cpuTimeUsed : Word
  originalReceiverId : Int
  ret : Word

abbrev TaskQueue := Queue TaskPtr

structure Syscall where
  type : Word
  arg1 : Word := 0
  arg2 : Word := 0
  arg3 : Word := 0
  arg4 : Word := 0
  arg5 : Word := 0
deriving DecidableEq

def sysAwaitEvent : Word := 1
def sysSend : Word := 2
def sysReceive : Word := 3
def sysReply : Word := 4
def sysCreate : Word := 5
def sysExit : Word := 6
def sysMyTid : Word := 7
def sysMyParentTid : Word := 8
def sysPass : Word := 9
def sysSpawn : Word := 10
def sysHalt : Word := 11

abbrev Event := Fin 5

def timerEvent : Event := 0
def uart1RecvEvent : Event := 1
def uart1XmitEvent : Event := 2
def uart2RecvEvent : Event := 3
def uart2XmitEvent : Event := 4

structure State where
  tasks : TaskPtr → TaskDescriptor
  nextUniqueTaskId : Nat
  currentStackAddress : Word
  queueStatus : Word
  readyQueues : Priority → TaskQueue
  sendQueues : TaskPtr → TaskQueue
  eventTable : Event → Option TaskPtr
  ctsOn : Int
  xmitRdy : Int
  uart1Ctlr : Word
  uart2Ctlr : Word
  mem : Mem

/-- Assignments through a descriptor pointer. -/
def State.modify (k : State) (t : TaskPtr) (f : TaskDescriptor → TaskDescriptor) : State :=
  { k with tasks := update k.tasks t (f (k.tasks t)) }

def State.setMem (k : State) (mem : Mem) : State := { k with mem := mem }

def State.setNext (k : State) (t : TaskPtr) (v : Option TaskPtr) : State :=
  k.modify t fun d => { d with next := v }

end TrainKernel.Kernel
