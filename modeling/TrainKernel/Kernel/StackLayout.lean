import Mathlib.Data.Set.Basic
import TrainKernel.Kernel.ContextSwitch
import TrainKernel.Kernel.Task

/-!
# The places of frames

What has to be apart for a context switch to lose nothing: the stack of the kernel, the
descriptors and the stacks of the tasks.
-/

namespace TrainKernel.Kernel

open Function Library.Words Library.Words.WordMemory Library.Arm

/-- Where the kernel and the tasks keep what must outlive a switch. `ksp` is the stack pointer
with which the main loop calls `kernelExit`. -/
structure Layout where
  ksp : Word
  descriptor : TaskPtr → Word
  stack : TaskPtr → Set Word
  aligned_ksp : Aligned ksp
  aligned_descriptor : ∀ t, Aligned (descriptor t)
  descriptor_inj : Injective descriptor
  stacks_apart : ∀ t t', t ≠ t' → ∀ q ∈ stack t, q ∉ stack t'
  kernelStack_apart : ∀ t, ∀ q ∈ stack t, ¬Inside (ksp - 56#32) 14 q
  field_kernelStack : ∀ t, ¬Inside (ksp - 56#32) 14 (spField (descriptor t))
  field_stack : ∀ t t', spField (descriptor t) ∉ stack t'

namespace Layout

def field (L : Layout) (t : TaskPtr) : Word := spField (L.descriptor t)

/-- The stack pointer leaves room for a frame on the task's own stack. -/
structure OnStack (L : Layout) (t : TaskPtr) (c : Context) : Prop where
  aligned : Aligned (c.reg .sp)
  frame : ∀ q, Inside c.frameAt 16 q → q ∈ L.stack t

end Layout

/-- A place for `global_task_table`, whose entries are 17 words long. -/
def tableEntry (t : TaskPtr) : Word := BitVec.ofNat 32 (0x240000 + 68 * t)

/-- The stacks as `taskCreate` gives them out. A task starts one word above its own stretch, which
is why each stack here ends on the last word of the next. -/
def stackWords (t : TaskPtr) : Set Word :=
  {q | t.val ≤ 32 ∧ 0x1f00004 ≤ q.toNat + 524348 * t ∧
    q.toNat + 524348 * t < 0x1f00004 + 524348}

theorem toNat_tableEntry (t : TaskPtr) : (tableEntry t).toNat = 0x240000 + 68 * t :=
  Nat.mod_eq_of_lt (by omega)

theorem aligned_tableEntry (t : TaskPtr) : Aligned (tableEntry t) := by
  rw [Aligned, toNat_tableEntry]
  omega

theorem tableEntry_injective : Injective tableEntry := by
  intro t t' h
  have hNat := congrArg BitVec.toNat h
  rw [toNat_tableEntry, toNat_tableEntry] at hNat
  exact Fin.ext (by omega)

theorem toNat_spField_tableEntry (t : TaskPtr) :
    (spField (tableEntry t)).toNat = 0x240008 + 68 * t := by
  have hEntry := toNat_tableEntry t
  simp only [spField]
  bv_omega

theorem stackWords_apart (t t' : TaskPtr) (h : t ≠ t') : ∀ q ∈ stackWords t, q ∉ stackWords t' := by
  rintro q ⟨-, hAbove, hBelow⟩ ⟨-, hAbove', hBelow'⟩
  exact h (Fin.ext (by omega))

def boardKsp : Word := 0x1fdd000

theorem stackWords_kernelStack (t : TaskPtr) (q : Word) (h : q ∈ stackWords t) :
    ¬Inside (boardKsp - 56#32) 14 q := by
  obtain ⟨-, -, hBelow⟩ := h
  simp only [Inside, boardKsp]
  bv_omega

theorem spField_kernelStack (t : TaskPtr) :
    ¬Inside (boardKsp - 56#32) 14 (spField (tableEntry t)) := by
  have hKsp : (boardKsp - 56#32).toNat = 33411016 := rfl
  rw [Inside, BitVec.toNat_sub, toNat_spField_tableEntry, hKsp, Nat.mod_eq_of_lt (by omega)]
  omega

theorem spField_stackWords (t t' : TaskPtr) : spField (tableEntry t) ∉ stackWords t' := by
  rintro ⟨hLow, hAbove, -⟩
  rw [toNat_spField_tableEntry] at hAbove
  omega

def boardLayout : Layout where
  ksp := boardKsp
  descriptor := tableEntry
  stack := stackWords
  aligned_ksp := rfl
  aligned_descriptor := aligned_tableEntry
  descriptor_inj := tableEntry_injective
  stacks_apart := stackWords_apart
  kernelStack_apart := stackWords_kernelStack
  field_kernelStack := spField_kernelStack
  field_stack := spField_stackWords

def firstTask : TaskPtr := taskGetIndexById 1

def secondTask : TaskPtr := taskGetIndexById 2

def boardTasks : Set TaskPtr := {firstTask, secondTask}

/-- No two registers of the tasks hold the same word. -/
def boardContext (t : TaskPtr) : Context where
  psr := ⟨0, false, true, false, .usr⟩
  reg r := if r = .sp then 0x1f7f000 - BitVec.ofNat 32 (0x80000 * t)
    else BitVec.ofNat 32 (0x218000 + 64 * t + 4 * savedRegs.idxOf r)

/-- The main loop about to call `kernelExit` for the first task. -/
def boardMachine : Machine Mem where
  file s := if s = (.svc, .sp) then boardKsp else if s = (.usr, .r0) then tableEntry firstTask
    else BitVec.ofNat 32 (0x219000 + 4 * savedRegs.idxOf s.2)
  cpsr := ⟨0, true, true, false, .svc⟩
  spsr _ := ⟨0, true, true, false, .svc⟩
  mem := (boardContext secondTask).save
    ((boardContext firstTask).save (fun _ => 0) (tableEntry firstTask)) (tableEntry secondTask)

theorem frame_stackWords {t : TaskPtr} {a q : Word} (ht : t.val ≤ 32)
    (hLow : 0x1f00004 ≤ a.toNat + 524348 * t)
    (hHigh : a.toNat + 64 + 524348 * t ≤ 0x1f00004 + 524348) (hq : Inside a 16 q) :
    q ∈ stackWords t := by
  have hRoom : q.toNat = a.toNat + (q - a).toNat := by
    simp only [Inside] at hq
    bv_omega
  exact ⟨ht, by omega, by omega⟩

theorem onStack_boardContext {t : TaskPtr} (ht : t ∈ boardTasks) :
    boardLayout.OnStack t (boardContext t) := by
  rcases ht with rfl | rfl
  · exact ⟨by decide, fun q => frame_stackWords (by decide) (by decide) (by decide)⟩
  · exact ⟨by decide, fun q => frame_stackWords (by decide) (by decide) (by decide)⟩

theorem frame_field {t : TaskPtr} (ht : t ∈ boardTasks) (t' : TaskPtr) :
    ¬Inside (boardContext t).frameAt 16 (spField (tableEntry t')) := fun hInside =>
  spField_stackWords t' t ((onStack_boardContext ht).frame _ hInside)

end TrainKernel.Kernel
