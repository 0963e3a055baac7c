import Mathlib.Order.Interval.Set.Defs
import Mathlib.Data.List.Chain
import Mathlib.Data.Set.Lattice
import Mathlib.Order.CompletePartialOrder
import TrainKernel.Kernel.Placement

/-!
# The stacks of the tasks

Every task takes the next stretch of the stack area. The area has been laid out for 128 stacks,
but in bytes where the stacks are counted in words, and a task that starts takes sixteen words off
its stack where fifteen have been put aside.
-/

namespace TrainKernel.Kernel

open Function

def ProperArgs (priority : Int) (code : Word) : Prop :=
  0 ≤ priority ∧ priority < taskMaxPriority ∧ code ≠ 0

instance instDecidableProperArgs (priority : Int) (code : Word) :
    Decidable (ProperArgs priority code) :=
  inferInstanceAs (Decidable (_ ∧ _ ∧ _))

inductive TaskCall where
  | create (priority : Int) (code : Word) (parentId : Nat)
  | spawn (priority : Int) (code argument : Word) (parentId : Nat)
  | exit (task : TaskPtr)
deriving DecidableEq

namespace TaskCall

/-- The task that the call creates, and the state after the call. -/
def run (k : State) : TaskCall → Option TaskPtr × State
  | .create priority code parentId =>
    let (id, k) := taskCreate k priority code parentId
    (if 0 ≤ id then some (taskGetIndexById id.toNat) else none, k)
  | .spawn priority code argument parentId => taskSpawn k priority code argument parentId
  | .exit task => (none, taskExit k task)

def Requests : TaskCall → Prop
  | .create priority code _ | .spawn priority code _ _ => ProperArgs priority code
  | .exit _ => False

instance : DecidablePred Requests
  | .create .. | .spawn .. => inferInstanceAs (Decidable (ProperArgs _ _))
  | .exit _ => isFalse id

end TaskCall

def initTaskSystem (k : State) : State :=
  { k with tasks := initTasks, nextUniqueTaskId := 1, currentStackAddress := taskStackHigh }

/-- `n` tasks have been created. -/
structure Allocated (k : State) (n : Nat) : Prop where
  nextUniqueTaskId : k.nextUniqueTaskId = n + 1
  stack : k.currentStackAddress.toNat = 32505856 - 524348 * n
  room : n ≤ 32

variable {k : State} {n parentId : Nat} {priority : Int} {code : Word}

theorem initTaskSystem_allocated (k : State) : Allocated (initTaskSystem k) 0 :=
  ⟨rfl, rfl, Nat.zero_le _⟩

theorem four_mul_taskStackSize : 4 * taskStackSize = 524288 := by decide

theorem four_mul_taskTrapSize : 4 * taskTrapSize = 60 := by decide

theorem Allocated.sub_stack (h : Allocated k n) :
    (k.currentStackAddress - 4 * taskStackSize).toNat = 31981568 - 524348 * n := by
  have hRoom := h.room
  rw [four_mul_taskStackSize, BitVec.toNat_sub_of_le, h.stack]
  · change 32505856 - 524348 * n - 524288 = _
    omega
  · rw [BitVec.le_def, h.stack]
    change 524288 ≤ 32505856 - 524348 * n
    omega

theorem Allocated.boundary (h : Allocated k n) :
    (k.currentStackAddress - 4 * taskStackSize - 4 * taskTrapSize).toNat
      = 31981508 - 524348 * n := by
  have hRoom := h.room
  rw [four_mul_taskTrapSize, BitVec.toNat_sub_of_le, h.sub_stack]
  · change 31981568 - 524348 * n - 60 = _
    omega
  · rw [BitVec.le_def, h.sub_stack]
    change 60 ≤ 31981568 - 524348 * n
    omega

/-- The boundary that `taskCreate` computes is too low for the thirty-third task. -/
theorem Allocated.boundary_lt_iff (h : Allocated k n) :
    k.currentStackAddress - 4 * taskStackSize - 4 * taskTrapSize < taskStackLow ↔ n = 32 := by
  have hRoom := h.room
  have hLow : taskStackLow.toNat = 15726720 := by decide
  rw [BitVec.lt_def, h.boundary, hLow]
  omega

theorem Allocated.sub_both (h : Allocated k n) (hn : n < 32) :
    (k.currentStackAddress - 4 * (taskTrapSize + taskStackSize)).toNat
      = 32505856 - 524348 * (n + 1) := by
  have hBoth : 4 * (taskTrapSize + taskStackSize) = 524348 := by decide
  rw [hBoth, BitVec.toNat_sub_of_le, h.stack]
  · change 32505856 - 524348 * n - 524348 = _
    omega
  · rw [BitVec.le_def, h.stack]
    change 524348 ≤ 32505856 - 524348 * n
    omega

theorem ProperArgs.valid (h : ProperArgs priority code) :
    ¬(priority < 0 ∨ (taskMaxPriority : Int) ≤ priority ∨ code = 0) := by
  simp only [not_or, not_lt, not_le]
  exact h

theorem taskCreate_improper (hArgs : ¬ProperArgs priority code) :
    taskCreate k priority code parentId = (-1, k) := by
  rw [taskCreate, if_pos]
  by_contra hValid
  simp only [not_or, not_lt, not_le] at hValid
  exact hArgs hValid

theorem Allocated.create_full (h : Allocated k 32) (hArgs : ProperArgs priority code) :
    taskCreate k priority code parentId = (-3, k) := by
  have hRoom : ¬taskMaxTasks ≤ k.nextUniqueTaskId := by
    rw [h.nextUniqueTaskId]
    decide
  rw [taskCreate, if_neg hArgs.valid, dif_neg hRoom]
  dsimp only
  rw [if_pos (h.boundary_lt_iff.mpr rfl)]

theorem Allocated.create (h : Allocated k n) (hn : n < 32) (hArgs : ProperArgs priority code) :
    ∃ id k', taskCreate k priority code parentId = (Int.ofNat id, k') ∧
      (taskGetIndexById id).val = n + 1 ∧
      (k'.tasks (taskGetIndexById id)).sp = k.currentStackAddress - 4 * taskTrapSize ∧
      Allocated k' (n + 1) := by
  have hRoom : k.nextUniqueTaskId < taskMaxTasks := by
    rw [h.nextUniqueTaskId]
    exact Nat.lt_of_lt_of_le (Nat.succ_lt_succ hn) (by decide)
  have hPriority : priority.toNat < 32 := by
    have hMax : taskMaxPriority = 32 := rfl
    have := hArgs.2.1
    omega
  have hIndex := @taskGetIndexById_makeId ⟨_, hRoom⟩ priority.toNat k.nextUniqueTaskId hPriority
  rw [taskCreate, if_neg hArgs.valid, dif_neg hRoom.not_ge]
  dsimp only
  rw [if_neg (mt h.boundary_lt_iff.mp hn.ne)]
  refine ⟨_, _, rfl, ?_, ?_, congrArg (· + 1) h.nextUniqueTaskId, h.sub_both hn, hn⟩
  · rw [hIndex]
    exact h.nextUniqueTaskId
  · rw [hIndex]
    simp [State.modify]

theorem taskSpawn_of_create {argument : Word} {id : Nat} {k' : State}
    (h : taskCreate k priority code parentId = (Int.ofNat id, k')) :
    taskSpawn k priority code argument parentId
      = (some (taskGetIndexById id), taskSetRet k' (taskGetIndexById id) argument) := by
  rw [taskSpawn, h]
  exact if_neg (Int.natCast_nonneg id).not_gt

theorem taskSpawn_of_fail {argument : Word} {error : Int} (hError : error < 0)
    (h : taskCreate k priority code parentId = (error, k)) :
    taskSpawn k priority code argument parentId = (none, k) := by
  rw [taskSpawn, h]
  exact if_pos hError

theorem Allocated.create_fails (h : Allocated k n) (hFail : ¬(ProperArgs priority code ∧ n < 32)) :
    ∃ error < 0, taskCreate k priority code parentId = (error, k) := by
  by_cases hArgs : ProperArgs priority code
  · have hFull : n = 32 := le_antisymm h.room (not_lt.mp fun hn => hFail ⟨hArgs, hn⟩)
    subst hFull
    exact ⟨-3, by decide, h.create_full hArgs⟩
  · exact ⟨-1, by decide, taskCreate_improper hArgs⟩

theorem Allocated.congr {k' : State} (h : Allocated k n)
    (hNext : k'.nextUniqueTaskId = k.nextUniqueTaskId)
    (hStack : k'.currentStackAddress = k.currentStackAddress) : Allocated k' n :=
  ⟨hNext.trans h.nextUniqueTaskId, by rw [hStack, h.stack], h.room⟩

/-- A call creates the task `index`, in the stretch of the stack area that was next. -/
structure Creates (k : State) (call : TaskCall) (n : Nat) (index : TaskPtr) : Prop where
  index_val : index.val = n + 1
  created : (call.run k).1 = some index
  sp : ((call.run k).2.tasks index).sp = k.currentStackAddress - 4 * taskTrapSize
  allocated : Allocated (call.run k).2 (n + 1)

variable {call : TaskCall}

theorem Allocated.creates (h : Allocated k n) (hn : n < 32) (hCall : call.Requests) :
    ∃ index, Creates k call n index := by
  cases call with
  | create priority code parentId =>
    obtain ⟨id, k', hCreate, hIndex, hSp, hAllocated⟩ :
      ∃ id k', taskCreate k priority code parentId = _ ∧ _ := h.create hn hCall
    have hRun : (TaskCall.create priority code parentId).run k
        = (some (taskGetIndexById id), k') := by
      rw [TaskCall.run, hCreate]
      have hPos : 0 ≤ Int.ofNat id := Int.natCast_nonneg id
      dsimp only
      rw [if_pos hPos]
      rfl
    exact ⟨_, hIndex, by rw [hRun], by rw [hRun]; exact hSp, by rw [hRun]; exact hAllocated⟩
  | spawn priority code argument parentId =>
    obtain ⟨id, k', hCreate, hIndex, hSp, hAllocated⟩ :
      ∃ id k', taskCreate k priority code parentId = _ ∧ _ := h.create hn hCall
    have hRun : (TaskCall.spawn priority code argument parentId).run k
        = (some (taskGetIndexById id), taskSetRet k' (taskGetIndexById id) argument) :=
      taskSpawn_of_create hCreate
    have hSp' : ((taskSetRet k' (taskGetIndexById id) argument).tasks (taskGetIndexById id)).sp
        = k.currentStackAddress - 4 * taskTrapSize := by
      simpa [taskSetRet, State.modify] using hSp
    exact ⟨_, hIndex, by rw [hRun], by rw [hRun]; exact hSp',
      by rw [hRun]; exact hAllocated.congr rfl rfl⟩
  | exit task => exact hCall.elim

theorem Allocated.creates_none (h : Allocated k n) (hFail : ¬(call.Requests ∧ n < 32)) :
    (call.run k).1 = none ∧ Allocated (call.run k).2 n := by
  cases call with
  | create priority code parentId =>
    obtain ⟨error, hError, hCreate⟩ :
      ∃ error < 0, taskCreate k priority code parentId = _ := h.create_fails hFail
    rw [TaskCall.run, hCreate]
    exact ⟨if_neg hError.not_ge, h⟩
  | spawn priority code argument parentId =>
    obtain ⟨error, hError, hCreate⟩ :
      ∃ error < 0, taskCreate k priority code parentId = _ := h.create_fails hFail
    rw [TaskCall.run, taskSpawn_of_fail hError hCreate]
    exact ⟨rfl, h⟩
  | exit task => exact ⟨rfl, h.congr rfl rfl⟩

theorem TaskCall.run_eq_of_none (hNone : (call.run k).1 = none)
    (hExit : ∀ task, call ≠ .exit task) :
    (call.run k).2 = k := by
  cases call with
  | create priority code parentId =>
    rcases taskCreate_cases k priority code parentId with ⟨-, hSame⟩ | ⟨id, _, _, _, _, _, hEq⟩
    · exact hSame
    · rw [run, hEq] at hNone
      simp at hNone
  | spawn priority code argument parentId =>
    rcases taskCreate_cases k priority code parentId with ⟨hFail, hSame⟩ | ⟨id, _, _, _, _, _, hEq⟩
    · rw [run, taskSpawn_of_fail hFail (Prod.ext rfl hSame)]
    · rw [run, taskSpawn_of_create hEq] at hNone
      cases hNone
  | exit task => exact absurd rfl (hExit task)

/-! ## The stacks -/

/-- `cpsr` and `pc`, then `r0` to `r12` and `lr`. -/
def kernelExitWords : Nat := 2 + 14

/-- Where a new task has its stack: the boundary below it, and the first stack pointer. -/
structure Allotment where
  boundary : Word
  sp : Word

/-- The bytes that the task may use. -/
def Allotment.usable (a : Allotment) : Set Nat :=
  Set.Ico a.boundary.toNat (a.sp.toNat + 4 * kernelExitWords)

def TaskCall.allotment (k : State) (call : TaskCall) : Option Allotment :=
  (call.run k).1.map fun index =>
    ⟨k.currentStackAddress - 4 * taskStackSize - 4 * taskTrapSize,
      ((call.run k).2.tasks index).sp⟩

def allotments : State → List TaskCall → List Allotment
  | _, [] => []
  | k, call :: calls => (call.allotment k).toList ++ allotments (call.run k).2 calls

def StacksApart (areas : List Allotment) : Prop :=
  areas.Pairwise (fun a b => Disjoint a.usable b.usable) ∧
    ∀ a ∈ areas, a.usable ⊆ Set.Ico taskStackLow.toNat taskStackHigh.toNat

def Allotment.Nth (a : Allotment) (n : Nat) : Prop :=
  a.usable = Set.Ico (31981508 - 524348 * n) (32505860 - 524348 * n)

theorem Allocated.allotment (h : Allocated k n) (hn : n < 32) (hCall : call.Requests) :
    ∃ a : Allotment, call.allotment k = some a ∧ a.Nth n ∧ Allocated (call.run k).2 (n + 1) := by
  obtain ⟨index, hCreates⟩ := h.creates hn hCall
  refine ⟨_, by rw [TaskCall.allotment, hCreates.created]; rfl, ?_, hCreates.allocated⟩
  have hSp : (k.currentStackAddress - 4 * taskTrapSize).toNat = 32505796 - 524348 * n := by
    rw [four_mul_taskTrapSize, BitVec.toNat_sub_of_le, h.stack]
    · change 32505856 - 524348 * n - 60 = _
      omega
    · rw [BitVec.le_def, h.stack]
      change 60 ≤ 32505856 - 524348 * n
      omega
  rw [Allotment.Nth, Allotment.usable, h.boundary]
  dsimp only
  rw [hCreates.sp, hSp]
  congr 1
  change 32505796 - 524348 * n + 64 = _
  omega

theorem Allocated.no_allotment (h : Allocated k n) (hFail : ¬(call.Requests ∧ n < 32)) :
    call.allotment k = none := by
  rw [TaskCall.allotment, (h.creates_none hFail).1]
  rfl

/-- The stack of a task reaches one word into the stack of the task that was created before. -/
theorem Allotment.Nth.overlap {a b : Allotment} (ha : a.Nth n) (hb : b.Nth (n + 1))
    (hn : n < 32) : ¬Disjoint a.usable b.usable := by
  rw [Set.not_disjoint_iff]
  refine ⟨31981508 - 524348 * n, ?_, ?_⟩
  · rw [ha]
    constructor <;> omega
  · rw [hb]
    constructor <;> omega

theorem Allotment.Nth.not_subset {a : Allotment} (ha : a.Nth 0) :
    ¬a.usable ⊆ Set.Ico taskStackLow.toNat taskStackHigh.toNat := by
  have hHigh : taskStackHigh.toNat = 32505856 := by decide
  intro hSubset
  have hTop : 32505856 ∈ a.usable := by
    rw [ha]
    constructor <;> omega
  exact absurd (hSubset hTop).2 (by rw [hHigh]; exact lt_irrefl _)

theorem allotments_first {calls : List TaskCall} (h : Allocated k 0)
    (hCall : ∃ call ∈ calls, call.Requests) :
    ∃ a areas, allotments k calls = a :: areas ∧ a.Nth 0 := by
  induction calls generalizing k with
  | nil => exact absurd hCall (by simp)
  | cons call calls ih =>
    rw [allotments]
    by_cases hFirst : call.Requests
    · obtain ⟨a, ha, hNth, -⟩ := h.allotment (by decide) hFirst
      exact ⟨a, _, by rw [ha]; rfl, hNth⟩
    · have hFail : ¬(call.Requests ∧ 0 < 32) := fun hBoth => hFirst hBoth.1
      rw [h.no_allotment hFail]
      apply ih (h.creates_none hFail).2
      obtain ⟨later, hMem, hRequests⟩ := hCall
      rcases List.mem_cons.mp hMem with rfl | hMem
      · exact absurd hRequests hFirst
      · exact ⟨later, hMem, hRequests⟩

/-- Neighbouring stacks overlap in the word that holds `lr` when the later task starts. -/
theorem allotments_chain {calls : List TaskCall} (h : Allocated k n) :
    (∀ a ∈ (allotments k calls).head?, a.Nth n) ∧
      (allotments k calls).IsChain fun a b => ¬Disjoint a.usable b.usable := by
  induction calls generalizing k n with
  | nil => exact ⟨by simp [allotments], .nil⟩
  | cons call calls ih =>
    rw [allotments]
    by_cases hBoth : call.Requests ∧ n < 32
    · obtain ⟨a, ha, hNth, hNext⟩ := h.allotment hBoth.2 hBoth.1
      obtain ⟨hHead, hChain⟩ := ih hNext
      rw [ha]
      refine ⟨by simpa using hNth, hChain.cons fun b hb => ?_⟩
      exact hNth.overlap (hHead b hb) hBoth.2
    · rw [h.no_allotment hBoth]
      exact ih (h.creates_none hBoth).2

theorem allotments_nil {calls : List TaskCall} (h : Allocated k n)
    (hCalls : ∀ call ∈ calls, ¬call.Requests) : allotments k calls = [] := by
  induction calls generalizing k with
  | nil => rfl
  | cons call calls ih =>
    have hFail : ¬(call.Requests ∧ n < 32) := fun hBoth => hCalls call List.mem_cons_self hBoth.1
    rw [allotments, h.no_allotment hFail]
    exact ih (h.creates_none hFail).2 fun later hMem => hCalls later (List.mem_cons_of_mem _ hMem)

/-- The first stack already reaches past the top of the stack area. -/
theorem stacksApart_iff (k : State) (calls : List TaskCall) :
    StacksApart (allotments (initTaskSystem k) calls) ↔ ∀ call ∈ calls, ¬call.Requests := by
  constructor
  · intro hApart
    by_contra hCall
    push Not at hCall
    obtain ⟨a, areas, hAreas, hNth⟩ := allotments_first (initTaskSystem_allocated k) hCall
    refine hNth.not_subset (hApart.2 a ?_)
    rw [hAreas]
    exact List.mem_cons_self
  · intro hCalls
    rw [allotments_nil (initTaskSystem_allocated k) hCalls]
    exact ⟨List.Pairwise.nil, by simp⟩

def someState : State := initState (fun _ => 0) 0 0

theorem not_stacksApart : ¬StacksApart (allotments (initTaskSystem someState)
    [.create 0 1 0, .create 0 1 0]) := by
  rintro ⟨-, hWithin⟩
  have hRequests : ∃ call ∈ [TaskCall.create 0 1 0, .create 0 1 0], call.Requests :=
    ⟨_, List.mem_cons_self, by decide⟩
  obtain ⟨a, areas, hAreas, hNth⟩ :=
    allotments_first (initTaskSystem_allocated someState) hRequests
  apply hNth.not_subset
  apply hWithin
  rw [hAreas]
  exact List.mem_cons_self

/-- The tasks that the calls create. -/
def created : State → List TaskCall → List TaskPtr
  | _, [] => []
  | k, call :: calls => (call.run k).1.toList ++ created (call.run k).2 calls

/-- While there is an entry left in the table, a call that asks for a task gets one. -/
def Accommodates : State → Nat → List TaskCall → Prop
  | _, _, [] => True
  | k, n, call :: calls =>
    (call.Requests → n < taskMaxTasks - 1 → (call.run k).1.isSome) ∧
      Accommodates (call.run k).2 (n + (call.run k).1.toList.length) calls

/-- A call that creates nothing leaves the table, the next id and the stack pointer as they are. -/
def FailsCleanly : State → List TaskCall → Prop
  | _, [] => True
  | k, call :: calls =>
    ((call.run k).1 = none → (∀ task, call ≠ .exit task) →
      (call.run k).2.tasks = k.tasks ∧ (call.run k).2.nextUniqueTaskId = k.nextUniqueTaskId ∧
        (call.run k).2.currentStackAddress = k.currentStackAddress) ∧
      FailsCleanly (call.run k).2 calls

structure HasRoom (k : State) (calls : List TaskCall) : Prop where
  accommodates : Accommodates k 0 calls
  nodup : (created k calls).Nodup
  ne_zero : ∀ index ∈ created k calls, index ≠ 0
  failsCleanly : FailsCleanly k calls

theorem failsCleanly (k : State) (calls : List TaskCall) : FailsCleanly k calls := by
  induction calls generalizing k with
  | nil => trivial
  | cons call calls ih =>
    refine ⟨fun hNone hExit => ?_, ih _⟩
    rw [TaskCall.run_eq_of_none hNone hExit]
    exact ⟨rfl, rfl, rfl⟩

/-- The entries of the table are taken in order. -/
theorem Allocated.created_sorted {calls : List TaskCall} (h : Allocated k n) :
    (∀ index ∈ created k calls, n < index.val) ∧ (created k calls).Pairwise (· < ·) := by
  induction calls generalizing k n with
  | nil => exact ⟨by simp [created], .nil⟩
  | cons call calls ih =>
    rw [created]
    by_cases hBoth : call.Requests ∧ n < 32
    · obtain ⟨index, hCreates⟩ := h.creates hBoth.2 hBoth.1
      obtain ⟨hLater, hSorted⟩ := ih hCreates.allocated
      have hIndex := hCreates.index_val
      rw [hCreates.created]
      constructor
      · intro other hMem
        rcases List.mem_cons.mp hMem with rfl | hMem
        · omega
        · exact Nat.lt_of_succ_lt (hLater other hMem)
      · refine List.Pairwise.cons (fun other hMem => ?_) hSorted
        rw [Fin.lt_def, hIndex]
        exact hLater other hMem
    · obtain ⟨hNone, hNext⟩ := h.creates_none hBoth
      rw [hNone]
      exact ih hNext

theorem Allocated.accommodates_iff {calls : List TaskCall} (h : Allocated k n) :
    Accommodates k n calls ↔ n + calls.countP TaskCall.Requests ≤ 32 := by
  induction calls generalizing k n with
  | nil => simpa [Accommodates] using h.room
  | cons call calls ih =>
    have hRoom := h.room
    rw [Accommodates]
    by_cases hCall : call.Requests
    · rw [List.countP_cons_of_pos (by simpa using hCall)]
      by_cases hn : n < 32
      · obtain ⟨index, hCreates⟩ := h.creates hn hCall
        rw [hCreates.created]
        change (_ → _ → true = true) ∧ Accommodates _ (n + 1) calls ↔ _
        rw [ih hCreates.allocated]
        constructor
        · rintro ⟨-, hCount⟩
          omega
        · intro hCount
          exact ⟨fun _ _ => rfl, by omega⟩
      · -- The boundary refuses the thirty-third task, and the table would take it.
        obtain ⟨hNone, -⟩ := h.creates_none fun hBoth => hn hBoth.2
        have hTable : n < taskMaxTasks - 1 := Nat.lt_of_le_of_lt hRoom (by decide)
        constructor
        · rintro ⟨hSome, -⟩
          have := hSome hCall hTable
          rw [hNone] at this
          cases this
        · intro hCount
          omega
    · obtain ⟨hNone, hNext⟩ := h.creates_none fun hBoth => hCall hBoth.1
      rw [List.countP_cons_of_neg (by simpa using hCall), hNone]
      change _ ∧ Accommodates _ n calls ↔ _
      rw [ih hNext]
      constructor
      · exact And.right
      · intro hCount
        exact ⟨fun hRequests => absurd hRequests hCall, hCount⟩

/-- The stack area has room for 32 tasks, whatever the size of the table. -/
theorem hasRoom_iff (k : State) (calls : List TaskCall) :
    HasRoom (initTaskSystem k) calls ↔ calls.countP TaskCall.Requests ≤ 32 := by
  have hAllocated := initTaskSystem_allocated k
  have hIff : Accommodates (initTaskSystem k) 0 calls ↔ _ := hAllocated.accommodates_iff
  rw [Nat.zero_add] at hIff
  constructor
  · intro hHas
    exact hIff.mp hHas.accommodates
  · intro hCount
    obtain ⟨hPos, hSorted⟩ : (∀ index ∈ created _ calls, _) ∧ _ := hAllocated.created_sorted
    constructor
    · exact hIff.mpr hCount
    · exact hSorted.imp fun hLt => hLt.ne
    · intro index hMem hZero
      have := hPos index hMem
      rw [hZero] at this
      exact Nat.lt_irrefl 0 this
    · exact failsCleanly _ calls

theorem not_hasRoom :
    ¬HasRoom (initTaskSystem someState) (List.replicate 33 (.create 0 1 0)) := by
  intro hHas
  have hIff : Accommodates (initTaskSystem someState) 0 (List.replicate 33 (.create 0 1 0)) ↔ _ :=
    (initTaskSystem_allocated someState).accommodates_iff
  have hCount := hIff.mp hHas.accommodates
  rw [Nat.zero_add, List.countP_replicate] at hCount
  exact absurd hCount (by decide)

end TrainKernel.Kernel
