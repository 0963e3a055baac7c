import Mathlib.Algebra.BigOperators.Fin
import TrainKernel.Kernel.Main

/-!
# The idle ratio

The share of the idle tasks in the time that all tasks have run, in hundredths of a percent. The
times are 32-bit counters, and so is the product that is divided.
-/

namespace TrainKernel.Kernel

def priorityIdle : Priority := Fin.last 31

structure IdleTimes where
  idle : Word
  busy : Word
  max : Word

/-- One round of the loop over the task table. -/
def IdleTimes.count (times : IdleTimes) (task : TaskDescriptor) : IdleTimes :=
  if task.id = 0 then times
  else
    let times := if taskGetPriority task = priorityIdle then
        { times with idle := times.idle + task.cpuTimeUsed }
      else { times with busy := times.busy + task.cpuTimeUsed }
    if task.cpuTimeUsed > times.max then { times with max := task.cpuTimeUsed } else times

def idleTimes (k : State) : IdleTimes :=
  (List.finRange taskMaxTasks).foldl (fun times i => times.count (k.tasks i)) ⟨0, 0, 0⟩

def resetCpuTimes (k : State) : State :=
  { k with tasks := fun i => { k.tasks i with cpuTimeUsed := 0 } }

/-- With nothing if it divides by zero. -/
def taskIdleRatio (k : State) : Option (Word × State) :=
  let times := idleTimes k
  let k := if times.max > 100000 then resetCpuTimes k else k
  if times.idle + times.busy = 0 then none
  else some (100 * 100 * times.idle / (times.idle + times.busy), k)

def TaskDescriptor.idleTime (task : TaskDescriptor) : Nat :=
  if task.id ≠ 0 ∧ taskGetPriority task = priorityIdle then task.cpuTimeUsed.toNat else 0

def TaskDescriptor.busyTime (task : TaskDescriptor) : Nat :=
  if task.id ≠ 0 ∧ taskGetPriority task ≠ priorityIdle then task.cpuTimeUsed.toNat else 0

def State.idleTime (k : State) : Nat := ∑ i, (k.tasks i).idleTime

def State.busyTime (k : State) : Nat := ∑ i, (k.tasks i).busyTime

/-- The ratio of the true times, rounded down. -/
def IdleRatioExact (k : State) : Prop :=
  ∃ ratio k', taskIdleRatio k = some (ratio, k') ∧
    ratio.toNat = 10000 * k.idleTime / (k.idleTime + k.busyTime) ∧ ratio.toNat ≤ 10000

variable {k : State} {times : IdleTimes} {task : TaskDescriptor}

theorem count_sums (times : IdleTimes) (task : TaskDescriptor) :
    (times.count task).idle = times.idle + BitVec.ofNat 32 task.idleTime ∧
    (times.count task).busy = times.busy + BitVec.ofNat 32 task.busyTime := by
  rw [IdleTimes.count, TaskDescriptor.idleTime, TaskDescriptor.busyTime]
  by_cases hId : task.id = 0
  · simp [hId]
  · by_cases hIdle : taskGetPriority task = priorityIdle
    · simp only [hId, hIdle, if_true, if_false]
      split_ifs <;> simp_all
    · simp only [hId, hIdle, if_false]
      split_ifs <;> simp_all

theorem foldl_count (tasks : List TaskDescriptor) (times : IdleTimes) :
    (tasks.foldl IdleTimes.count times).idle =
        times.idle + BitVec.ofNat 32 (tasks.map TaskDescriptor.idleTime).sum ∧
      (tasks.foldl IdleTimes.count times).busy =
        times.busy + BitVec.ofNat 32 (tasks.map TaskDescriptor.busyTime).sum := by
  induction tasks generalizing times with
  | nil => simp
  | cons task tasks ih =>
    obtain ⟨hIdle, hBusy⟩ := count_sums times task
    rw [List.foldl_cons, (ih _).1, (ih _).2, hIdle, hBusy, List.map_cons, List.map_cons,
      List.sum_cons, List.sum_cons, BitVec.ofNat_add, BitVec.ofNat_add, BitVec.add_assoc,
      BitVec.add_assoc]
    exact ⟨rfl, rfl⟩

theorem idleTimes_eq (k : State) : (idleTimes k).idle = BitVec.ofNat 32 k.idleTime ∧
    (idleTimes k).busy = BitVec.ofNat 32 k.busyTime := by
  have hFold := foldl_count ((List.finRange taskMaxTasks).map k.tasks) ⟨0, 0, 0⟩
  rw [List.foldl_map, List.map_map, List.map_map] at hFold
  rw [State.idleTime, State.busyTime, Fin.sum_univ_def, Fin.sum_univ_def]
  refine ⟨hFold.1.trans (BitVec.zero_add _), hFold.2.trans (BitVec.zero_add _)⟩

/-- The quotient is short of one or more as soon as the product does not fit. -/
theorem div_eq_of_mod_iff {product sum : Nat} (hPos : 0 < sum) (hSum : sum < 2 ^ 32) :
    product % 2 ^ 32 / sum = product / sum ↔ product < 2 ^ 32 := by
  constructor
  · intro hSame
    by_contra hLarge
    have hLess : product % 2 ^ 32 + sum ≤ product := by
      have hDecompose := Nat.mod_add_div product (2 ^ 32)
      have hQuotient : 1 ≤ product / 2 ^ 32 := Nat.div_pos (not_lt.mp hLarge) (by decide)
      omega
    have hStep := Nat.div_le_div_right (c := sum) hLess
    rw [Nat.add_div_right _ hPos] at hStep
    omega
  · intro hFits
    rw [Nat.mod_eq_of_lt hFits]

/-- The ratio is right exactly as long as ten thousand times the idle time fits into a word. -/
theorem idle_ratio_exact_iff (k : State) (hPos : 0 < k.idleTime + k.busyTime)
    (hSum : k.idleTime + k.busyTime < 2 ^ 32) :
    IdleRatioExact k ↔ 10000 * k.idleTime < 2 ^ 32 := by
  obtain ⟨hIdle, hBusy⟩ := idleTimes_eq k
  have hTotal : (idleTimes k).idle + (idleTimes k).busy =
      BitVec.ofNat 32 (k.idleTime + k.busyTime) := by
    rw [hIdle, hBusy, BitVec.ofNat_add]
  have hTotalNat : ((idleTimes k).idle + (idleTimes k).busy).toNat =
      k.idleTime + k.busyTime := by
    rw [hTotal, BitVec.toNat_ofNat, Nat.mod_eq_of_lt hSum]
  have hSome : ¬(idleTimes k).idle + (idleTimes k).busy = 0 := by
    intro hZero
    rw [hZero] at hTotalNat
    exact hPos.ne hTotalNat
  have hProduct : (100 * 100 * (idleTimes k).idle).toNat = 10000 * k.idleTime % 2 ^ 32 := by
    rw [hIdle]
    simp [BitVec.toNat_mul]
  have hRatio : (100 * 100 * (idleTimes k).idle / ((idleTimes k).idle + (idleTimes k).busy)).toNat =
      10000 * k.idleTime % 2 ^ 32 / (k.idleTime + k.busyTime) := by
    rw [BitVec.toNat_udiv, hProduct, hTotalNat]
  have hAtMost : 10000 * k.idleTime / (k.idleTime + k.busyTime) ≤ 10000 := by
    apply Nat.div_le_of_le_mul
    rw [Nat.mul_comm]
    exact Nat.mul_le_mul_right _ (Nat.le_add_right _ _)
  rw [IdleRatioExact, taskIdleRatio, if_neg hSome, ← div_eq_of_mod_iff hPos hSum, ← hRatio]
  constructor
  · rintro ⟨ratio, k', hResult, hExact, -⟩
    obtain ⟨rfl, rfl⟩ := Prod.mk.inj (Option.some.inj hResult)
    exact hExact
  · intro hExact
    exact ⟨_, _, rfl, hExact, hExact.trans_le hAtMost⟩

/-- An idle task and another one, and how long they have run. -/
def twoTaskTable (idle busy : Word) (i : TaskPtr) : TaskDescriptor :=
  if i.val = 1 then { initTasks i with id := makeId 1 31 1, cpuTimeUsed := idle }
  else if i.val = 2 then { initTasks i with id := makeId 2 0 2, cpuTimeUsed := busy }
  else initTasks i

def twoTasks (idle busy : Word) : State :=
  { initState (fun _ => 0) 0 0 with tasks := twoTaskTable idle busy }

theorem times_of_idle_id (hId : task.id = makeId 1 31 1) :
    task.idleTime = task.cpuTimeUsed.toNat ∧ task.busyTime = 0 := by
  have hNone : makeId 1 31 1 ≠ 0 := by decide
  have hPriority : taskGetPriority task = priorityIdle := by
    apply Fin.ext
    change (task.id &&& 31 <<< 7) >>> 7 = 31
    rw [hId]
    decide
  rw [TaskDescriptor.idleTime, TaskDescriptor.busyTime, hId]
  exact ⟨if_pos ⟨hNone, hPriority⟩, if_neg fun hBusy => hBusy.2 hPriority⟩

theorem times_of_busy_id (hId : task.id = makeId 2 0 2) :
    task.idleTime = 0 ∧ task.busyTime = task.cpuTimeUsed.toNat := by
  have hNone : makeId 2 0 2 ≠ 0 := by decide
  have hPriority : taskGetPriority task ≠ priorityIdle := by
    rw [Ne, Fin.ext_iff]
    change ¬(task.id &&& 31 <<< 7) >>> 7 = 31
    rw [hId]
    decide
  rw [TaskDescriptor.idleTime, TaskDescriptor.busyTime, hId]
  exact ⟨if_neg fun hIdle => hPriority hIdle.2, if_pos ⟨hNone, hPriority⟩⟩

theorem times_of_no_id (hId : task.id = 0) : task.idleTime = 0 ∧ task.busyTime = 0 :=
  ⟨if_neg fun hLive => hLive.1 hId, if_neg fun hLive => hLive.1 hId⟩

theorem twoTasks_idleTime (idle busy : Word) : (twoTasks idle busy).idleTime = idle.toNat := by
  refine (Finset.sum_eq_single 1 (fun i _ hi => ?_) (by simp)).trans (times_of_idle_id rfl).1
  have hFirst : i.val ≠ 1 := fun hVal => hi (Fin.ext hVal)
  change (twoTaskTable idle busy i).idleTime = 0
  rw [twoTaskTable, if_neg hFirst]
  split_ifs
  · exact (times_of_busy_id rfl).1
  · exact (times_of_no_id rfl).1

theorem twoTasks_busyTime (idle busy : Word) : (twoTasks idle busy).busyTime = busy.toNat := by
  refine (Finset.sum_eq_single 2 (fun i _ hi => ?_) (by simp)).trans (times_of_busy_id rfl).2
  have hSecond : i.val ≠ 2 := fun hVal => hi (Fin.ext hVal)
  change (twoTaskTable idle busy i).busyTime = 0
  rw [twoTaskTable, if_neg hSecond]
  split_ifs
  · exact (times_of_idle_id rfl).2
  · exact (times_of_no_id rfl).2

theorem idle_ratio_exact_two : IdleRatioExact (twoTasks 90000 10000) := by
  refine (idle_ratio_exact_iff (twoTasks 90000 10000) ?_ ?_).mpr ?_
  · rw [twoTasks_idleTime, twoTasks_busyTime]
    decide
  · rw [twoTasks_idleTime, twoTasks_busyTime]
    decide
  · rw [twoTasks_idleTime]
    decide

/-- Half a second of idling, of which the ratio makes 14 percent. -/
theorem not_idle_ratio_exact : ¬∀ k : State, 0 < k.idleTime + k.busyTime →
    k.idleTime + k.busyTime < 2 ^ 32 → IdleRatioExact k := by
  intro hAll
  have hIdle := twoTasks_idleTime 500000 0
  have hBusy := twoTasks_busyTime 500000 0
  obtain ⟨ratio, k', hResult, hExact, -⟩ := hAll (twoTasks 500000 0)
    (by rw [hIdle, hBusy]; decide) (by rw [hIdle, hBusy]; decide)
  obtain ⟨hIdleSum, hBusySum⟩ := idleTimes_eq (twoTasks 500000 0)
  rw [hIdle] at hIdleSum
  rw [hBusy] at hBusySum
  rw [taskIdleRatio, hIdleSum, hBusySum, if_neg (by decide)] at hResult
  obtain ⟨rfl, -⟩ := Prod.mk.inj (Option.some.inj hResult)
  rw [hIdle, hBusy] at hExact
  exact absurd hExact (by decide)

end TrainKernel.Kernel
