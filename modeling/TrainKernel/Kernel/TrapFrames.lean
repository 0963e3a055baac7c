import TrainKernel.Kernel.ContextRuns
import TrainKernel.Kernel.Task

/-!
# What the kernel writes of a frame

`taskSetRet` and `taskCreate` are the places in the kernel that write to a trap frame. Both are
the edits of a round, and edits add up. What a task finds at its next turn follows: what it left,
or what it was created with, and the kernel's last answer.
-/

namespace TrainKernel.Kernel

open Function Library.Words Library.Words.WordMemory Library.Arm

/-- `*(task->sp + 2) = ret` -/
def storeRet (mem : Mem) (task ret : Word) : Mem :=
  storeWord mem (loadWord mem (spField task) + 8#32) ret

/-- `UserMode | DisableFIQ` -/
def userPsr : Word := 0x10 ||| 1 <<< 6

/-- The end of `taskCreate`, with the trap frame on the new stack. -/
def storeTrapFrame (mem : Mem) (task sp code : Word) : Mem :=
  storeWord (storeWord (storeWord mem (spField task) sp) sp userPsr) (sp + 4#32) code

/-- A new task: its registers are the words that happen to lie on its stack. -/
def createdContext (mem : Mem) (sp code : Word) : Context where
  psr := ⟨0, false, true, false, .usr⟩
  reg
    | .pc => code
    | .sp => sp + 64#32
    | r => (loadBlock mem (sp + 8#32) 14).getD (savedRegs.idxOf r) 0

theorem frameAt_createdContext (mem : Mem) (sp code : Word) :
    (createdContext mem sp code).frameAt = sp := BitVec.add_sub_cancel _ _

theorem map_createdContext (mem : Mem) (sp code : Word) :
    savedRegs.map (createdContext mem sp code).reg = loadBlock mem (sp + 8#32) 14 := by
  have hWords : ∀ r ∈ savedRegs, (createdContext mem sp code).reg r =
      (loadBlock mem (sp + 8#32) 14).getD (savedRegs.idxOf r) 0 := by
    intro r hr
    cases r <;> first | rfl | simp [savedRegs, lowRegs] at hr
  have hNodup : savedRegs.Nodup := by decide
  rw [List.map_congr_left hWords]
  apply List.ext_getElem
  · rw [List.length_map, length_loadBlock]
    rfl
  · intro i hi hi'
    rw [List.getElem_map, hNodup.idxOf_getElem, List.getD_eq_getElem?_getD,
      List.getElem?_eq_getElem hi', Option.getD_some]

theorem frame_createdContext (mem : Mem) (sp code : Word) :
    (createdContext mem sp code).frame = ((loadBlock mem sp 16).set 0 userPsr).set 1 code := by
  have hPsr : Psr.toWord ⟨0, false, true, false, .usr⟩ = userPsr := by decide
  rw [Context.frame, map_createdContext, show 16 = 2 + 14 from rfl, loadBlock_add, ← hPsr]
  rfl

section Edits

variable {L : Layout} {live : Set TaskPtr} {mem mem' mem'' : Mem}
variable {contexts : TaskPtr → Context} {t : TaskPtr} {c : Context} {e e' : Edit}
variable {sp code v q : Word}

/-- A store that meets neither the field nor the frame of a task. -/
theorem Edit.keep_of_store (h : t ∈ live → L.OnStack t c ∧ Saved mem (L.descriptor t) c)
    (hq : Aligned q) (hField : L.field t ≠ q) (hOut : ¬Inside c.frameAt 16 q) :
    Edit.keep.Done L live t mem (storeWord mem q v) := by
  intro hLive
  obtain ⟨hOn, hSaved⟩ := h hLive
  refine ⟨loadWord_storeWord_of_ne _ _ _ _ hq (aligned_spField (L.aligned_descriptor t)) hField,
    ?_⟩
  rw [Layout.field, hSaved.sp]
  exact loadBlock_store_of_outside mem v (Context.aligned_frameAt hOn.aligned) hq (by decide) hOut

theorem Edit.keep_trans (h : Edit.keep.Done L live t mem mem')
    (h' : Edit.keep.Done L live t mem' mem'') : Edit.keep.Done L live t mem mem'' := by
  intro hLive
  obtain ⟨hField, hBlock⟩ := h hLive
  obtain ⟨hField', hBlock'⟩ := h' hLive
  rw [hField] at hField' hBlock'
  exact ⟨hField', hBlock'.trans hBlock⟩

/-- A word in the frame of one task is no other task's. -/
theorem Layout.OnStack.other {t' : TaskPtr} {c' : Context} (h : L.OnStack t c)
    (hNe : t' ≠ t) (hq : Inside c.frameAt 16 q) (h' : L.OnStack t' c') :
    ¬Inside c'.frameAt 16 q := fun hInside =>
  L.stacks_apart t' t hNe q (h'.frame q hInside) (h.frame q hq)

theorem Layout.OnStack.field_ne (h : L.OnStack t c) (t' : TaskPtr)
    (hq : Inside c.frameAt 16 q) : L.field t' ≠ q := by
  rintro rfl
  exact L.field_stack t' t (h.frame _ hq)

theorem Layout.OnStack.keeps {t' : TaskPtr} {c' : Context} (h : L.OnStack t c)
    (hTask : t' ∈ live → L.OnStack t' c' ∧ Saved mem (L.descriptor t') c') (hNe : t' ≠ t)
    (hAligned : Aligned q) (hq : Inside c.frameAt 16 q) :
    Edit.keep.Done L live t' mem (storeWord mem q v) := fun hLive =>
  Edit.keep_of_store hTask hAligned (h.field_ne t' hq) (h.other hNe hq (hTask hLive).1) hLive

theorem storeRet_done (h : L.Represents live mem contexts) (ht : t ∈ live) (v : Word)
    (t' : TaskPtr) :
    (if t' = t then Edit.ret v else Edit.keep).Done L live t' mem
      (storeRet mem (L.descriptor t) v) := by
  obtain ⟨hOn, hSaved⟩ := h t ht
  have hFrame := Context.aligned_frameAt hOn.aligned
  have hSlot : Aligned ((contexts t).frameAt + 8#32) := hFrame.add (by decide)
  have hInside : Inside (contexts t).frameAt 16 ((contexts t).frameAt + 8#32) := by
    simp only [Inside]
    bv_omega
  rw [storeRet, hSaved.sp]
  split_ifs with hEq
  · subst hEq
    refine fun _ => ⟨?_, ?_⟩
    · exact loadWord_storeWord_of_ne _ _ _ _ hSlot (aligned_spField (L.aligned_descriptor t'))
        (hOn.field_ne t' hInside)
    · rw [Layout.field, hSaved.sp]
      exact loadBlock_store (i := 2) mem v hFrame (by decide) (by decide)
  · exact hOn.keeps (h t') hEq hSlot hInside

theorem storeTrapFrame_done (h : L.Represents live mem contexts) (hSp : Aligned sp)
    (hOn : L.OnStack t (createdContext mem sp code)) (t' : TaskPtr) :
    (if t' = t then Edit.create (createdContext mem sp code) else Edit.keep).Done L live t' mem
      (storeTrapFrame mem (L.descriptor t) sp code) := by
  have hFrame : (createdContext mem sp code).frameAt = sp := frameAt_createdContext mem sp code
  have hField := aligned_spField (L.aligned_descriptor t)
  have hPc : Aligned (sp + 4#32) := hSp.add (by decide)
  have hInside : Inside (createdContext mem sp code).frameAt 16 sp := by
    rw [hFrame]
    simp [Inside]
  have hInside' : Inside (createdContext mem sp code).frameAt 16 (sp + 4#32) := by
    rw [hFrame, Inside, BitVec.add_comm, BitVec.add_sub_cancel]
    decide
  rw [storeTrapFrame]
  split_ifs with hEq
  · subst hEq
    have hOut : ¬Inside sp 16 (spField (L.descriptor t')) := fun h =>
      L.field_stack t' t' (hOn.frame _ (hFrame.symm ▸ h))
    refine ⟨hOn, ?_, ?_⟩
    · rw [loadWord_storeWord_of_ne _ _ _ _ hPc hField (hOn.field_ne t' hInside'),
        loadWord_storeWord_of_ne _ _ _ _ hSp hField (hOn.field_ne t' hInside),
        loadWord_storeWord _ _ hField, hFrame]
    · have hZero := loadBlock_store (n := 16) (i := 0)
        (storeWord mem (spField (L.descriptor t')) sp) userPsr hSp (by decide) (by decide)
      rw [Nat.mul_zero, BitVec.add_zero] at hZero
      rw [hFrame, frame_createdContext]
      refine (loadBlock_store (i := 1) _ code hSp (by decide) (by decide)).trans ?_
      refine congrArg (List.set · 1 code) (hZero.trans ?_)
      exact congrArg (List.set · 0 userPsr)
        (loadBlock_store_of_outside mem sp hSp hField (by decide) hOut)
  -- another task: three stores, each past its field and its frame
  · have hTask := h t'
    have hFieldNe : L.field t' ≠ spField (L.descriptor t) := fun hSame =>
      hEq (L.descriptor_inj ((BitVec.add_left_inj 8#32).mp hSame))
    have hFirst : Edit.keep.Done L live t' mem (storeWord mem (spField (L.descriptor t)) sp) :=
      fun hLive => Edit.keep_of_store hTask hField hFieldNe
        (fun hIn => L.field_stack t t' ((hTask hLive).1.frame _ hIn)) hLive
    have hSecond := hOn.keeps (v := userPsr) (hFirst.represents hTask) hEq hSp hInside
    have hThird := hOn.keeps (v := code) (hSecond.represents (hFirst.represents hTask)) hEq hPc
      hInside'
    exact Edit.keep_trans hFirst (Edit.keep_trans hSecond hThird)

/-- One edit after another. -/
def Edit.andThen : Edit → Edit → Edit
  | e, keep => e
  | create c, ret v => create (c.setR0 v)
  | exit, ret _ => exit
  | _, ret v => ret v
  | _, create c => create c
  | _, exit => exit

theorem Edit.Done.andThen {live' : Set TaskPtr} (h : e.Done L live t mem mem')
    (h' : e'.Done L live' t mem' mem'') (hLive : t ∈ live' ↔ e.alive (t ∈ live)) :
    (e.andThen e').Done L live t mem mem'' := by
  cases e' with
  | create | exit => cases e <;> exact h'
  | keep =>
    cases e with
    | keep => exact keep_trans h fun ht => h' (hLive.mpr ht)
    | ret v =>
      intro ht
      obtain ⟨hField, hBlock⟩ := h ht
      obtain ⟨hField', hBlock'⟩ := h' (hLive.mpr ht)
      rw [hField] at hField' hBlock'
      exact ⟨hField', hBlock'.trans hBlock⟩
    | create c => exact h'.represents (fun _ => h) (hLive.mpr trivial)
    | exit => exact h
  | ret v =>
    cases e with
    | keep =>
      intro ht
      obtain ⟨hField, hBlock⟩ := h ht
      obtain ⟨hField', hBlock'⟩ := h' (hLive.mpr ht)
      rw [hField] at hField' hBlock'
      exact ⟨hField', hBlock'.trans (congrArg (List.set · 2 v) hBlock)⟩
    | ret w =>
      intro ht
      obtain ⟨hField, hBlock⟩ := h ht
      obtain ⟨hField', hBlock'⟩ := h' (hLive.mpr ht)
      rw [hField] at hField' hBlock'
      refine ⟨hField', hBlock'.trans ?_⟩
      rw [hBlock, List.set_set]
    | create c => exact h'.represents (fun _ => h) (hLive.mpr trivial)
    | exit => exact h

/-- `taskSpawn` creates the task and answers it with the argument. -/
theorem storeSpawn_done (h : L.Represents live mem contexts) (hSp : Aligned sp)
    (hOn : L.OnStack t (createdContext mem sp code)) (argument : Word) (t' : TaskPtr) :
    (if t' = t then Edit.create ((createdContext mem sp code).setR0 argument)
      else Edit.keep).Done L live t' mem
      (storeRet (storeTrapFrame mem (L.descriptor t) sp code) (L.descriptor t) argument) := by
  have hCreated := storeTrapFrame_done h hSp hOn
  let edit (t' : TaskPtr) : Edit :=
    if t' = t then .create (createdContext mem sp code) else .keep
  have hTasks : L.Represents {t' | (edit t').alive (t' ∈ live)}
      (storeTrapFrame mem (L.descriptor t) sp code)
      (fun t' => (edit t').apply (contexts t')) :=
    fun t' ht' => (hCreated t').represents (h t') ht'
  have hAlive : t ∈ {t' | (edit t').alive (t' ∈ live)} := by simp [edit, Edit.alive]
  have hBoth := (hCreated t').andThen (storeRet_done hTasks hAlive argument t') Iff.rfl
  split_ifs at hBoth ⊢ <;> exact hBoth

end Edits

section Runs

variable {L : Layout} {live live' : Set TaskPtr} {m m' : Machine Mem}
variable {contexts : TaskPtr → Context} {before between after : List Round}
variable {first next made : Round}

/-- In any run a task finds at its next turn the registers, the status and the stack pointer that
it had at its last trap, wherever the switches between have led. Only `r0` may differ, and then it
holds the last answer of the kernel. -/
theorem resumes_as_trapped
    (hRun : Runs L live m (before ++ first :: (between ++ next :: after)) live' m')
    (h : L.InKernel live m contexts) (hTask : next.task = first.task)
    (hBetween : ∀ r ∈ between, r.task ≠ first.task)
    (hSpared : ∀ r ∈ first :: between, (r.edit first.task).Spares) :
    next.resumed = first.trapped.answered (lastRet first.task none (first :: between)) := by
  rw [List.forall_mem_cons] at hSpared
  rw [hRun.resumed_later h, hTask]
  refine contextsAfter_waiting (v := (first.edit first.task).answer none) ?_ hBetween hSpared.2
  rw [Round.contexts, if_pos rfl]
  exact hSpared.1.apply_answered first.trapped none

def answerFirst (t : TaskPtr) : Edit := if t = firstTask then .ret 42 else .keep

/-- The first task calls the kernel, the second one runs, the kernel answers the first one and lets
the second one run again, and then the first one has its turn. -/
theorem resumes_as_trapped_answered : ∃ (rs : List Round) (live' : Set TaskPtr) (m' : Machine Mem)
    (last : Round), Runs boardLayout boardTasks boardMachine (rs ++ [last]) live' m' ∧
      rs.map Round.task = [firstTask, secondTask, secondTask] ∧ last.task = firstTask ∧
      last.resumed = calledContext.setR0 42 := by
  have hKeep {live : Set TaskPtr} {mem : Mem} (t : TaskPtr) :
      Edit.keep.Done boardLayout live t mem mem := fun _ => ⟨rfl, rfl⟩
  have hSecond : boardLayout.OnStack secondTask (boardContext secondTask) :=
    onStack_boardContext (Or.inr rfl)
  obtain ⟨m₁, -, hRound⟩ := inKernel_board.exists_round (Or.inl rfl) rfl onStack_calledContext rfl
    .swi
  obtain ⟨n₁, hR0, hFirst⟩ := hRound (fun _ => .keep) m₁.mem secondTask hKeep
  have hKernel₁ := (inKernel_board.takes hFirst).2
  obtain ⟨m₂, hTasks, hRound⟩ := hKernel₁.exists_round (t := secondTask) (Or.inr rfl) hR0 hSecond
    rfl .irq
  obtain ⟨n₂, hR0, hAnswer⟩ := hRound answerFirst _ secondTask
    (storeRet_done hTasks (t := firstTask) (Or.inl rfl) 42)
  have hKernel₂ := (hKernel₁.takes hAnswer).2
  obtain ⟨m₃, -, hRound⟩ := hKernel₂.exists_round (t := secondTask) (Or.inr rfl) hR0 hSecond
    rfl .swi
  obtain ⟨n₃, hR0, hAgain⟩ := hRound (fun _ => .keep) m₃.mem firstTask hKeep
  have hKernel₃ := (hKernel₂.takes hAgain).2
  obtain ⟨m₄, -, hRound⟩ := hKernel₃.exists_round (t := firstTask) (Or.inl rfl) hR0
    onStack_calledContext rfl .swi
  obtain ⟨n₄, -, hLast⟩ := hRound (fun _ => .keep) m₄.mem firstTask hKeep
  have hRun := Runs.cons hFirst (.cons hAnswer (.cons hAgain (.cons hLast .nil)))
  refine ⟨[_, _, _], _, _, _, hRun, rfl, rfl, ?_⟩
  exact resumes_as_trapped (show Runs _ _ _ ([] ++ _ :: ([_, _] ++ _ :: [])) _ _ from hRun)
    inKernel_board rfl (by simp; decide) (by simp [answerFirst, Edit.Spares])

end Runs

/-- However long a new task waits for its first turn, it starts at its code, in user mode and with
interrupts, and the answer it was last given is the argument of the code. -/
theorem first_turn {L : Layout} {live live' : Set TaskPtr} {m m' : Machine Mem}
    {contexts : TaskPtr → Context} {before between after : List Round} {made first : Round}
    {mem : Mem} {sp code : Word} {argument : Option Word}
    (hRun : Runs L live m (before ++ made :: (between ++ first :: after)) live' m')
    (h : L.InKernel live m contexts)
    (hMade : made.edit first.task = .create ((createdContext mem sp code).answered argument))
    (hBetween : ∀ r ∈ between, r.task ≠ first.task)
    (hSpared : ∀ r ∈ between, (r.edit first.task).Spares) :
    first.resumed.psr = ⟨0, false, true, false, .usr⟩ ∧ first.resumed.reg .pc = code ∧
      first.resumed.reg .sp = sp + 64#32 ∧
      ∀ v, lastRet first.task argument between = some v → first.resumed.reg .r0 = v := by
  rw [starts_as_created hRun h hMade hBetween hSpared]
  cases lastRet first.task argument between with
  | none => exact ⟨rfl, rfl, rfl, nofun⟩
  | some v => exact ⟨rfl, rfl, rfl, fun _ hv => Option.some_inj.mp hv⟩

def thirdTask : TaskPtr := taskGetIndexById 3

/-- Where `taskCreate` puts the third trap frame. -/
def thirdSp : Word := taskStackHigh - 8 * (taskTrapSize + taskStackSize) - 4 * taskTrapSize

theorem onStack_third (mem : Mem) (code : Word) :
    boardLayout.OnStack thirdTask (createdContext mem thirdSp code) where
  aligned := show Aligned (thirdSp + 64#32) by decide
  frame q hq := by
    rw [frameAt_createdContext] at hq
    exact frame_stackWords (by decide) (by decide) (by decide) hq

/-- The first task spawns a third one with an argument, and that one waits while the second one
runs. -/
theorem first_turn_spawned : ∃ (rs : List Round) (live' : Set TaskPtr) (m' : Machine Mem)
    (first : Round), Runs boardLayout boardTasks boardMachine (rs ++ [first]) live' m' ∧
      rs.map Round.task = [firstTask, secondTask] ∧ first.task = thirdTask ∧
      first.resumed.psr = ⟨0, false, true, false, .usr⟩ ∧ first.resumed.reg .pc = 0x218000 ∧
      first.resumed.reg .sp = thirdSp + 64#32 ∧ first.resumed.reg .r0 = 7 := by
  have hKeep {live : Set TaskPtr} {mem : Mem} (t : TaskPtr) :
      Edit.keep.Done boardLayout live t mem mem := fun _ => ⟨rfl, rfl⟩
  obtain ⟨m₁, hTasks, hRound⟩ := inKernel_board.exists_round (Or.inl rfl) rfl onStack_calledContext
    rfl .swi
  obtain ⟨n₁, hR0, hSpawn⟩ := hRound _ _ secondTask
    (storeSpawn_done hTasks (by decide) (onStack_third m₁.mem 0x218000) 7)
  have hKernel₁ := (inKernel_board.takes hSpawn).2
  obtain ⟨m₂, -, hRound⟩ := hKernel₁.exists_round (t := secondTask) (Or.inr rfl) hR0
    (onStack_boardContext (Or.inr rfl)) rfl .irq
  obtain ⟨n₂, hR0, hWait⟩ := hRound (fun _ => .keep) m₂.mem thirdTask hKeep
  have hKernel₂ := (hKernel₁.takes hWait).2
  obtain ⟨m₃, -, hRound⟩ := hKernel₂.exists_round (t := thirdTask) trivial hR0
    (onStack_third m₁.mem 0x218000) rfl .swi
  obtain ⟨n₃, -, hFirst⟩ := hRound (fun _ => .keep) m₃.mem firstTask hKeep
  have hRun := Runs.cons hSpawn (.cons hWait (.cons hFirst .nil))
  obtain ⟨hPsr, hPc, hSp, hR0⟩ := first_turn
    (show Runs _ _ _ ([] ++ _ :: ([_] ++ _ :: [])) _ _ from hRun) inKernel_board
    (show _ = Edit.create ((createdContext m₁.mem thirdSp 0x218000).answered (some 7)) from rfl)
    (by simp; decide) (by simp [Edit.Spares])
  exact ⟨[_, _], _, _, _, hRun, rfl, rfl, hPsr, hPc, hSp, hR0 7 rfl⟩

end TrainKernel.Kernel
