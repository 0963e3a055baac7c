import TrainKernel.Kernel.StackLayout

/-!
# Tasks across context switches

The kernel lets one task after the other run on the same registers. Between two turns a task is
a frame on its stack, and the kernel writes no more of it than the word from which `r0` is
loaded.
-/

namespace TrainKernel.Kernel

open Function Library.Words Library.Words.WordMemory Library.Arm

namespace Layout

variable (L : Layout)

/-- Each task that is alive is a frame on its stack. -/
def Represents (live : Set TaskPtr) (mem : Mem) (contexts : TaskPtr → Context) : Prop :=
  ∀ t ∈ live, L.OnStack t (contexts t) ∧ Saved mem (L.descriptor t) (contexts t)

/-- The machine where the main loop calls `kernelExit`. -/
structure InKernel (live : Set TaskPtr) (m : Machine Mem) (contexts : TaskPtr → Context) :
    Prop where
  mode : m.cpsr.mode = .svc
  sp : m.reg .sp = L.ksp
  tasks : L.Represents live m.mem contexts

/-- What a task may do between two switches: anything in user mode, as long as the words that
the kernel has pushed and the frames of the other tasks stay. -/
structure UserRun (live : Set TaskPtr) (t : TaskPtr) (m u : Machine Mem) : Prop where
  user : u.cpsr.mode = .usr
  banked : u.file (.svc, .sp) = m.file (.svc, .sp)
  onStack : L.OnStack t (context u)
  kernelStack : ∀ q, Aligned q → Inside (L.ksp - 56#32) 14 q → loadWord u.mem q = loadWord m.mem q
  field : ∀ t' ∈ live, t' ≠ t → loadWord u.mem (L.field t') = loadWord m.mem (L.field t')
  frame : ∀ t' ∈ live, t' ≠ t → ∀ q, Aligned q → Inside (loadWord m.mem (L.field t')) 16 q →
    loadWord u.mem q = loadWord m.mem q

end Layout

namespace Context

def setR0 (c : Context) (v : Word) : Context :=
  { c with reg := update c.reg .r0 v }

theorem frame_setR0 (c : Context) (v : Word) : (c.setR0 v).frame = c.frame.set 2 v := by
  simp [frame, setR0, map_savedRegs]

theorem frameAt_setR0 (c : Context) (v : Word) : (c.setR0 v).frameAt = c.frameAt := by
  simp [frameAt, setR0]

end Context

/-- What the kernel does to a task before the next switch. -/
inductive Edit where
  | keep
  | ret (v : Word)
  | create (c : Context)
  | exit

namespace Edit

def apply : Edit → Context → Context
  | ret v, c => c.setR0 v
  | create c, _ => c
  | _, c => c

def alive : Edit → Prop → Prop
  | create _, _ => True
  | exit, _ => False
  | _, p => p

/-- `taskSetRet` writes the third word of the frame, `taskCreate` a frame of its own, and the
rest of the kernel none. -/
def Done (L : Layout) (live : Set TaskPtr) (t : TaskPtr) (mem mem' : Mem) : Edit → Prop
  | keep => t ∈ live → loadWord mem' (L.field t) = loadWord mem (L.field t) ∧
      loadBlock mem' (loadWord mem (L.field t)) 16 = loadBlock mem (loadWord mem (L.field t)) 16
  | ret v => t ∈ live → loadWord mem' (L.field t) = loadWord mem (L.field t) ∧
      loadBlock mem' (loadWord mem (L.field t)) 16 =
        (loadBlock mem (loadWord mem (L.field t)) 16).set 2 v
  | create c => L.OnStack t c ∧ Saved mem' (L.descriptor t) c
  | exit => True

end Edit

/-- One turn of a task: how it found its registers, how it left them, and what the kernel then
did. -/
structure Round where
  task : TaskPtr
  cause : Exception
  resumed : Context
  trapped : Context
  edit : TaskPtr → Edit

namespace Round

def live (r : Round) (live : Set TaskPtr) : Set TaskPtr := {t | (r.edit t).alive (t ∈ live)}

/-- The contexts after the round, if the hardware gave each task registers of its own. -/
def contexts (r : Round) (contexts : TaskPtr → Context) (t : TaskPtr) : Context :=
  (r.edit t).apply (if t = r.task then r.trapped else contexts t)

/-- The machine from one call of `kernelExit` to the next. -/
structure Takes (L : Layout) (live : Set TaskPtr) (r : Round) (m m' : Machine Mem) : Prop where
  alive : r.task ∈ live
  task : m.reg .r0 = L.descriptor r.task
  turn : ∃ m₁ u m₂, exec kernelExit m = some m₁ ∧ context m₁ = r.resumed ∧
    L.UserRun live r.task m₁ u ∧ context u = r.trapped ∧
    exec (handler r.cause) (r.cause.take u) = some m₂ ∧
    m'.cpsr.mode = .svc ∧ m'.reg .sp = L.ksp ∧ ∀ t, (r.edit t).Done L live t m₂.mem m'.mem

end Round

section Switch

variable {L : Layout} {live : Set TaskPtr} {m u m₁ : Machine Mem} {mem mem' : Mem}
variable {contexts : TaskPtr → Context} {t : TaskPtr} {c : Context} {cause : Exception}

theorem Saved.congr {task : Word} (h : Saved mem task c) (hSp : Aligned (c.reg .sp))
    (hField : loadWord mem' (spField task) = loadWord mem (spField task))
    (hFrame : ∀ q, Aligned q → Inside c.frameAt 16 q → loadWord mem' q = loadWord mem q) :
    Saved mem' task c where
  sp := hField.trans h.sp
  frame := (loadBlock_congr (c.aligned_frameAt hSp) (by decide) hFrame).trans h.frame

theorem saved_boardContext :
    boardLayout.Represents boardTasks boardMachine.mem boardContext := by
  have hSecond : secondTask ∈ boardTasks := Or.inr rfl
  have hSp {t : TaskPtr} (ht : t ∈ boardTasks) : Aligned ((boardContext t).reg .sp) :=
    (onStack_boardContext ht).aligned
  intro t ht
  refine ⟨onStack_boardContext ht, ?_⟩
  rcases ht with rfl | rfl
  -- the frame of the second task is pushed over that of the first one
  · have hFirst : firstTask ∈ boardTasks := Or.inl rfl
    refine Saved.congr ((boardContext firstTask).saved_save (fun _ => 0) (hSp hFirst)
      (aligned_tableEntry firstTask) (frame_field hFirst firstTask)) (hSp hFirst) ?_ ?_
    · exact (boardContext secondTask).loadWord_save (hSp hSecond) (aligned_tableEntry _)
        (aligned_spField (aligned_tableEntry _)) (by decide) (frame_field hSecond firstTask)
    · intro q hq hInside
      apply (boardContext secondTask).loadWord_save (hSp hSecond) (aligned_tableEntry _) hq
      · rintro rfl
        exact frame_field hFirst secondTask hInside
      · intro hOther
        exact stackWords_apart firstTask secondTask (by decide) q
          ((onStack_boardContext hFirst).frame q hInside)
          ((onStack_boardContext hSecond).frame q hOther)
  · exact (boardContext secondTask).saved_save _ (hSp hSecond) (aligned_tableEntry secondTask)
      (frame_field hSecond secondTask)

theorem inKernel_board : boardLayout.InKernel boardTasks boardMachine boardContext :=
  ⟨rfl, rfl, saved_boardContext⟩

theorem Layout.Represents.kernelPush (h : L.Represents live mem contexts) (f : Reg → Word) :
    L.Represents live (storeBlock mem (L.ksp - 56#32) (savedRegs.map f)) contexts := by
  intro t ht
  obtain ⟨hOn, hSaved⟩ := h t ht
  have hKsp : Aligned (L.ksp - 56#32) := L.aligned_ksp.sub (by decide)
  refine ⟨hOn, hSaved.congr hOn.aligned ?_ fun q hq hInside => ?_⟩
  · exact load_storeBlock (l := savedRegs.map f) mem hKsp
      (aligned_spField (L.aligned_descriptor t)) (L.field_kernelStack t)
  · exact load_storeBlock (l := savedRegs.map f) mem hKsp hq
      (L.kernelStack_apart t q (hOn.frame q hInside))

/-- Calling `kernelExit` lets the task run with the registers it is represented with. -/
theorem Layout.InKernel.resumes (h : L.InKernel live m contexts) (ht : t ∈ live)
    (hTask : m.reg .r0 = L.descriptor t) :
    ∃ m₁, exec kernelExit m = some m₁ ∧ context m₁ = contexts t ∧
      m₁.file (.svc, .sp) = L.ksp - 56#32 ∧
      m₁.mem = storeBlock m.mem (L.ksp - 56#32) (savedRegs.map m.reg) := by
  have hPushed := h.tasks.kernelPush m.reg t ht
  have hKsp : Aligned (L.ksp - 56#32) := L.aligned_ksp.sub (by decide)
  have hMode := h.mode
  let m' := (m.setMem (storeBlock m.mem (L.ksp - 56#32) (savedRegs.map m.reg))).setReg .sp
    (L.ksp - 56#32)
  have hPush : exec kernelExit m = exec kernelExit.tail m' := by
    rw [kernelExit, exec, Instr.exec, h.sp]
    exact congrArg (Option.bind · _) (if_pos hKsp)
  have hR0 : m'.file (.usr, .r0) = L.descriptor t := by
    rw [← hTask]
    simp [m', Machine.setReg, Machine.setMem, Machine.slot, Machine.reg, hMode, Mode.bank]
  have hTop : m'.file (.svc, .sp) = L.ksp - 56#32 := by
    simp [m', Machine.setReg, Machine.setMem, Machine.slot, hMode, Mode.bank]
  obtain ⟨m₁, hRun, hContext, hSp, hMem⟩ := resume_runs (m := m') hMode hR0
    (L.aligned_descriptor t) hPushed.1.aligned hPushed.2
  exact ⟨m₁, hPush.trans hRun, hContext, hSp.trans hTop, hMem⟩

/-- The registers that the main loop has pushed, in the two pieces in which they are popped. -/
theorem kernelStack_pieces {f : Reg → Word} {a : Word}
    (h : loadBlock mem a 14 = savedRegs.map f) :
    loadBlock mem a 1 = [f .r0] ∧
      loadBlock mem (a + 4#32) 13 = (lowRegs.tail ++ [Reg.lr]).map f := by
  rw [show 14 = 1 + 13 from rfl, loadBlock_add, show BitVec.ofNat 32 (4 * 1) = 4#32 from rfl] at h
  exact List.append_inj (h : _ = [f .r0] ++ _) (length_loadBlock _ _ _)

/-- The words that the kernel has pushed are apart from the frame of any task. -/
theorem Layout.OnStack.kernelStack (h : L.OnStack t c) {q : Word}
    (hq : Inside (L.ksp - 56#32) 14 q) : ¬Inside c.frameAt 16 q :=
  fun hInside => L.kernelStack_apart t q (h.frame q hInside) hq

theorem Layout.UserRun.kernelStack_eq (h : L.UserRun live t m₁ u) {f : Reg → Word}
    (hPushed : m₁.mem = storeBlock mem (L.ksp - 56#32) (savedRegs.map f)) :
    loadBlock u.mem (L.ksp - 56#32) 14 = savedRegs.map f := by
  have hKsp : Aligned (L.ksp - 56#32) := L.aligned_ksp.sub (by decide)
  rw [loadBlock_congr hKsp (by decide) h.kernelStack, hPushed]
  exact loadBlock_storeBlock (l := savedRegs.map f) mem hKsp (by simp [savedRegs, lowRegs])

/-- Whatever the task has done in user mode, its next trap is the return of that call. -/
theorem Layout.UserRun.returns (h : L.UserRun live t m₁ u) {f : Reg → Word} (cause : Exception)
    (hTask : f .r0 = L.descriptor t) (hSp : m₁.file (.svc, .sp) = L.ksp - 56#32)
    (hPushed : m₁.mem = storeBlock mem (L.ksp - 56#32) (savedRegs.map f)) :
    ∃ m₂, exec (handler cause) (cause.take u) = some m₂ ∧ m₂.cpsr.mode = .svc ∧
      m₂.reg .sp = L.ksp ∧ m₂.reg .r0 = (context u).request cause ∧
      (∀ r ∈ lowRegs.tail, m₂.reg r = f r) ∧ m₂.reg .pc = f .lr ∧
      m₂.mem = (context u).save u.mem (L.descriptor t) := by
  have hKsp : Aligned (L.ksp - 56#32) := L.aligned_ksp.sub (by decide)
  have hBank : u.file (.svc, .sp) = L.ksp - 56#32 := h.banked.trans hSp
  have hStack := h.kernelStack_eq hPushed
  have hPush : loadBlock ((context u).push u.mem) (L.ksp - 56#32) 14 = savedRegs.map f := by
    rw [← hStack]
    exact loadBlock_congr hKsp (by decide) fun q hq hInside =>
      (context u).loadWord_push h.onStack.aligned hq (h.onStack.kernelStack hInside)
  have hSave : loadBlock ((context u).save u.mem (L.descriptor t)) (L.ksp - 56#32) 14 =
      savedRegs.map f := by
    rw [← hStack]
    apply loadBlock_congr hKsp (by decide)
    intro q hq hInside
    apply (context u).loadWord_save h.onStack.aligned (L.aligned_descriptor t) hq
    · rintro rfl
      exact L.field_kernelStack t hInside
    · exact h.onStack.kernelStack hInside
  have hHead := (kernelStack_pieces hPush).1
  have hRest := (kernelStack_pieces hSave).2
  rw [← hBank] at hKsp hHead hRest
  rw [hTask] at hHead
  obtain ⟨m₂, hRun, hMode, hTop, hRequest, hRegs, hPc, hMem⟩ :=
    handler_runs cause h.user rfl h.onStack.aligned hKsp (L.aligned_descriptor t) hHead hRest
  refine ⟨m₂, hRun, hMode, ?_, hRequest, hRegs, hPc, hMem⟩
  rw [hTop, hBank, BitVec.sub_add_cancel]

theorem Layout.UserRun.represents (h : L.UserRun live t m₁ u)
    (hTasks : L.Represents live m₁.mem contexts) :
    L.Represents live ((context u).save u.mem (L.descriptor t))
      (update contexts t (context u)) := by
  intro t' ht'
  have hSp := h.onStack.aligned
  have hDescriptor := L.aligned_descriptor t
  rcases eq_or_ne t' t with rfl | hNe
  · rw [update_self]
    exact ⟨h.onStack, (context u).saved_save u.mem hSp hDescriptor
      fun hInside => L.field_stack t' t' (h.onStack.frame _ hInside)⟩
  · rw [update_of_ne hNe]
    obtain ⟨hOn, hSaved⟩ := hTasks t' ht'
    have hField : L.field t' ≠ spField (L.descriptor t) := fun hEq =>
      hNe (L.descriptor_inj ((BitVec.add_left_inj 8#32).mp hEq))
    refine ⟨hOn, hSaved.congr hOn.aligned ?_ fun q hq hInside => ?_⟩
    · rw [(context u).loadWord_save hSp hDescriptor (aligned_spField (L.aligned_descriptor t'))
        hField fun hInside => L.field_stack t' t (h.onStack.frame _ hInside)]
      exact h.field t' ht' hNe
    · have hMine : q ∉ L.stack t := fun hq =>
        L.stacks_apart t' t hNe q (hOn.frame q hInside) hq
      rw [(context u).loadWord_save hSp hDescriptor hq
        (fun hEq => L.field_stack t t' (hEq ▸ hOn.frame q hInside))
        (fun hIn => hMine (h.onStack.frame q hIn))]
      refine h.frame t' ht' hNe q hq ?_
      rwa [Layout.field, hSaved.sp]

/-- To the main loop `kernelExit` is a call. The task finds its registers as it is represented;
at the next trap the call returns the request with the kernel's registers and stack as they were,
and every task is represented again, with the registers of the trap for the one that ran. -/
theorem kernelExit_returns (h : L.InKernel live m contexts) (ht : t ∈ live)
    (hTask : m.reg .r0 = L.descriptor t) :
    ∃ m₁, exec kernelExit m = some m₁ ∧ context m₁ = contexts t ∧
      ∀ u cause, L.UserRun live t m₁ u →
        ∃ m₂, exec (handler cause) (cause.take u) = some m₂ ∧ m₂.cpsr.mode = .svc ∧
          m₂.reg .r0 = (context u).request cause ∧ (∀ r ∈ lowRegs.tail, m₂.reg r = m.reg r) ∧
          m₂.reg .sp = m.reg .sp ∧ m₂.reg .pc = m.reg .lr ∧
          L.Represents live m₂.mem (update contexts t (context u)) := by
  obtain ⟨m₁, hExit, hContext, hSp, hMem⟩ := h.resumes ht hTask
  refine ⟨m₁, hExit, hContext, fun u cause hUser => ?_⟩
  obtain ⟨m₂, hRun, hMode, hTop, hRequest, hRegs, hPc, hSave⟩ :=
    hUser.returns cause hTask hSp hMem
  have hTasks : L.Represents live m₁.mem contexts := hMem ▸ h.tasks.kernelPush m.reg
  exact ⟨m₂, hRun, hMode, hRequest, hRegs, hTop.trans h.sp.symm, hPc,
    hSave ▸ hUser.represents hTasks⟩

/-- The machine after a task in user mode has loaded its registers anew. -/
def reloaded (m : Machine Mem) (c : Context) : Machine Mem :=
  { m with file := fun s => if s.1 = .usr then c.reg s.2 else m.file s, cpsr := c.psr }

theorem context_reloaded (m : Machine Mem) (c : Context) : context (reloaded m c) = c := by
  rw [context, Context.mk.injEq]
  exact ⟨rfl, funext fun r => by cases r <;> rfl⟩

theorem Layout.OnStack.userRun (hOn : L.OnStack t c) (hUser : c.psr.mode = .usr)
    (m : Machine Mem) : L.UserRun live t m (reloaded m c) where
  user := hUser
  banked := rfl
  onStack := (context_reloaded m c).symm ▸ hOn
  kernelStack _ _ _ := rfl
  field _ _ _ := rfl
  frame _ _ _ _ _ _ := rfl

/-- The first task loads its registers with those that the second one has, and calls the
kernel. -/
def calledContext : Context where
  psr := ⟨6, false, true, false, .usr⟩
  reg r := if r = .sp then (boardContext firstTask).reg .sp - 16#32
    else (boardContext secondTask).reg r

theorem onStack_calledContext : boardLayout.OnStack firstTask calledContext :=
  ⟨by decide, fun q => frame_stackWords (by decide) (by decide) (by decide)⟩

theorem kernelExit_returns_firstTask :
    ∃ m₁ m₂, exec kernelExit boardMachine = some m₁ ∧ context m₁ = boardContext firstTask ∧
      exec (handler .swi) (Exception.swi.take (reloaded m₁ calledContext)) = some m₂ ∧
      m₂.reg .r0 = calledContext.reg .r0 ∧ (∀ r ∈ lowRegs.tail, m₂.reg r = boardMachine.reg r) ∧
      m₂.reg .sp = boardMachine.reg .sp ∧ m₂.reg .pc = boardMachine.reg .lr ∧
      boardLayout.Represents boardTasks m₂.mem (update boardContext firstTask calledContext) := by
  obtain ⟨m₁, hExit, hContext, hReturns⟩ := kernelExit_returns inKernel_board (Or.inl rfl) rfl
  obtain ⟨m₂, hHandler, -, hRequest, hRegs, hSp, hPc, hTasks⟩ :=
    hReturns _ .swi (onStack_calledContext.userRun rfl m₁)
  rw [context_reloaded] at hRequest hTasks
  exact ⟨m₁, m₂, hExit, hContext, hHandler, hRequest, hRegs, hSp, hPc, hTasks⟩

end Switch

/-! ## Runs -/

section Runs

variable {L : Layout} {live live' : Set TaskPtr} {m m' : Machine Mem} {mem mem' : Mem}
variable {contexts : TaskPtr → Context} {t : TaskPtr} {c : Context} {e : Edit} {r : Round}

theorem Edit.Done.represents (hDone : e.Done L live t mem mem')
    (h : t ∈ live → L.OnStack t c ∧ Saved mem (L.descriptor t) c)
    (hAlive : e.alive (t ∈ live)) :
    L.OnStack t (e.apply c) ∧ Saved mem' (L.descriptor t) (e.apply c) := by
  cases e with
  | keep =>
    obtain ⟨hOn, hSp, hFrame⟩ := h hAlive
    obtain ⟨hField, hBlock⟩ := hDone hAlive
    rw [Layout.field, hSp] at hBlock
    exact ⟨hOn, hField.trans hSp, hBlock.trans hFrame⟩
  | ret v =>
    obtain ⟨hOn, hSp, hFrame⟩ := h hAlive
    obtain ⟨hField, hBlock⟩ := hDone hAlive
    rw [Layout.field, hSp, hFrame, ← Context.frame_setR0] at hBlock
    rw [Edit.apply]
    refine ⟨⟨hOn.aligned, ?_⟩, ?_, ?_⟩
    · rw [Context.frameAt_setR0]
      exact hOn.frame
    · rw [Context.frameAt_setR0]
      exact hField.trans hSp
    · rw [Context.frameAt_setR0]
      exact hBlock
  | create c => exact hDone
  | exit => exact hAlive.elim

/-- The step lemma: a round finds the task as it was represented, and leaves the kernel with
every task represented by what the round says of it. -/
theorem Layout.InKernel.takes (h : L.InKernel live m contexts) (hTakes : r.Takes L live m m') :
    r.resumed = contexts r.task ∧ L.InKernel (r.live live) m' (r.contexts contexts) := by
  obtain ⟨hAlive, hTask, m₁, u, m₂, hExit, hResumed, hUser, hTrapped, hHandler, hMode, hSp,
    hEdit⟩ := hTakes
  obtain ⟨m₁', hExit', hContext, hTop, hPushed⟩ := h.resumes hAlive hTask
  obtain rfl : m₁ = m₁' := Option.some_inj.mp (hExit.symm.trans hExit')
  obtain ⟨m₂', hHandler', -, -, -, -, -, hSave⟩ := hUser.returns r.cause hTask hTop hPushed
  obtain rfl : m₂ = m₂' := Option.some_inj.mp (hHandler.symm.trans hHandler')
  refine ⟨hResumed.symm.trans hContext, hMode, hSp, fun t ht => ?_⟩
  apply (hEdit t).represents _ ht
  intro hLive
  have hTask := hUser.represents (hPushed ▸ h.tasks.kernelPush m.reg) t hLive
  rw [← hSave, hTrapped, update_apply] at hTask
  exact hTask

/-- Rounds one after the other. -/
inductive Runs (L : Layout) : Set TaskPtr → Machine Mem → List Round → Set TaskPtr →
    Machine Mem → Prop
  | nil {live : Set TaskPtr} {m : Machine Mem} : Runs L live m [] live m
  | cons {live live' : Set TaskPtr} {m m' m'' : Machine Mem} {r : Round} {rs : List Round}
      (hTakes : r.Takes L live m m') (hRest : Runs L (r.live live) m' rs live' m'') :
      Runs L live m (r :: rs) live' m''

/-- The contexts after some rounds, each task with registers of its own. -/
def contextsAfter (contexts : TaskPtr → Context) (rs : List Round) : TaskPtr → Context :=
  rs.foldl (fun contexts r => r.contexts contexts) contexts

variable {before between after rs : List Round} {first next made : Round}

theorem Runs.resumed (hRun : Runs L live m (before ++ r :: after) live' m')
    (h : L.InKernel live m contexts) :
    r.resumed = contextsAfter contexts before r.task := by
  induction before generalizing live m contexts with
  | nil =>
    cases hRun with
    | cons hTakes _ => exact (h.takes hTakes).1
  | cons r' before ih =>
    cases hRun with
    | cons hTakes hRest => exact ih hRest (h.takes hTakes).2

theorem contextsAfter_append (contexts : TaskPtr → Context) (rs rs' : List Round) :
    contextsAfter contexts (rs ++ rs') = contextsAfter (contextsAfter contexts rs) rs' :=
  List.foldl_append

/-- Neither made anew nor ended. -/
def Edit.Spares : Edit → Prop
  | keep | ret _ => True
  | _ => False

def Edit.answer : Edit → Option Word → Option Word
  | ret v, _ => some v
  | _, v => v

/-- The value that the kernel last gave a task to find in `r0`, or `v` if it gave none. -/
def lastRet (t : TaskPtr) (v : Option Word) (rs : List Round) : Option Word :=
  rs.foldl (fun v r => (r.edit t).answer v) v

def Context.answered (c : Context) (v : Option Word) : Context := v.elim c c.setR0

theorem Edit.Spares.apply_answered (h : e.Spares) (c : Context) (v : Option Word) :
    e.apply (c.answered v) = c.answered (e.answer v) := by
  cases e with
  | keep => rfl
  | ret v' =>
    cases v with
    | none => rfl
    | some v => simp [Edit.apply, Edit.answer, Context.answered, Context.setR0]
  | create | exit => exact h.elim

/-- A task that waits is changed by the answers it gets and by nothing else. -/
theorem contextsAfter_waiting {v : Option Word} (h : contexts t = c.answered v)
    (hWaits : ∀ r ∈ rs, r.task ≠ t) (hSpared : ∀ r ∈ rs, (r.edit t).Spares) :
    contextsAfter contexts rs t = c.answered (lastRet t v rs) := by
  induction rs generalizing contexts v with
  | nil => exact h
  | cons r rs ih =>
    rw [List.forall_mem_cons] at hWaits hSpared
    have hRound : r.contexts contexts t = c.answered ((r.edit t).answer v) := by
      rw [Round.contexts, if_neg hWaits.1.symm, h, hSpared.1.apply_answered]
    exact ih hRound hWaits.2 hSpared.2

theorem Runs.resumed_later (hRun : Runs L live m (before ++ first :: (between ++ next :: after))
      live' m') (h : L.InKernel live m contexts) :
    next.resumed = contextsAfter (first.contexts (contextsAfter contexts before)) between
      next.task := by
  have hSplit : before ++ first :: (between ++ next :: after) =
      (before ++ first :: between) ++ next :: after := by simp
  rw [hSplit] at hRun
  rw [hRun.resumed h, contextsAfter_append]
  rfl

/-- A task that loads its registers and traps, whatever the kernel does then. -/
theorem Layout.InKernel.exists_round (h : L.InKernel live m contexts) (ht : t ∈ live)
    (hTask : m.reg .r0 = L.descriptor t) (hOn : L.OnStack t c) (hUser : c.psr.mode = .usr)
    (cause : Exception) :
    ∃ m₂ : Machine Mem, L.Represents live m₂.mem (update contexts t c) ∧
      ∀ (edit : TaskPtr → Edit) (mem' : Mem) (next : TaskPtr),
        (∀ t, (edit t).Done L live t m₂.mem mem') →
        ∃ m', m'.reg .r0 = L.descriptor next ∧
          Round.Takes L live ⟨t, cause, contexts t, c, edit⟩ m m' := by
  obtain ⟨m₁, hExit, hContext, hTop, hPushed⟩ := h.resumes ht hTask
  have hRun : L.UserRun live t m₁ (reloaded m₁ c) := hOn.userRun hUser m₁
  obtain ⟨m₂, hHandler, hMode, hSp, -, -, -, hSave⟩ := hRun.returns cause hTask hTop hPushed
  have hTasks := hRun.represents (hPushed ▸ h.tasks.kernelPush m.reg)
  rw [← hSave, context_reloaded] at hTasks
  refine ⟨m₂, hTasks, fun edit mem' next hEdit => ?_⟩
  refine ⟨(m₂.setMem mem').setReg .r0 (L.descriptor next), ?_, ht, hTask, m₁, _, m₂, hExit,
    hContext, hRun, context_reloaded m₁ c, hHandler, hMode, ?_, hEdit⟩
  · exact update_self _ _ _
  · rw [← hSp]
    simp [Machine.reg, Machine.setReg, Machine.setMem, Machine.slot]

/-- The first turn of a task begins with the context it was created with, but for the answers. -/
theorem starts_as_created {created : Context} {v : Option Word}
    (hRun : Runs L live m (before ++ made :: (between ++ first :: after)) live' m')
    (h : L.InKernel live m contexts) (hMade : made.edit first.task = .create (created.answered v))
    (hBetween : ∀ r ∈ between, r.task ≠ first.task)
    (hSpared : ∀ r ∈ between, (r.edit first.task).Spares) :
    first.resumed = created.answered (lastRet first.task v between) := by
  rw [hRun.resumed_later h]
  refine contextsAfter_waiting ?_ hBetween hSpared
  rw [Round.contexts, hMade]
  rfl

end Runs

end TrainKernel.Kernel
