import Mathlib.Data.BitVec
import TrainKernel.Kernel.Utils
import TrainKernel.Library.Arm

/-!
# The context switch

`kernelExit` leaves the kernel for a task, `kernelEnter` and `irqEnter` come back from it. What
the task sees of the machine is kept in the meantime in a frame on its own stack.
-/

namespace TrainKernel.Kernel

open Function Library.Words Library.Words.WordMemory Library.Arm

theorem loadWord_storeWord_of_ne (mem : Mem) (p q v : Word) (hp : Aligned p) (hq : Aligned q)
    (hNe : q ≠ p) : loadWord (storeWord mem p v) q = loadWord mem q := by
  apply Utils.loadWord_congr
  intro d hd
  have hBeyond : ¬q + d - p < 4 := by
    simp only [Aligned] at hp hq
    bv_omega
  rw [lane_of_aligned hq hd, storeWord, wordAt_of_aligned hp, if_neg hBeyond]

instance : WordMemory Mem where
  load := loadWord
  store := storeWord
  load_store mem _ v := loadWord_storeWord mem v
  load_store_of_ne := loadWord_storeWord_of_ne

def lowRegs : List Reg :=
  [.r0, .r1, .r2, .r3, .r4, .r5, .r6, .r7, .r8, .r9, .r10, .r11, .r12]

def savedRegs : List Reg := lowRegs ++ [.lr]

def kernelExit : List Instr :=
  [.stmfd .sp true savedRegs,
    .msrCpsrC 0xdf,
    .ldr .sp .r0 8,
    .mov .r1 .sp,
    .add .sp .sp 8,
    .msrCpsrC 0xd3,
    .ldmfd .r1 false [.r2, .lr],
    .msrSpsr .r2,
    .msrCpsrC 0xdf,
    .ldmfd .sp true savedRegs,
    .msrCpsrC 0xd3,
    .movsPcLr]

def irqEnter : List Instr :=
  [.msrCpsrC 0xdf,
    .stmfd .sp true savedRegs,
    .mov .r1 .sp,
    .sub .sp .sp 8,
    .msrCpsrC 0xd2,
    .sub .r3 .lr 4,
    .mrsSpsr .r2,
    .msrCpsrC 0xd3,
    .stmfd .r1 true [.r2, .r3],
    .ldmfd .sp true [.r0],
    .str .r1 .r0 8,
    .movImm .r0 0,
    .ldmfd .sp true (lowRegs.tail ++ [.pc])]

def kernelEnter : List Instr :=
  [.msrCpsrC 0xdf,
    .stmfd .sp true savedRegs,
    .mov .r1 .sp,
    .sub .sp .sp 8,
    .msrCpsrC 0xd3,
    .mrsSpsr .r2,
    .stmfd .r1 true [.r2, .lr],
    .ldmfd .sp true [.r2],
    .str .r1 .r2 8,
    .ldmfd .sp true (lowRegs.tail ++ [.pc])]

def handler : Exception → List Instr
  | .swi => kernelEnter
  | .irq => irqEnter

/-- What a task sees of the machine. -/
structure Context where
  psr : Psr
  reg : Reg → Word

/-- The registers of the user bank, whatever the mode. -/
def context (m : Machine Mem) : Context where
  psr := m.cpsr
  reg r := m.file (Mode.usr.bank r, r)

namespace Context

variable {c : Context} {mem : Mem} {q : Word}

/-- The words of a frame, from the lowest address. -/
def frame (c : Context) : List Word := [c.psr.toWord, c.reg .pc] ++ savedRegs.map c.reg

def frameAt (c : Context) : Word := c.reg .sp - 64#32

/-- What `kernelExit` gives back to the kernel: the request, or `NULL` on an interrupt. -/
def request (c : Context) : Exception → Word
  | .swi => c.reg .r0
  | .irq => 0#32

/-- The frame pushed in the two pieces in which the handlers push it. -/
def push (c : Context) (mem : Mem) : Mem :=
  storeBlock (storeBlock mem (c.reg .sp - 56#32) (savedRegs.map c.reg)) c.frameAt
    [c.psr.toWord, c.reg .pc]

theorem frameAt_add_eight (c : Context) : c.frameAt + 8#32 = c.reg .sp - 56#32 := by
  rw [frameAt]
  bv_omega

theorem aligned_frameAt (h : Aligned (c.reg .sp)) : Aligned c.frameAt := h.sub (by decide)

theorem aligned_regs (h : Aligned (c.reg .sp)) : Aligned (c.reg .sp - 56#32) := h.sub (by decide)

theorem loadWord_push (h : Aligned (c.reg .sp)) (hq : Aligned q) (hOut : ¬Inside c.frameAt 16 q) :
    loadWord (c.push mem) q = loadWord mem q := by
  have hHead : ¬Inside c.frameAt 2 q := by
    simp only [Inside] at hOut ⊢
    omega
  have hRegs : ¬Inside (c.reg .sp - 56#32) 14 q := by
    rw [← c.frameAt_add_eight]
    simp only [Inside] at hOut ⊢
    bv_omega
  exact (load_storeBlock (l := [_, _]) _ (aligned_frameAt h) hq hHead).trans
    (load_storeBlock (l := savedRegs.map c.reg) mem (aligned_regs h) hq hRegs)

theorem loadBlock_push (mem : Mem) (h : Aligned (c.reg .sp)) :
    loadBlock (c.push mem) c.frameAt 16 = c.frame := by
  have hBelow : Apart c.frameAt 2 (c.reg .sp - 56#32) 14 := by
    rw [← c.frameAt_add_eight]
    constructor <;> bv_omega
  rw [show 16 = 2 + 14 from rfl, loadBlock_add, frame, show BitVec.ofNat 32 (4 * 2) = 8#32 from rfl,
    frameAt_add_eight, push]
  congr 1
  · exact loadBlock_storeBlock (l := [_, _]) _ (aligned_frameAt h) (by simp)
  · rw [loadBlock_storeBlock_of_apart (l := [_, _]) _ (aligned_frameAt h) (aligned_regs h)
      (by decide) hBelow]
    exact loadBlock_storeBlock (l := savedRegs.map c.reg) mem (aligned_regs h)
      (by simp [savedRegs, lowRegs])

end Context

/-- `&task->sp` -/
def spField (task : Word) : Word := task + 8#32

theorem aligned_spField {task : Word} (h : Aligned task) : Aligned (spField task) :=
  h.add (by decide)

/-- The frame of a task and the pointer to it, as the kernel keeps them while the task is not
running. -/
structure Saved (mem : Mem) (task : Word) (c : Context) : Prop where
  sp : loadWord mem (spField task) = c.frameAt
  frame : loadBlock mem c.frameAt 16 = c.frame

/-- What a handler does to memory. -/
def Context.save (c : Context) (mem : Mem) (task : Word) : Mem :=
  storeWord (c.push mem) (spField task) c.frameAt

section Save

variable {c : Context} {mem : Mem} {task q : Word}

theorem Context.loadWord_save (hSp : Aligned (c.reg .sp)) (hTask : Aligned task) (hq : Aligned q)
    (hField : q ≠ spField task) (hOut : ¬Inside c.frameAt 16 q) :
    loadWord (c.save mem task) q = loadWord mem q :=
  (loadWord_storeWord_of_ne _ _ _ _ (aligned_spField hTask) hq hField).trans
    (c.loadWord_push hSp hq hOut)

theorem Context.saved_save (mem : Mem) (hSp : Aligned (c.reg .sp)) (hTask : Aligned task)
    (hOut : ¬Inside c.frameAt 16 (spField task)) : Saved (c.save mem task) task c where
  sp := loadWord_storeWord _ _ (aligned_spField hTask)
  frame := by
    rw [← c.loadBlock_push mem hSp]
    apply loadBlock_congr (c.aligned_frameAt hSp) (by decide)
    intro q hq hInside
    apply loadWord_storeWord_of_ne _ _ _ _ (aligned_spField hTask) hq
    rintro rfl
    exact hOut hInside

end Save

section Programs

variable {m u : Machine Mem} {task : Word} {c : Context} {k : Reg → Word}

theorem load_mem (mem : Mem) (p : Word) : load mem p = loadWord mem p := rfl

theorem store_mem (mem : Mem) (p v : Word) : store mem p v = storeWord mem p v := rfl

theorem ofWord_sys : Psr.ofWord 0xdf#32 = some ⟨0, true, true, false, .sys⟩ := rfl

theorem ofWord_irq : Psr.ofWord 0xd2#32 = some ⟨0, true, true, false, .irq⟩ := rfl

theorem ofWord_svc : Psr.ofWord 0xd3#32 = some ⟨0, true, true, false, .svc⟩ := rfl

theorem map_savedRegs (f : Reg → Word) : savedRegs.map f =
    [f .r0, f .r1, f .r2, f .r3, f .r4, f .r5, f .r6, f .r7, f .r8, f .r9, f .r10, f .r11,
      f .r12, f .lr] := rfl

/-- The two pieces in which `kernelExit` pops the frame. -/
theorem Saved.pieces {mem : Mem} (h : Saved mem task c) :
    loadBlock mem c.frameAt 2 = [c.psr.toWord, c.reg .pc] ∧
      loadBlock mem (c.reg .sp - 56#32) 14 = savedRegs.map c.reg := by
  have hBlock := h.frame
  rw [show 16 = 2 + 14 from rfl, loadBlock_add, Context.frame,
    show BitVec.ofNat 32 (4 * 2) = 8#32 from rfl, c.frameAt_add_eight] at hBlock
  exact List.append_inj hBlock (length_loadBlock _ _ _)

/-- The part of `kernelExit` after the kernel's own registers have been pushed. -/
theorem resume_runs (hMode : m.cpsr.mode = .svc) (hTask : m.file (.usr, .r0) = task)
    (hAligned : Aligned task) (hSp : Aligned (c.reg .sp)) (hSaved : Saved m.mem task c) :
    ∃ m', exec kernelExit.tail m = some m' ∧ context m' = c ∧
      m'.file (.svc, .sp) = m.file (.svc, .sp) ∧ m'.mem = m.mem := by
  have hField := aligned_spField hAligned
  have hFrame := c.aligned_frameAt hSp
  have hRegs := c.aligned_regs hSp
  have hAbove := c.frameAt_add_eight
  have hLoad := hSaved.sp
  obtain ⟨hHead, hTail⟩ := hSaved.pieces
  clear hSaved
  obtain ⟨file, ⟨flags, irqOff, fiqOff, thumb, mode⟩, spsr, mem⟩ := m
  simp only at hMode hTask
  subst hMode hTask
  simp only [map_savedRegs, Context.frameAt, spField] at hTail hHead hLoad hField hFrame hAbove
  simp [kernelExit, exec, Instr.exec, Machine.setReg, Machine.setRegs, Machine.setCpsr,
    Machine.setSpsr, Machine.slot, Machine.reg, Machine.Banked, Mode.bank, savedRegs, lowRegs,
    load_mem, ofWord_sys, ofWord_svc, Psr.ofWord_toWord, hField, hFrame, hRegs, hLoad, hHead,
    hTail, hAbove]
  rw [context, Context.mk.injEq]
  refine ⟨rfl, funext fun r => ?_⟩
  cases r <;> simp [Mode.bank]

/-- Both handlers, when the kernel's registers lie above the stack pointer it had left. -/
theorem handler_runs (cause : Exception) (hUser : u.cpsr.mode = .usr) (hc : context u = c)
    (hSp : Aligned (c.reg .sp)) (hKsp : Aligned (u.file (.svc, .sp))) (hTask : Aligned task)
    (hHead : loadBlock (c.push u.mem) (u.file (.svc, .sp)) 1 = [task])
    (hRest : loadBlock (c.save u.mem task) (u.file (.svc, .sp) + 4#32) 13 =
      (lowRegs.tail ++ [Reg.lr]).map k) :
    ∃ m', exec (handler cause) (cause.take u) = some m' ∧ m'.cpsr.mode = .svc ∧
      m'.reg .sp = u.file (.svc, .sp) + 56#32 ∧ m'.reg .r0 = c.request cause ∧
      (∀ r ∈ lowRegs.tail, m'.reg r = k r) ∧ m'.reg .pc = k .lr ∧
      m'.mem = c.save u.mem task := by
  have hField : Aligned (task + 8#32) := aligned_spField hTask
  have hFrame := c.aligned_frameAt hSp
  have hRegs := c.aligned_regs hSp
  have hUp : Aligned (u.file (.svc, .sp) + 4#32) := hKsp.add (by decide)
  have hBelow : c.reg .sp - 56#32 - 8#32 = c.reg .sp - 64#32 := by bv_omega
  have hTop : u.file (.svc, .sp) + 4#32 + 52#32 = u.file (.svc, .sp) + 56#32 := by bv_omega
  obtain ⟨file, ⟨flags, irqOff, fiqOff, thumb, mode⟩, spsr, mem⟩ := u
  simp only at hUser hKsp hUp hTop
  subst hUser hc
  simp only [Context.save, Context.push, map_savedRegs, Context.frameAt, spField, context,
    Mode.bank, lowRegs, List.tail_cons, List.cons_append, List.nil_append, List.map_cons,
    List.map_nil] at hHead hRest hFrame hRegs hBelow
  cases cause with
  | swi =>
    simp [handler, kernelEnter, exec, Instr.exec, Exception.take, Machine.enter, Machine.setReg,
      Machine.setRegs, Machine.setCpsr, Machine.setMem, Machine.slot, Machine.reg, Machine.Banked,
      Mode.bank, savedRegs, lowRegs, store_mem, ofWord_sys, ofWord_svc, hField, hFrame,
      hRegs, hHead, hBelow, hKsp, hUp, hRest, hTop, Context.save, Context.push, Context.frameAt,
      spField, context, Context.request]
  | irq =>
    have hPc : file (.usr, .pc) + 4#32 - 4#32 = file (.usr, .pc) := BitVec.add_sub_cancel _ _
    simp [handler, irqEnter, exec, Instr.exec, Exception.take, Machine.enter, Machine.setReg,
      Machine.setRegs, Machine.setCpsr, Machine.setMem, Machine.slot, Machine.reg, Machine.Banked,
      Mode.bank, savedRegs, lowRegs, store_mem, ofWord_sys, ofWord_irq, ofWord_svc,
      hField, hFrame, hRegs, hHead, hBelow, hKsp, hUp, hRest, hTop, hPc, Context.save,
      Context.push, Context.frameAt, spField, context, Context.request]

end Programs

end TrainKernel.Kernel
