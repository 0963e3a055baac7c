import Mathlib.Logic.Function.Basic
import TrainKernel.Library.Words

/-!
# An ARM core

The registers of the 32-bit ARM with their banks, the program status registers, the
instructions of which context switches are made and the entry into an exception. Straight
code is a list of instructions; one that writes the program counter ends it. What the
architecture leaves unpredictable has no result.
-/

namespace TrainKernel.Library.Arm

open Function Words Words.WordMemory

inductive Mode where
  | usr | fiq | irq | svc | abt | und | sys
deriving DecidableEq, Repr

inductive Reg where
  | r0 | r1 | r2 | r3 | r4 | r5 | r6 | r7 | r8 | r9 | r10 | r11 | r12 | sp | lr | pc
deriving DecidableEq, Repr

namespace Mode

def bits : Mode → BitVec 5
  | usr => 0x10
  | fiq => 0x11
  | irq => 0x12
  | svc => 0x13
  | abt => 0x17
  | und => 0x1b
  | sys => 0x1f

def ofBits (b : BitVec 5) : Option Mode :=
  [usr, fiq, irq, svc, abt, und, sys].find? fun m => m.bits == b

theorem ofBits_bits (m : Mode) : ofBits m.bits = some m := by
  cases m <;> decide

/-- The bank in which a mode finds a register: the system mode shares the user's. -/
def bank : Mode → Reg → Mode
  | sys, _ => usr
  | fiq, .r8 | fiq, .r9 | fiq, .r10 | fiq, .r11 | fiq, .r12 => fiq
  | m, .sp | m, .lr => m
  | _, _ => usr

end Mode

/-- A program status register: the condition flags, the two interrupt masks, the state bit
and the mode. The bits between are reserved and read as zero. -/
structure Psr where
  flags : BitVec 4
  irqOff : Bool
  fiqOff : Bool
  thumb : Bool
  mode : Mode
deriving DecidableEq, Repr

namespace Psr

def toWord (p : Psr) : BitVec 32 :=
  (p.flags ++ 0#20 ++ BitVec.ofBool p.irqOff ++ BitVec.ofBool p.fiqOff ++
    BitVec.ofBool p.thumb ++ p.mode.bits).setWidth 32

def ofWord (w : BitVec 32) : Option Psr :=
  (Mode.ofBits (w.extractLsb' 0 5)).map fun mode =>
    ⟨w.extractLsb' 28 4, w.getLsbD 7, w.getLsbD 6, w.getLsbD 5, mode⟩

theorem ofWord_toWord (p : Psr) : ofWord p.toWord = some p := by
  obtain ⟨flags, irqOff, fiqOff, thumb, mode⟩ := p
  have hMode : (Psr.toWord ⟨flags, irqOff, fiqOff, thumb, mode⟩).extractLsb' 0 5 = mode.bits := by
    ext i hi
    simp only [toWord, BitVec.getElem_extractLsb', BitVec.getLsbD_setWidth, BitVec.getLsbD_append]
    simp [hi, Nat.lt_trans hi]
  have hFlags : (Psr.toWord ⟨flags, irqOff, fiqOff, thumb, mode⟩).extractLsb' 28 4 = flags := by
    ext i hi
    simp only [toWord, BitVec.getElem_extractLsb', BitVec.getLsbD_setWidth, BitVec.getLsbD_append]
    simp
    grind
  rw [ofWord, hMode, hFlags, Mode.ofBits_bits]
  simp only [toWord, Option.map_some, BitVec.getLsbD_setWidth, BitVec.getLsbD_append]
  simp

end Psr

structure Machine (M : Type*) where
  file : Mode × Reg → BitVec 32
  cpsr : Psr
  spsr : Mode → Psr
  mem : M

variable {M : Type*}

namespace Machine

def slot (m : Machine M) (r : Reg) : Mode × Reg := (m.cpsr.mode.bank r, r)

def reg (m : Machine M) (r : Reg) : BitVec 32 := m.file (m.slot r)

def setReg (m : Machine M) (r : Reg) (v : BitVec 32) : Machine M :=
  { m with file := update m.file (m.slot r) v }

def setRegs (m : Machine M) : List (Reg × BitVec 32) → Machine M
  | [] => m
  | (r, v) :: l => (m.setReg r v).setRegs l

def setCpsr (m : Machine M) (p : Psr) : Machine M := { m with cpsr := p }

def setSpsr (m : Machine M) (p : Psr) : Machine M :=
  { m with spsr := update m.spsr m.cpsr.mode p }

def setMem (m : Machine M) (mem : M) : Machine M := { m with mem := mem }

/-- A mode that an exception entered, with a saved status of its own. -/
def Banked (m : Machine M) : Prop := m.cpsr.mode ≠ .usr ∧ m.cpsr.mode ≠ .sys

instance (m : Machine M) : Decidable m.Banked := instDecidableAnd

/-- An exception that banks the return address `ret`. -/
def enter (m : Machine M) (mode : Mode) (ret : BitVec 32) : Machine M where
  file := update m.file (mode, .lr) ret
  cpsr := { m.cpsr with irqOff := true, thumb := false, mode := mode }
  spsr := update m.spsr mode m.cpsr
  mem := m.mem

end Machine

/-- The exceptions between two instructions, when `pc` holds the address of the one that would
come next. -/
inductive Exception where
  | swi
  | irq
deriving DecidableEq, Repr

def Exception.take (m : Machine M) : Exception → Machine M
  | .swi => m.enter .svc (m.reg .pc)
  | .irq => m.enter .irq (m.reg .pc + 4)

/-- Block transfers are full descending stacks: `stmfd` and `ldmfd`, with or without the new
address written back. -/
inductive Instr where
  | stmfd (base : Reg) (writeBack : Bool) (regs : List Reg)
  | ldmfd (base : Reg) (writeBack : Bool) (regs : List Reg)
  | ldr (rd rn : Reg) (offset : BitVec 32)
  | str (rd rn : Reg) (offset : BitVec 32)
  | mov (rd rn : Reg)
  | movImm (rd : Reg) (imm : BitVec 32)
  | add (rd rn : Reg) (imm : BitVec 32)
  | sub (rd rn : Reg) (imm : BitVec 32)
  | msrCpsrC (imm : BitVec 32)
  | msrSpsr (rm : Reg)
  | mrsSpsr (rd : Reg)
  | movsPcLr

variable [WordMemory M]

def Instr.exec (m : Machine M) : Instr → Option (Machine M)
  | .stmfd base writeBack regs =>
    let a := m.reg base - BitVec.ofNat 32 (4 * regs.length)
    if Aligned a then
      let m' := m.setMem (storeBlock m.mem a (regs.map m.reg))
      some (if writeBack then m'.setReg base a else m')
    else none
  | .ldmfd base writeBack regs =>
    let a := m.reg base
    if Aligned a then
      let m' := if writeBack then m.setReg base (a + BitVec.ofNat 32 (4 * regs.length)) else m
      some (m'.setRegs (regs.zip (loadBlock m.mem a regs.length)))
    else none
  | .ldr rd rn offset =>
    let a := m.reg rn + offset
    if Aligned a then some (m.setReg rd (load m.mem a)) else none
  | .str rd rn offset =>
    let a := m.reg rn + offset
    if Aligned a then some (m.setMem (store m.mem a (m.reg rd))) else none
  | .mov rd rn => some (m.setReg rd (m.reg rn))
  | .movImm rd imm => some (m.setReg rd imm)
  | .add rd rn imm => some (m.setReg rd (m.reg rn + imm))
  | .sub rd rn imm => some (m.setReg rd (m.reg rn - imm))
  | .msrCpsrC imm =>
    if m.cpsr.mode = .usr then some m
    else (Psr.ofWord imm).map fun c => m.setCpsr { c with flags := m.cpsr.flags }
  | .msrSpsr rm => if m.Banked then (Psr.ofWord (m.reg rm)).map m.setSpsr else none
  | .mrsSpsr rd => if m.Banked then some (m.setReg rd (m.spsr m.cpsr.mode).toWord) else none
  -- the return from an exception: the saved status comes back with the jump
  | .movsPcLr =>
    if m.Banked then some ((m.setReg .pc (m.reg .lr)).setCpsr (m.spsr m.cpsr.mode)) else none

def exec : List Instr → Machine M → Option (Machine M)
  | [], m => some m
  | i :: is, m => (i.exec m).bind (exec is)

end TrainKernel.Library.Arm
