/-
# `Rv32.Hart.Execute` — what an instruction does

An instruction works on the hart that executes it, in place, and through it on
memory.  If it traps, the hart stays behind as it is then, and whoever delivers the
trap goes on with that one.  So what an instruction does before it traps is up to the
order in which it goes about its work.  What it did to memory on the way stays done.

Rounding modes matter only where a single becomes an integer; all arithmetic rounds
to nearest, ties to even.
-/
import Rv32.Hart.Trap
import Rv32.Instruction.Compute
import Rv32.Mmu.Atomic
import Rv32.Single.Arith
import Rv32.Single.Convert
import Rv32.Single.Order

namespace Rv32

def Exception.ofFault : Access → Fault → Exception
  | .read, .misaligned => .loadAddressMisaligned
  | .read, .access => .loadAccessFault
  | .read, .page => .loadPageFault
  | .write, .misaligned => .storeAddressMisaligned
  | .write, .access => .storeAccessFault
  | .write, .page => .storePageFault
  | .execute, .misaligned => .instructionAddressMisaligned
  | .execute, .access => .instructionAccessFault
  | .execute, .page => .instructionPageFault

/-- Whether execution goes on after an instruction. -/
inductive Completion where
  | proceed
  /-- The instruction asks for the machine to stop. -/
  | stop
deriving DecidableEq, Repr

namespace Hart

/-! ## What is looked up in a hart -/

/-- An exception of the instruction at the program counter. -/
def raise (h : Hart) (e : Exception) (tval : Word) : Trap := .ofException e h.registers.pc tval

/-- The exception of an instruction that may not be executed here. -/
def illegal (h : Hart) (bits : Word) : Trap := h.raise .illegalInstruction bits

/-- The exception by which a mode calls its environment. -/
def callException : Privilege → Exception
  | .user => .callFromUser
  | .supervisor => .callFromSupervisor
  | .machine => .callFromMachine

/-- Whether the hart may drop remembered translations. -/
def mayFence (h : Hart) : Bool :=
  h.privilege == .machine || (h.privilege == .supervisor && !h.csrs.status.tvm)

def dataAddress (h : Hart) (rs1 : Reg) (offset : BitVec 12) : Word :=
  h.registers.x rs1 + Instruction.immediate offset

/-! ## Memory -/

/-- An access to memory whose faults are exceptions. -/
def accessing {α : Type} (h : Hart) (access : Access) (address : Word)
    (work : Attempt Fault Mmu α) : Attempt Trap Mmu α :=
  ExceptT.adapt (fun fault => h.raise (Exception.ofFault access fault) address) work

def loadFrom (h : Hart) (w : Width) (address : Word) : Attempt Trap Mmu (BitVec w.bits) :=
  h.accessing .read address (Mmu.read h.dataContext w address)

def storeTo (h : Hart) (w : Width) (address : Word) (value : BitVec w.bits) :
    Attempt Trap Mmu Unit :=
  h.accessing .write address (Mmu.write h.dataContext w address value)

end Hart

/-- Work on a hart and on memory, in place. -/
abbrev Execution (α : Type) : Type := Attempt Trap (Hart × Mmu) α

namespace Execution

/-! ## Steps of instructions -/

/-- The hart as it is now. -/
def hart : Execution Hart := return (← get).1

def change (f : Hart → Hart) : Execution Unit := modify fun (h, mmu) => (f h, mmu)

/-- Work on memory, for which the hart is only looked at. -/
def reach {α : Type} (work : Hart → Attempt Trap Mmu α) : Execution α := fun (h, mmu) =>
  let (result, mmu) := work h mmu
  (result, h, mmu)

/-- Drops the translations that are remembered for the hart. -/
def forget : Execution Unit := modify fun (h, mmu) => (h, mmu.invalidate h.config.id)

def raise {α : Type} (e : Exception) (tval : Word) : Execution α := do
  throw ((← hart).raise e tval)

/-- The instruction may not be executed here. -/
def refuse {α : Type} (bits : Word) : Execution α := raise .illegalInstruction bits

/-! ## Registers -/

def setX (rd : Reg) (value : Word) : Execution Unit :=
  change fun h => { h with registers := h.registers.setX rd value }

def setF (rd : Reg) (value : Dword) : Execution Unit :=
  change fun h => { h with registers := h.registers.setF rd value }

def setSingle (rd : Reg) (value : Word) : Execution Unit :=
  change fun h => { h with registers := h.registers.setSingle rd value }

def goto (target : Word) : Execution Unit :=
  change fun h => { h with registers := { h.registers with pc := target } }

def advance (length : Instruction.Length) : Execution Unit :=
  change fun h => { h with registers := h.registers.advance length.bytes }

/-- Goes on with the next instruction. -/
def skip (length : Instruction.Length) : Execution Completion := do
  advance length
  return .proceed

/-- Writes an integer register, and goes on. -/
def finish (length : Instruction.Length) (rd : Reg) (value : Word) : Execution Completion := do
  setX rd value
  skip length

/-- Writes a single, and goes on. -/
def finishSingle (length : Instruction.Length) (rd : Reg) (value : Word) :
    Execution Completion := do
  setSingle rd value
  skip length

/-- Writes a floating-point register, and goes on. -/
def finishDouble (length : Instruction.Length) (rd : Reg) (value : Dword) :
    Execution Completion := do
  setF rd value
  skip length

/-! ## Control flow -/

/-- Jumps, and leaves the address of the next instruction in a register. -/
def jump (length : Instruction.Length) (rd : Reg) (target : Word) : Execution Completion := do
  if Alignment.half.admits target then
    let next := (← hart).registers.pc + length.bytes
    goto target
    setX rd next
    return .proceed
  else raise .instructionAddressMisaligned target

/-- Goes to the target if the branch is taken, and on otherwise. -/
def branchTo (length : Instruction.Length) (taken : Bool) (target : Word) :
    Execution Completion := do
  if !taken then skip length
  else if Alignment.half.admits target then
    goto target
    return .proceed
  else raise .instructionAddressMisaligned target

/-! ## Control registers -/

/-- Writes a control register, and drops the translations that the write makes wrong. -/
def writeCsr (c : Csr) (value : Word) : Execution Unit := do
  let flushes := (← hart).writeFlushes c value
  change fun h => h.writeCsr c value
  if flushes then forget

/-- Reads a control register, and writes it if the instruction does. -/
def useCsr (bits : Word) (length : Instruction.Length) (op : CsrOp) (rd : Reg)
    (operand : CsrOperand) (c : Csr) : Execution Completion := do
  let h ← hart
  let operandValue := h.csrOperand operand
  let writing := Hart.csrWrites op operand
  if !h.mayUse c writing then refuse bits
  else
    let old := h.readCsr (← get).2.memory.clint c
    if writing then
      writeCsr c (Hart.csrResult op old operandValue)
    finish length rd old

/-! ## Instructions -/

/-- Executes an instruction.  `bits` are the instruction's own, which a handler is
shown if it is illegal here. -/
def execute (i : Instruction) (bits : Word) (length : Instruction.Length) :
    Execution Completion := do
  let h ← hart
  let r := h.registers
  match i with
  | .opImm op rd rs1 imm => finish length rd (op.apply (r.x rs1) (Instruction.immediate imm))
  | .shiftImm op rd rs1 amount => finish length rd (op.apply (r.x rs1) amount)
  | .auipc rd imm => finish length rd (r.pc + Instruction.upper imm)
  | .lui rd imm => finish length rd (Instruction.upper imm)
  | .opReg op rd rs1 rs2 => finish length rd (op.apply (r.x rs1) (r.x rs2))
  | .jal rd offset => jump length rd (r.pc + Instruction.jumpOffset offset)
  | .jalr rd rs1 offset =>
    jump length rd ((r.x rs1 + Instruction.immediate offset) &&& ~~~1#32)
  | .branch condition rs1 rs2 offset =>
    branchTo length (condition.holds (r.x rs1) (r.x rs2))
      (r.pc + Instruction.branchOffset offset)
  | .load op rd rs1 offset =>
    let value ← reach (·.loadFrom op.width (h.dataAddress rs1 offset))
    finish length rd (op.extend value)
  | .store op rs2 rs1 offset =>
    reach (·.storeTo op.width (h.dataAddress rs1 offset) ((r.x rs2).setWidth _))
    skip length
  | .fence | .fenceI | .waitForInterrupt => skip length
  | .ecall => raise (Hart.callException h.privilege) 0
  | .ebreak =>
    if h.config.haltOnBreak then
      advance length
      return .stop
    else raise .breakpoint r.pc
  | .breakHint =>
    advance length
    return if h.config.haltOnBreak then .stop else .proceed
  | .trapReturn level =>
    if h.mayReturn level then
      change (·.trapReturn level)
      return .proceed
    else refuse bits
  | .fenceTranslations _ _ =>
    if h.mayFence then
      forget
      skip length
    else refuse bits
  | .csr op rd operand c => useCsr bits length op rd operand c
  | .loadFloat .single rd rs1 offset =>
    let value ← reach (·.loadFrom .word (h.dataAddress rs1 offset))
    finishSingle length rd value
  | .loadFloat .double rd rs1 offset =>
    let value ← reach (·.loadFrom .dword (h.dataAddress rs1 offset))
    finishDouble length rd value
  | .storeFloat .single rs2 rs1 offset =>
    reach (·.storeTo .word (h.dataAddress rs1 offset) (Dword.low (r.f rs2)))
    skip length
  | .storeFloat .double rs2 rs1 offset =>
    reach (·.storeTo .dword (h.dataAddress rs1 offset) (r.f rs2))
    skip length
  | .floatArith op rd rs1 rs2 _ =>
    finishSingle length rd (Single.arith op (r.single rs1) (r.single rs2))
  | .floatSqrt rd rs1 _ => finishSingle length rd (Single.sqrt (r.single rs1))
  | .floatPick op rd rs1 rs2 =>
    finishSingle length rd (Single.pick op (r.single rs1) (r.single rs2))
  | .floatCompare op rd rs1 rs2 =>
    finish length rd (Word.ofBool (Single.compare op (r.single rs1) (r.single rs2)))
  | .floatToInt sign rd rs1 rounding =>
    finish length rd (Single.toWord sign rounding (r.single rs1))
  | .floatOfInt sign rd rs1 _ => finishSingle length rd (Single.ofWord sign (r.x rs1))
  | .floatMoveOut rd rs1 => finish length rd (Dword.low (r.f rs1))
  | .floatMoveIn rd rs1 => finishSingle length rd (r.x rs1)
  | .floatClass rd rs1 => finish length rd (Single.classMask (r.single rs1))
  | .fused op rd rs1 rs2 rs3 _ =>
    finishSingle length rd (Single.fused op (r.single rs1) (r.single rs2) (r.single rs3))
  | .amo op rd rs1 rs2 =>
    let address := r.x rs1
    let old ← reach fun h => h.accessing .write address
      (Mmu.update h.dataContext address fun old => op.apply old (r.x rs2))
    finish length rd old
  | .loadReserved rd rs1 =>
    let address := r.x rs1
    let value ← reach fun h =>
      h.accessing .read address (Mmu.loadReserved h.dataContext address)
    finish length rd value
  | .storeConditional rd rs1 rs2 =>
    let address := r.x rs1
    let stored ← reach fun h => h.accessing .write address
      (Mmu.storeConditional h.dataContext address (r.x rs2))
    finish length rd (Word.ofBool !stored)

end Execution

/-- Executes an instruction on a hart.  With the result, or the trap, is the hart that
the instruction leaves behind. -/
def Hart.execute (h : Hart) (i : Instruction) (bits : Word) (length : Instruction.Length)
    (mmu : Mmu) : Except Trap Completion × Hart × Mmu :=
  Execution.execute i bits length (h, mmu)

end Rv32
