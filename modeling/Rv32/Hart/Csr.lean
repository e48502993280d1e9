/-
# `Rv32.Hart.Csr` — reading and writing control registers

A read shows what the register's role says.  A write changes the fields that can
be changed, each to a value it may have, and leaves the rest alone; it never
fails.  Whether an instruction may touch a register at all is checked before.

Some writes make remembered translations wrong, and say so.
-/
import Rv32.Csr.Role
import Rv32.Hart.Basic

namespace Rv32.Hart

/-! ## Reads and writes -/

/-- The value of a control register. -/
def readCsr (h : Hart) (clint : Clint) (c : Csr) : Word :=
  match c.role with
  | .cyclesLow => Dword.low h.cycles
  | .cyclesHigh => Dword.high h.cycles
  | .timeLow => Dword.low clint.time
  | .timeHigh => Dword.high clint.time
  | .hartId => BitVec.ofNat 32 h.config.id
  | .identity | .float => 0
  | .status view => h.csrs.get Csr.mstatus &&& Csr.statusView view
  | .enabled view => h.csrs.get Csr.mie &&& Csr.interruptView view
  | .pending view => h.pending clint &&& Csr.interruptView view
  | .exceptionDelegation | .interruptDelegation _ | .vector | .returnAddress | .translation
  | .storage => h.csrs.get c

/-- The hart with a word stored for a control register. -/
def store (h : Hart) (c : Csr) (value : Word) : Hart := { h with csrs := h.csrs.set c value }

/-- The hart with some bits of a control register stored. -/
def storeMasked (h : Hart) (c : Csr) (value mask : Word) : Hart :=
  { h with csrs := h.csrs.setMasked c value mask }

/-- The hart after a control register is written. -/
def writeCsr (h : Hart) (c : Csr) (value : Word) : Hart :=
  if c.isReadOnly then h
  else
    match c.role with
    | .cyclesLow => { h with cycles := Dword.setLow h.cycles value }
    | .cyclesHigh => { h with cycles := Dword.setHigh h.cycles value }
    | .float => h
    | .status view =>
      { h with csrs := h.csrs.setStatus (h.csrs.status.written value (Csr.statusView view)) }
    | .enabled view => h.storeMasked Csr.mie value (Csr.interruptsUpTo view)
    | .pending view => h.storeMasked Csr.mip value (Csr.pendingWritable view)
    | .exceptionDelegation => h.store c (value &&& Csr.delegatableExceptions)
    | .interruptDelegation level => h.store c (value &&& Csr.delegatableInterrupts level)
    | .vector => h.store c (TrapVector.written ⟨h.csrs.get c⟩ value).bits
    | .returnAddress => h.store c (value &&& ~~~1#32)
    | .timeLow | .timeHigh | .hartId | .identity | .translation | .storage => h.store c value

/-- Whether a write makes remembered translations wrong: a new page table does, and
so does a change of who may touch which pages. -/
def writeFlushes (h : Hart) (c : Csr) (value : Word) : Bool :=
  match c.role with
  | .translation => true
  | .status _ =>
    let old := h.csrs.status
    let new := (h.writeCsr c value).csrs.status
    old.sum != new.sum || old.mxr != new.mxr
  | _ => false

/-! ## Wide numbers

A host may use numbers of sixteen bits.  Those that are not the number of a
register stand for its storage. -/

/-- The value of a register named by a wide number. -/
def readWide (h : Hart) (clint : Clint) (wide : Half) : Word :=
  if Csr.isNumber wide then h.readCsr clint (Csr.ofWide wide) else h.csrs.get (Csr.ofWide wide)

/-- The hart after a register named by a wide number is written. -/
def writeWide (h : Hart) (wide : Half) (value : Word) : Hart :=
  if Csr.isNumber wide then h.writeCsr (Csr.ofWide wide) value
  else if (Csr.ofWide wide).isReadOnly then h
  else h.store (Csr.ofWide wide) value

/-- Whether that write makes remembered translations wrong. -/
def writeWideFlushes (h : Hart) (wide : Half) (value : Word) : Bool :=
  Csr.isNumber wide && h.writeFlushes (Csr.ofWide wide) value

/-! ## Instructions -/

/-- Whether the hart may read a control register, or write it. -/
def mayUse (h : Hart) (c : Csr) (writing : Bool) : Bool :=
  !c.requiredPrivilege.exceeds h.privilege && !(writing && c.isReadOnly) &&
    !(c == Csr.satp && h.privilege == .supervisor && h.csrs.status.tvm)

/-- The value a control register instruction writes: for the operand's bits to be
set or cleared, that is made from the value before. -/
def csrResult (op : CsrOp) (old operand : Word) : Word :=
  match op with
  | .write => operand
  | .set => old ||| operand
  | .clear => old &&& ~~~operand

/-- The operand of a control register instruction. -/
def csrOperand (h : Hart) : CsrOperand → Word
  | .register rs1 => h.registers.x rs1
  | .immediate value => value.setWidth 32

/-- Whether a control register instruction writes the register.  Setting or clearing
the bits of register 0, or of an immediate zero, does not. -/
def csrWrites (op : CsrOp) (operand : CsrOperand) : Bool :=
  match op, operand with
  | .write, _ => true
  | .set, .register rs1 | .clear, .register rs1 => rs1 != Reg.zero
  | .set, .immediate value | .clear, .immediate value => value != 0

end Rv32.Hart
