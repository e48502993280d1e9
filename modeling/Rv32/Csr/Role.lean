/-
# `Rv32.Csr.Role` — what a control register is for

Most control registers are plain storage.  The others show or change something
else: a counter, the clock, the part of another register that a mode may see.  A
register's role says which of these it is, so that reading and writing are each
one rule for each role.
-/
import Rv32.Csr.Number
import Rv32.Csr.Status

namespace Rv32

inductive CsrRole where
  /-- The lower half of the instruction counter. -/
  | cyclesLow
  /-- The upper half of the instruction counter. -/
  | cyclesHigh
  /-- The lower half of the clock. -/
  | timeLow
  /-- The upper half of the clock. -/
  | timeHigh
  | hartId
  /-- Facts about the hart that are not told. -/
  | identity
  /-- Floating-point flags and rounding mode, which there are none of. -/
  | float
  /-- The status register, as far as a mode sees it. -/
  | status (view : Privilege)
  /-- The enabled interrupts, as far as a mode sees them. -/
  | enabled (view : Privilege)
  /-- The pending interrupts, as far as a mode sees them. -/
  | pending (view : Privilege)
  /-- Which exceptions the next lower mode handles. -/
  | exceptionDelegation
  /-- Which interrupts the mode below handles. -/
  | interruptDelegation (level : Privilege)
  /-- Where traps go. -/
  | vector
  /-- Where a trap came from. -/
  | returnAddress
  /-- The root of the page table. -/
  | translation
  | storage
deriving DecidableEq, Repr

namespace Csr

def role (c : Csr) : CsrRole :=
  if c ∈ [cycle, instret, mcycle, minstret] then .cyclesLow
  else if c ∈ [cycleh, instreth, mcycleh, minstreth] then .cyclesHigh
  else if c = time then .timeLow
  else if c = timeh then .timeHigh
  else if c = mhartid then .hartId
  else if c ∈ [misa, mvendorid, marchid, mimpid] then .identity
  else if c ∈ [fflags, frm, fcsr] then .float
  else if c = mstatus then .status .machine
  else if c = sstatus then .status .supervisor
  else if c = ustatus then .status .user
  else if c = mie then .enabled .machine
  else if c = sie then .enabled .supervisor
  else if c = uie then .enabled .user
  else if c = mip then .pending .machine
  else if c = sip then .pending .supervisor
  else if c = uip then .pending .user
  else if c ∈ [medeleg, sedeleg] then .exceptionDelegation
  else if c = mideleg then .interruptDelegation .machine
  else if c = sideleg then .interruptDelegation .supervisor
  else if c ∈ [mtvec, stvec, utvec] then .vector
  else if c ∈ [mepc, sepc, uepc] then .returnAddress
  else if c = satp then .translation
  else .storage

/-! ## What a mode sees

The views of a lower mode are the same words, restricted to some bits. -/

/-- The bits of the status register a mode sees. -/
def statusView : Privilege → Word
  | .machine => BitVec.allOnes 32
  | .supervisor => Status.supervisorMask
  | .user => Status.userMask

/-- The interrupts of a mode and of those below it. -/
def interruptsUpTo : Privilege → Word
  | .machine => 0xBBB
  | .supervisor => 0x333
  | .user => 0x111

/-- The bits a mode sees of the enabled and of the pending interrupts. -/
def interruptView : Privilege → Word
  | .machine => BitVec.allOnes 32
  | .supervisor => interruptsUpTo .supervisor
  | .user => interruptsUpTo .user

/-- The pending interrupts a mode can set.  Those of machine mode come from the
core-local interruptor; lower modes can set their software interrupts only. -/
def pendingWritable : Privilege → Word
  | .machine => interruptsUpTo .supervisor
  | .supervisor => 0x3
  | .user => 0x1

/-- The exceptions that a lower mode can handle: all but calls from machine mode. -/
def delegatableExceptions : Word := 0xB3FF

/-- The interrupts that a mode can leave to the mode below. -/
def delegatableInterrupts : Privilege → Word
  | .machine => interruptsUpTo .supervisor
  | .supervisor | .user => interruptsUpTo .user

end Csr
end Rv32
