/-
# `Rv32.Hart.Basic` — the state of a hart

A hart has registers, control registers, a mode and a counter.  Every instruction
takes one cycle, so cycles and instructions are counted together.  What its timer
says, the hart looks up in the core-local interruptor, which all harts share.
-/
import Rv32.Csr.File
import Rv32.Paging.Walk
import Rv32.Register.File
import Rv32.Trap.Vector

namespace Rv32

structure HartConfig where
  /-- The number by which the hart is told apart. -/
  id : Nat
  resetVector : Word
  /-- Whether a breakpoint instruction stops the machine; otherwise it traps. -/
  haltOnBreak : Bool
  /-- Whether addresses of loads and stores may be misaligned. -/
  misaligned : Bool
deriving DecidableEq, Repr

/-- A hart. -/
structure Hart where
  config : HartConfig
  registers : RegisterFile
  csrs : CsrFile
  privilege : Privilege
  /-- The number of instructions begun. -/
  cycles : Dword

namespace Hart

def init (config : HartConfig) : Hart :=
  ⟨config, RegisterFile.init config.resetVector, CsrFile.init, .machine, 0⟩

def reset (h : Hart) : Hart := init h.config

def context (h : Hart) (privilege : Privilege) : AccessContext :=
  { hart := h.config.id
    privilege
    satp := h.csrs.get Csr.satp
    sum := h.csrs.status.sum
    mxr := h.csrs.status.mxr
    misaligned := h.config.misaligned }

/-- The mode loads and stores are made in.  Machine mode can borrow the mode it was
entered from. -/
def dataPrivilege (h : Hart) : Privilege :=
  if h.privilege = .machine ∧ h.csrs.status.mprv then h.csrs.status.mpp else h.privilege

/-- The context of a fetch. -/
def fetchContext (h : Hart) : AccessContext := h.context h.privilege

/-- The context of a load or store. -/
def dataContext (h : Hart) : AccessContext := h.context h.dataPrivilege

/-- The interrupts that are pending: those that software set, and those of machine
mode that the core-local interruptor asks for. -/
def pending (h : Hart) (clint : Clint) : Word :=
  let software := if clint.software h.config.id then Interrupt.machineSoftware.mask else 0
  let timer :=
    if clint.compare h.config.id ≤ clint.time then Interrupt.machineTimer.mask else 0
  h.csrs.get Csr.mip ||| software ||| timer

end Hart
end Rv32
