/-
# `Rv32.Trap.Cause` — exceptions, interrupts and traps

An exception is raised by an instruction, an interrupt from outside.  Either has
a code; the word reported to the handler holds the code, with the top bit set
for interrupts.
-/
import Rv32.Text.Hex

namespace Rv32

/-- What can go wrong, or be asked for, while an instruction executes. -/
inductive Exception where
  | instructionAddressMisaligned
  | instructionAccessFault
  /-- No such instruction, or no right to execute it here. -/
  | illegalInstruction
  | breakpoint
  | loadAddressMisaligned
  | loadAccessFault
  | storeAddressMisaligned
  | storeAccessFault
  | callFromUser
  | callFromSupervisor
  | callFromMachine
  | instructionPageFault
  | loadPageFault
  | storePageFault
deriving DecidableEq, Repr

namespace Exception

def code : Exception → Nat
  | .instructionAddressMisaligned => 0
  | .instructionAccessFault => 1
  | .illegalInstruction => 2
  | .breakpoint => 3
  | .loadAddressMisaligned => 4
  | .loadAccessFault => 5
  | .storeAddressMisaligned => 6
  | .storeAccessFault => 7
  | .callFromUser => 8
  | .callFromSupervisor => 9
  | .callFromMachine => 11
  | .instructionPageFault => 12
  | .loadPageFault => 13
  | .storePageFault => 15

def all : List Exception :=
  [.instructionAddressMisaligned, .instructionAccessFault, .illegalInstruction, .breakpoint,
    .loadAddressMisaligned, .loadAccessFault, .storeAddressMisaligned, .storeAccessFault,
    .callFromUser, .callFromSupervisor, .callFromMachine, .instructionPageFault, .loadPageFault,
    .storePageFault]

def name : Exception → String
  | .instructionAddressMisaligned => "InstructionAddressMisaligned"
  | .instructionAccessFault => "InstructionAccessFault"
  | .illegalInstruction => "IllegalInstruction"
  | .breakpoint => "Breakpoint"
  | .loadAddressMisaligned => "LoadAddressMisaligned"
  | .loadAccessFault => "LoadAccessFault"
  | .storeAddressMisaligned => "StoreOrAmoAddressMisaligned"
  | .storeAccessFault => "StoreOrAmoAccessFault"
  | .callFromUser => "EnvironmentCallFromUMode"
  | .callFromSupervisor => "EnvironmentCallFromSMode"
  | .callFromMachine => "EnvironmentCallFromMMode"
  | .instructionPageFault => "InstructionPageFault"
  | .loadPageFault => "LoadPageFault"
  | .storePageFault => "StoreOrAmoPageFault"

end Exception

/-- The software, timer and external interrupts of the three modes. -/
inductive Interrupt where
  | userSoftware
  | supervisorSoftware
  | machineSoftware
  | userTimer
  | supervisorTimer
  | machineTimer
  | userExternal
  | supervisorExternal
  | machineExternal
deriving DecidableEq, Repr

namespace Interrupt

/-- All interrupts, the most urgent first. -/
def byPriority : List Interrupt :=
  [.machineExternal, .machineSoftware, .machineTimer,
    .supervisorExternal, .supervisorSoftware, .supervisorTimer,
    .userExternal, .userSoftware, .userTimer]

/-- The code of an interrupt, which is also its bit in the pending and enable
registers. -/
def code : Interrupt → Nat
  | .userSoftware => 0
  | .supervisorSoftware => 1
  | .machineSoftware => 3
  | .userTimer => 4
  | .supervisorTimer => 5
  | .machineTimer => 7
  | .userExternal => 8
  | .supervisorExternal => 9
  | .machineExternal => 11

/-- The word with only the bit of an interrupt set. -/
def mask (i : Interrupt) : Word := 1#32 <<< i.code

def name : Interrupt → String
  | .userSoftware => "UserSoftwareInterrupt"
  | .supervisorSoftware => "SupervisorSoftwareInterrupt"
  | .machineSoftware => "MachineSoftwareInterrupt"
  | .userTimer => "UserTimerInterrupt"
  | .supervisorTimer => "SupervisorTimerInterrupt"
  | .machineTimer => "MachineTimerInterrupt"
  | .userExternal => "UserExternalInterrupt"
  | .supervisorExternal => "SupervisorExternalInterrupt"
  | .machineExternal => "MachineExternalInterrupt"

end Interrupt

inductive Cause where
  | exception (e : Exception)
  | interrupt (i : Interrupt)
deriving DecidableEq, Repr

namespace Cause

def isInterrupt : Cause → Bool
  | .exception _ => false
  | .interrupt _ => true

def code : Cause → Nat
  | .exception e => e.code
  | .interrupt i => i.code

/-- The word reported to the handler. -/
def word (c : Cause) : Word :=
  BitVec.ofNat 32 c.code ||| (if c.isInterrupt then 0x80000000 else 0)

def name : Cause → String
  | .exception e => e.name
  | .interrupt i => i.name

def ofName? (name : String) : Option Cause :=
  ((Exception.all.map exception) ++ Interrupt.byPriority.map interrupt).find? (·.name == name)

end Cause

structure Trap where
  cause : Cause
  /-- The instruction that raised the exception, or the one that an interrupt
  keeps from executing. -/
  epc : Word
  /-- The faulting address or instruction, or zero. -/
  tval : Word
deriving DecidableEq, Repr

namespace Trap

def ofException (e : Exception) (epc tval : Word) : Trap := ⟨.exception e, epc, tval⟩

/-- The trap of an interrupt, which has no value of its own. -/
def ofInterrupt (i : Interrupt) (epc : Word) : Trap := ⟨.interrupt i, epc, 0⟩

def render (t : Trap) : String :=
  t.cause.name ++ " at " ++ t.epc.hex ++ " (tval " ++ t.tval.hex ++ ")"

end Trap
end Rv32
