/-
# `Rv32.Hart.Step` — fetching and executing, one instruction at a time

An instruction is fetched in parcels: the first tells whether there is a second.
A step counts, fetches, executes, and delivers the trap if there is one.  Between
steps a hart may be interrupted.
-/
import Rv32.Hart.Execute
import Rv32.Instruction.Parcel

namespace Rv32

inductive StepResult where
  | completed
  /-- The instruction asked for the machine to stop. -/
  | stopped
  /-- A trap was raised, and has been delivered. -/
  | trapped (trap : Trap)
deriving DecidableEq, Repr

namespace Hart

/-! ## Fetching -/

/-- Fetches a parcel of the instruction at the program counter. -/
def fetchParcel (h : Hart) (address : Word) : Attempt Trap Mmu Half :=
  h.accessing .execute address (Mmu.fetchParcel h.fetchContext address)

end Hart

namespace Execution

/-- A decoded instruction, or the exception of bits that are none. -/
def decoded (bits : Word) : Except DecodeError Instruction → Execution Instruction
  | .ok i => return i
  | .error _ => refuse bits

/-- Fetches the instruction at the program counter: what it is, its bits and its
length. -/
def fetch : Execution (Instruction × Word × Instruction.Length) := do
  let pc := (← hart).registers.pc
  let low ← reach (·.fetchParcel pc)
  let length := Instruction.length low
  let high ← match length with
    | .compressed => pure 0
    | .full => reach (·.fetchParcel (pc + 2))
  let bits : Word := high ++ low
  let i ← decoded bits (Instruction.ofWord bits)
  return (i, bits, length)

/-- Fetches and executes an instruction. -/
def attempt : Execution Completion := do
  let (i, bits, length) ← fetch
  execute i bits length

end Execution

/-! ## Steps -/

namespace Hart

/-- The hart with one more instruction counted. -/
def count (h : Hart) : Hart := { h with cycles := h.cycles + 1 }

/-- Delivers a trap, and reports it. -/
def takeTrap (h : Hart) (t : Trap) (mmu : Mmu) : Hart × Mmu :=
  (h.deliver t, { mmu with memory := mmu.memory.record (h.delivery t) })

/-- Executes the next instruction.  A trap is delivered on the hart that the
instruction has left behind. -/
def step (h : Hart) (mmu : Mmu) : StepResult × Hart × Mmu :=
  match Execution.attempt (h.count, mmu) with
  | (.ok .proceed, h, mmu) => (.completed, h, mmu)
  | (.ok .stop, h, mmu) => (.stopped, h, mmu)
  | (.error t, h, mmu) => (.trapped t, h.takeTrap t mmu)

/-- Delivers the most urgent interrupt, if there is one to deliver. -/
def checkInterrupts (h : Hart) (mmu : Mmu) : Option Trap × Hart × Mmu :=
  match h.nextInterrupt mmu.memory.clint with
  | none => (none, h, mmu)
  | some i =>
    let t := Trap.ofInterrupt i h.registers.pc
    (some t, h.takeTrap t mmu)

end Hart
end Rv32
