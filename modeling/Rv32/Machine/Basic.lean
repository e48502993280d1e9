/-
# `Rv32.Machine.Basic` — harts that share a memory

A machine is a list of harts in front of one memory management unit.  The harts
take turns: each runs a slice of instructions, and before its slice may be
interrupted.  A run lasts a number of cycles, or until an instruction asks the
machine to stop; then the rest of that slice and of the round is left out.

A run of `n` cycles is `n / slice` full rounds and one shorter round for what is
left over.
-/
import Rv32.Hart.Snapshot
import Rv32.Hart.Step

namespace Rv32

structure MachineConfig where
  /-- The number of harts; they are numbered from zero. -/
  harts : Nat
  /-- The number of instructions of a turn. -/
  slice : Nat
  resetVector : Word
  /-- Whether a breakpoint instruction stops the machine. -/
  haltOnBreak : Bool
deriving DecidableEq, Repr

/-- A machine. -/
structure Machine where
  config : MachineConfig
  harts : List Hart
  mmu : Mmu
  /-- The number of cycles all runs have taken. -/
  executed : Nat

inductive RunResult where
  | completed
  /-- An instruction of this hart asked the machine to stop. -/
  | stopped (hart : Nat)
deriving DecidableEq, Repr

/-! ## Turns and rounds -/

/-- Takes steps, and stops after the one that asks for it; gives the number of steps
taken if that happens. -/
def Hart.run : (steps taken : Nat) → Hart → Mmu → Option Nat × Hart × Mmu
  | 0, _, h, mmu => (none, h, mmu)
  | n + 1, taken, h, mmu =>
    match h.step mmu with
    | (.stopped, h, mmu) => (some (taken + 1), h, mmu)
    | (.completed, h, mmu) | (.trapped _, h, mmu) => h.run n (taken + 1) mmu

/-- The turn of a hart: it may be interrupted, and then runs. -/
def Hart.turn (h : Hart) (slice : Nat) (mmu : Mmu) : Option Nat × Hart × Mmu :=
  let (_, h, mmu) := h.checkInterrupts mmu
  h.run slice 0 mmu

namespace Machine

/-- The turns of all harts.  Gives the hart that stopped the machine, if one did, and
the steps it took. -/
def turns (slice : Nat) : List Hart → Mmu → Option (Nat × Nat) × List Hart × Mmu
  | [], mmu => (none, [], mmu)
  | h :: rest, mmu =>
    match h.turn slice mmu with
    | (some taken, h, mmu) => (some (h.config.id, taken), h :: rest, mmu)
    | (none, h, mmu) =>
      let (stopped, rest, mmu) := turns slice rest mmu
      (stopped, h :: rest, mmu)

def round (m : Machine) (slice : Nat) : RunResult × Machine :=
  match turns slice m.harts m.mmu with
  | (some (hart, taken), harts, mmu) =>
    (.stopped hart, { m with harts, mmu, executed := m.executed + taken })
  | (none, harts, mmu) => (.completed, { m with harts, mmu, executed := m.executed + slice })

/-- Rounds, up to the one in which the machine is stopped. -/
def rounds : Nat → Machine → RunResult × Machine
  | 0, m => (.completed, m)
  | n + 1, m =>
    match m.round (max m.config.slice 1) with
    | (.stopped hart, m) => (.stopped hart, m)
    | (.completed, m) => rounds n m

/-- Runs a number of cycles.  Turns have at least one instruction. -/
def run (m : Machine) (cycles : Nat) : RunResult × Machine :=
  let slice := max m.config.slice 1
  match rounds (cycles / slice) m with
  | (.stopped hart, m) => (.stopped hart, m)
  | (.completed, m) =>
    if cycles % slice = 0 then (.completed, m) else m.round (cycles % slice)

/-! ## Building machines -/

/-- Where the registers of the core-local interruptor are. -/
def clintBase : Word := 0x02000000

def hartConfig (c : MachineConfig) (misaligned : Bool) (id : Nat) : HartConfig :=
  { id, resetVector := c.resetVector, haltOnBreak := c.haltOnBreak, misaligned }

def bare (c : MachineConfig) (misaligned : Bool) (journal : Journal) : Machine :=
  { config := c
    harts := (List.range c.harts).map fun id => Hart.init (hartConfig c misaligned id)
    mmu := Mmu.ofMemory (Memory.empty (Clint.init c.harts) journal)
    executed := 0 }

/-! ## The host's side -/

/-- The physical address space. -/
def memory (m : Machine) : Memory := m.mmu.memory

/-- The machine with another physical address space. -/
def setMemory (m : Machine) (memory : Memory) : Machine := { m with mmu := { m.mmu with memory } }

def hart? (m : Machine) (i : Nat) : Option Hart := m.harts[i]?

def setHart (m : Machine) (i : Nat) (h : Hart) : Machine := { m with harts := m.harts.set i h }

/-- The registers of the core-local interruptor. -/
def clint (m : Machine) : Clint := m.memory.clint

/-- The machine with other registers of the core-local interruptor. -/
def setClint (m : Machine) (clint : Clint) : Machine := m.setMemory { m.memory with clint }

def states (m : Machine) : List HartState := m.harts.map (·.state m.clint)

/-- Adds a device, and gives its index. -/
def add (m : Machine) (d : Device) : Except MapError Nat × Machine :=
  let (result, memory) := m.memory.add d
  (result, m.setMemory memory)

/-- Adds a report to the journal. -/
def record (m : Machine) (e : Event) : Machine := m.setMemory (m.memory.record e)

/-- A machine with no device but the core-local interruptor.  Its harts may misalign
addresses. -/
def create (c : MachineConfig) (journal : Journal) : Except MapError Machine :=
  match (bare c true journal).add (.clint clintBase) with
  | (.ok _, m) => .ok (m.record (.created c.harts c.resetVector))
  | (.error e, _) => .error e

/-- Resets all harts and drops the translations remembered for them.  Memory keeps its
contents. -/
def reset (m : Machine) : Machine :=
  { m with
    harts := m.harts.map Hart.reset
    mmu := m.harts.foldl (fun mmu h => mmu.invalidate h.config.id) m.mmu }

end Machine
end Rv32
