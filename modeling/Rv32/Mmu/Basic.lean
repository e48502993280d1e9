/-
# `Rv32.Mmu.Basic` — memory as a hart sees it

The memory management unit stands between harts and the physical address space.
It translates addresses where the context of an access asks for it, and turns an
address that no device has into an access fault.
-/
import Rv32.Paging.Cache

namespace Rv32

/-- The physical address space with the translations remembered for its harts. -/
structure Mmu where
  memory : Memory
  cache : TranslationCache

namespace Mmu

/-- A unit that remembers nothing. -/
def ofMemory (memory : Memory) : Mmu := ⟨memory, .empty⟩

/-- Drops the translations remembered for a hart. -/
def invalidate (mmu : Mmu) (hart : Nat) : Mmu := { mmu with cache := mmu.cache.invalidate hart }

/-- Work on the memory alone. -/
def onMemory {ε α : Type} (work : Attempt ε Memory α) : Attempt ε Mmu α := fun ⟨memory, cache⟩ =>
  let (result, memory) := work memory
  (result, ⟨memory, cache⟩)

/-- Work on physical addresses: an address without a device is an access fault. -/
def physically {α : Type} (work : Memory → Except Unmapped α × Memory) : Attempt Fault Mmu α :=
  onMemory fun memory =>
    let (result, memory) := work memory
    (result.mapError fun _ => .access, memory)

/-- Walks the page table, and remembers the page. -/
def walk (c : AccessContext) (address : Word) (access : Access) : Attempt Fault Mmu Word := do
  let physical ← onMemory (Paging.walk c address access)
  modify fun ⟨memory, cache⟩ =>
    ⟨memory.record (.translated address physical access c.privilege),
      cache.insert c address physical access⟩
  return physical

def translate (c : AccessContext) (address : Word) (access : Access) : Attempt Fault Mmu Word := do
  if c.paging then
    match (← get).cache.find? c address access with
    | some physical => return physical
    | none => walk c address access
  else
    return address

end Mmu
end Rv32
