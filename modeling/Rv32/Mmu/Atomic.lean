/-
# `Rv32.Mmu.Atomic` — accesses that nothing comes between

Harts take turns, so an access to memory is atomic if it is made within one
instruction.  Atomic accesses are to aligned words.

A conditional store succeeds if its hart still holds the reservation that an
earlier load made; either way the reservation is gone afterwards.
-/
import Rv32.Mmu.Access

namespace Rv32.Mmu

def atomicAddress (c : AccessContext) (address : Word) (access : Access) :
    Attempt Fault Mmu Word := do
  if !Alignment.word.admits address then throw .misaligned else translate c address access

/-- Replaces a word by a function of it, and gives the word it was. -/
def update (c : AccessContext) (address : Word) (f : Word → Word) : Attempt Fault Mmu Word := do
  let physical ← atomicAddress c address .write
  let old ← physically (·.read .word physical)
  physically (·.write .word physical (f old))
  return old

def loadReserved (c : AccessContext) (address : Word) : Attempt Fault Mmu Word := do
  let physical ← atomicAddress c address .read
  let value ← physically (·.read .word physical)
  physically fun m => (.ok (), m.reserve c.hart physical)
  return value

/-- Stores a word if the hart still holds its reservation, and tells whether it did. -/
def storeConditional (c : AccessContext) (address : Word) (value : Word) :
    Attempt Fault Mmu Bool := do
  let physical ← atomicAddress c address .write
  let held ← physically fun m => let (held, m) := m.takeReservation c.hart physical; (.ok held, m)
  if held then
    physically (·.write .word physical value)
    return true
  else
    return false

end Rv32.Mmu
