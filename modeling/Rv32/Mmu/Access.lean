/-
# `Rv32.Mmu.Access` — loads, stores and fetches

A load or store of any width is one access to physical memory wherever one
translation will do for it: if it is aligned, or at least does not leave its page.
A misaligned access that does leave its page is made byte by byte.  A store then
translates every address before it writes the first byte, so that a page fault
leaves memory as it was.

An instruction is fetched in parcels of two bytes, so its second parcel may lie in
another page than its first and fault on its own.
-/
import Rv32.Mmu.Basic

namespace Rv32.Mmu

/-- Whether one translation will do for an access. -/
def inOnePiece (c : AccessContext) (w : Width) (address : Word) : Except Fault Bool :=
  if (Alignment.ofWidth w).admits address then .ok true
  else if !c.misaligned then .error .misaligned
  else .ok (decide (address.toNat % Paging.pageSize + w.bytes ≤ Paging.pageSize))

/-! ## Loads -/

/-- Loads consecutive bytes, each with a translation of its own. -/
def readBytes (c : AccessContext) (address : Word) : Nat → Attempt Fault Mmu (List Byte)
  | 0 => return []
  | n + 1 => do
    let physical ← translate c address .read
    let byte ← physically (·.read .byte physical)
    let rest ← readBytes c (address + 1) n
    return byte :: rest

def read (c : AccessContext) (w : Width) (address : Word) :
    Attempt Fault Mmu (BitVec w.bits) := do
  if ← inOnePiece c w address then
    let physical ← translate c address .read
    physically (·.read w physical)
  else
    let bytes ← readBytes c address w.bytes
    return w.combine fun i => bytes.getD i 0

/-! ## Stores -/

/-- The physical addresses of consecutive bytes that are to be written. -/
def translateBytes (c : AccessContext) (address : Word) : Nat → Attempt Fault Mmu (List Word)
  | 0 => return []
  | n + 1 => do
    let physical ← translate c address .write
    let rest ← translateBytes c (address + 1) n
    return physical :: rest

/-- Writes bytes, each to an address of its own. -/
def writeBytes : List (Word × Byte) → Attempt Fault Mmu Unit
  | [] => return ()
  | (physical, byte) :: rest => do
    physically (·.write .byte physical byte)
    writeBytes rest

def write (c : AccessContext) (w : Width) (address : Word) (value : BitVec w.bits) :
    Attempt Fault Mmu Unit := do
  if ← inOnePiece c w address then
    let physical ← translate c address .write
    physically (·.write w physical value)
  else
    let physical ← translateBytes c address w.bytes
    writeBytes (physical.zip (w.split value))

/-! ## Fetches -/

def fetchParcel (c : AccessContext) (address : Word) : Attempt Fault Mmu Half := do
  if !Alignment.half.admits address then
    throw .misaligned
  else
    let physical ← translate c address .execute
    physically (·.read .half physical)

end Rv32.Mmu
