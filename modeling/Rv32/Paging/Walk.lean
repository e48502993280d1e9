/-
# `Rv32.Paging.Walk` — from a virtual address to a physical one

The page table has two levels.  An entry of the first maps either a large page,
of 4 MiB, or the table that holds the second.  Entries say which kinds of access
they grant, and to whom.  Whether a page was accessed or written is not recorded.
-/
import Rv32.Attempt
import Rv32.Memory.Access
import Rv32.Paging.Page

namespace Rv32

/-- Why a hart cannot access memory. -/
inductive Fault where
  /-- The address is not a multiple of the size. -/
  | misaligned
  | access
  /-- No page has the address, or none that allows the access. -/
  | page
deriving DecidableEq, Repr

def Fault.message : Fault → String
  | .misaligned => "misaligned access"
  | .access => "access fault"
  | .page => "page fault"

/-- What decides how a hart's access is translated. -/
structure AccessContext where
  hart : Nat
  privilege : Privilege
  /-- The register that holds the root of the page table. -/
  satp : Word
  /-- Whether the supervisor may touch user pages. -/
  sum : Bool
  /-- Whether executable pages are readable. -/
  mxr : Bool
  misaligned : Bool
deriving DecidableEq, Repr

namespace AccessContext

def machine (hart : Nat) : AccessContext := ⟨hart, .machine, 0, false, false, true⟩

/-- Whether addresses are translated: never in machine mode, and otherwise where a
page table is set up. -/
def paging (c : AccessContext) : Bool := c.privilege ≠ .machine && c.satp.getLsbD 31

/-- The root of the page table. -/
def root (c : AccessContext) : BitVec 22 := c.satp.extractLsb' 0 22

/-- Whether the owner of a page leaves it to the mode of the access.  User mode has
its own pages only; the supervisor has the others, and if so set up, may also read
and write those of user mode. -/
def owns (c : AccessContext) (userPage : Bool) (access : Access) : Bool :=
  match c.privilege with
  | .user => userPage
  | .supervisor => !userPage || (c.sum && access ≠ .execute)
  | .machine => true

/-- Whether an entry allows an access.  Pages that can be written but not read are
reserved. -/
def allows (c : AccessContext) (e : PageEntry) (access : Access) : Bool :=
  !(e.writable && !e.readable) && e.grants access c.mxr && c.owns e.user access

end AccessContext

namespace Paging

def readEntry (address : Word) : Attempt Fault Memory PageEntry := fun m =>
  match m.read .word address with
  | (.ok bits, m) => (.ok ⟨bits⟩, m)
  | (.error _, m) => (.error .access, m)

def walk (c : AccessContext) (address : Word) (access : Access) : Attempt Fault Memory Word := do
  let first ← readEntry (entryAddress c.root (firstIndex address))
  if !first.valid then
    throw .page
  else if first.isLeaf then
    if first.targetLow ≠ 0 || !c.allows first access then
      throw .page
    else
      return join (first.targetHigh ++ secondIndex address) (offsetOf address)
  else
    let second ← readEntry (entryAddress first.target (secondIndex address))
    if !second.valid || !second.isLeaf || !c.allows second access then
      throw .page
    else
      return join (second.targetHigh ++ second.targetLow) (offsetOf address)

end Paging
end Rv32
