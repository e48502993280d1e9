/-
# `Rv32.Address.Range` — ranges of physical addresses

A range is given by its first and its last address and is never empty.  The last
address is included, so the whole address space is a range too; its size is the
one that no 32-bit word can hold.
-/
import Rv32.Text.Hex

namespace Rv32.Address

/-- A non-empty range of addresses, both ends included. -/
structure Range where
  first : Word
  last : Word
  first_le_last : first.toNat ≤ last.toNat
deriving DecidableEq

structure InvalidBounds where
  first : Word
  last : Word
deriving DecidableEq, Repr

def InvalidBounds.message (e : InvalidBounds) : String :=
  "bounds [" ++ Rv32.hex 0 e.first.toNat ++ ", " ++ Rv32.hex 0 e.last.toNat ++
    "] do not form a valid 32-bit address range"

namespace Range

def ofBounds (first last : Word) : Except InvalidBounds Range :=
  if h : first.toNat ≤ last.toNat then .ok ⟨first, last, h⟩ else .error ⟨first, last⟩

/-- The range of `length` addresses from `start` on.  It has to hold at least one
address and to end before the address space does. -/
def ofLength (start length : Word) : Except InvalidBounds Range :=
  if 0 < length.toNat ∧ start.toNat + (length.toNat - 1) < 0x100000000 then
    ofBounds start (start + (length - 1))
  else .error ⟨start, start + length⟩

def contains (r : Range) (address : Word) : Bool :=
  decide (r.first.toNat ≤ address.toNat ∧ address.toNat ≤ r.last.toNat)

/-- Where a range is, as seen from an address: after it, before it, or around it. -/
def compare (r : Range) (address : Word) : Ordering :=
  if address.toNat < r.first.toNat then .gt
  else if address.toNat ≤ r.last.toNat then .eq
  else .lt

/-- Whether two ranges have an address in common. -/
def overlaps (r s : Range) : Bool :=
  decide (r.first.toNat ≤ s.last.toNat ∧ s.first.toNat ≤ r.last.toNat)

/-- The distance of the ends: one less than the size. -/
def delta (r : Range) : Word := r.last - r.first

def size (r : Range) : Nat := r.delta.toNat + 1

def render (r : Range) : String := "[" ++ r.first.hex ++ ", " ++ r.last.hex ++ "]"

end Range
end Rv32.Address
