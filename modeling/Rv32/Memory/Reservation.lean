/-
# `Rv32.Memory.Reservation` — which hart may store conditionally

A hart that loads a word with reservation may later store to it, provided nobody
wrote near it in between.  What counts as near is the block of sixteen bytes
around the word.  Each hart has at most one reservation.
-/
import Rv32.Word

namespace Rv32

/-- The number of a block of sixteen bytes. -/
abbrev Granule := BitVec 28

def granuleOf (address : Word) : Granule := address.extractLsb' 4 28

structure Reservations where
  entries : List (Nat × Granule)
deriving DecidableEq, Repr

namespace Reservations

def none : Reservations := ⟨[]⟩

def of? (r : Reservations) (hart : Nat) : Option Granule :=
  (r.entries.find? fun e => e.1 == hart).map (·.2)

def drop (r : Reservations) (hart : Nat) : Reservations :=
  ⟨r.entries.filter fun e => e.1 != hart⟩

/-- Reserves the block of an address for a hart, in place of any other. -/
def reserve (r : Reservations) (hart : Nat) (address : Word) : Reservations :=
  ⟨(hart, granuleOf address) :: (r.drop hart).entries⟩

def holds (r : Reservations) (hart : Nat) (address : Word) : Bool :=
  r.of? hart == some (granuleOf address)

/-- Drops every reservation that a write disturbs: those on the blocks of its
first and of its last byte. -/
def disturb (r : Reservations) (w : Width) (address : Word) : Reservations :=
  let first := granuleOf address
  let last := granuleOf (address + BitVec.ofNat 32 (w.bytes - 1))
  ⟨r.entries.filter fun e => e.2 != first && e.2 != last⟩

end Reservations
end Rv32
