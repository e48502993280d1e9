/-
# `Rv32.Program.Elf.Segment` — the segments of executable files

A segment is a part of a file that has a meaning while the program runs.  Most are
put into memory.  The table of segments also tells where in the file the contents
of an address are.
-/
import Rv32.Program.Elf.Source

namespace Rv32.Elf

structure Segment where
  kind : Nat
  flags : Nat
  /-- Where its contents begin in the file. -/
  offset : Nat
  /-- The address that the program knows it by. -/
  virtualAddress : Nat
  address : Nat
  fileSize : Nat
  memorySize : Nat
deriving DecidableEq, Repr

namespace Segment

def loadable (s : Segment) : Bool := s.kind == 1

/-- Whether a segment holds the dynamic table. -/
def isDynamic (s : Segment) : Bool := s.kind == 2

def writable (s : Segment) : Bool := s.flags.testBit 1

/-- The physical address; of a longer one, the machine has only the low 32 bits. -/
def start (s : Segment) : Word := BitVec.ofNat 32 s.address

def covers (s : Segment) (address : Nat) : Bool :=
  decide (s.virtualAddress ≤ address ∧ address - s.virtualAddress < s.memorySize)

/-- Where in the file the contents of an address are: as far behind the beginning of its
segment as in memory, if an offset can be that large. -/
def offsetOf? (segments : List Segment) (address : Nat) : Option Nat :=
  ((segments.find? fun s => s.loadable && s.covers address).map
    fun s => s.offset + (address - s.virtualAddress)).filter (· < 0x10000000000000000)

end Segment

namespace Source

/-- The segment described at a place of the file. -/
def segment (s : Source) (place : Nat) : Except Error Segment := do
  return {
    kind := ← s.word place
    flags := ← s.word (place + s.either 24 4)
    offset := ← s.address (place + s.either 4 8)
    virtualAddress := ← s.address (place + s.either 8 16)
    address := ← s.address (place + s.either 12 24)
    fileSize := ← s.address (place + s.either 16 32)
    memorySize := ← s.address (place + s.either 20 40) }

def segments (s : Source) : Except Error (List Segment) := do
  let offset ← s.address (s.either 28 32)
  let count ← s.half (s.either 44 56)
  if count = 0 then return []
  s.table s.segment offset count (s.either 32 56)

end Source
end Rv32.Elf
