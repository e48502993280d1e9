/-
# `Rv32.Device.Rom` — read-only memory

A firmware image.  A read whose bytes do not all lie inside gives zero; writes are
dropped, and reported byte by byte.
-/
import Rv32.Journal

namespace Rv32

/-- Read-only memory. -/
structure Rom where
  start : Word
  data : ByteArray

namespace Rom

/-- Read-only memory with an image, which has to hold a byte and to end before the
address space does. -/
def ofImage? (start : Word) (data : ByteArray) : Option Rom :=
  if 0 < data.size ∧ start.toNat + (data.size - 1) < 0x100000000 then some ⟨start, data⟩
  else none

def length (r : Rom) : Word := BitVec.ofNat 32 r.data.size

def byte (r : Rom) (offset : Nat) : Byte :=
  if h : offset < r.data.size then (r.data.get offset h).toBitVec else 0

def read (r : Rom) (w : Width) (address : Word) : BitVec w.bits :=
  let offset := (address - r.start).toNat
  if offset + w.bytes ≤ r.data.size then w.combine fun i => r.byte (offset + i) else 0

/-- What a write is reported as: each byte with its address. -/
def writeEvents (w : Width) (address : Word) (value : BitVec w.bits) : List Event :=
  (List.range w.bytes).map fun i => .readOnlyWrite (byteOf value i) (address + BitVec.ofNat 32 i)

end Rom
end Rv32
