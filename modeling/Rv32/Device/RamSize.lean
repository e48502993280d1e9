/-
# `Rv32.Device.RamSize` — a register that tells the size of main memory

It sits in the last 64 KiB block that begins below the memory it tells about, so
that a guest which knows where its memory starts can find it.  Only its first
address reads the size.
-/
import Rv32.Device.Ram

namespace Rv32

/-- A register that tells the size of main memory. -/
structure RamSize where
  start : Word
  /-- The number of the word in which the memory tells its size. -/
  handle : Nat
deriving DecidableEq, Repr

namespace RamSize

/-- The register below a memory. -/
def below (r : Ram) : RamSize := ⟨(r.start - 1) &&& 0xFFFF0000, r.handle⟩

def read (s : RamSize) (w : Width) (address : Word) (lengths : Lengths) : BitVec w.bits :=
  if address = s.start then (lengths.get s.handle).setWidth w.bits else 0

end RamSize
end Rv32
