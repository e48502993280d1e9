/-
# `Rv32.Device.TimeBase` — a clock that can be set

The clock of a machine counts microseconds from when it was made, which nobody can
change, and adds an offset, which is how it is set.  Both are signed, and their sum
goes round; the count itself stops at the greatest signed number.

A clock that is set shows what it is set to, and goes on from there.
-/
import Rv32.Word

namespace Rv32

structure TimeBase where
  /-- The microseconds since the clock was made. -/
  elapsed : Nat
  /-- What is added to them, signed. -/
  offset : Dword
deriving DecidableEq, Repr

namespace TimeBase

/-- A clock that has just been made. -/
def start : TimeBase := ⟨0, 0⟩

/-- The microseconds that have passed, as a signed number. -/
def count (t : TimeBase) : Dword :=
  if t.elapsed < 0x8000000000000000 then BitVec.ofNat 64 t.elapsed else 0x7FFFFFFFFFFFFFFF

/-- What the clock shows. -/
def now (t : TimeBase) : Dword := t.count + t.offset

/-- The clock, set to a time. -/
def set (t : TimeBase) (value : Dword) : TimeBase := { t with offset := value - t.count }

/-- The clock some time later. -/
def later (t : TimeBase) (microseconds : Nat) : TimeBase :=
  { t with elapsed := t.elapsed + microseconds }

end TimeBase
end Rv32
