/-
# `Rv32.Register.File` — the registers of a hart

The program counter, thirty-two integer registers of which the first always
reads zero, and thirty-two floating-point registers.

A floating-point register is 64 bits wide.  A single lives in its lower half
with the upper half all ones; a register without that mark does not hold a
single, and reading one from it gives the canonical NaN.
-/
import Rv32.Register.Basic
import Rv32.Single.Basic

namespace Rv32

structure RegisterFile where
  /-- The address of the next instruction. -/
  pc : Word
  /-- The integer registers; the one numbered 0 is never written. -/
  ints : Vector Word 32
  floats : Vector Dword 32
deriving DecidableEq

namespace RegisterFile

/-- All registers zero except the program counter. -/
def init (pc : Word) : RegisterFile := ⟨pc, Vector.replicate 32 0, Vector.replicate 32 0⟩

def x (f : RegisterFile) (r : Reg) : Word := f.ints.get r.toFin

/-- Writes an integer register; a write to register 0 is dropped. -/
def setX (f : RegisterFile) (r : Reg) (value : Word) : RegisterFile :=
  if r = Reg.zero then f else { f with ints := f.ints.set r.toFin value r.isLt }

/-- The 64 bits of a floating-point register. -/
def f (file : RegisterFile) (r : Reg) : Dword := file.floats.get r.toFin

/-- Writes the 64 bits of a floating-point register. -/
def setF (file : RegisterFile) (r : Reg) (value : Dword) : RegisterFile :=
  { file with floats := file.floats.set r.toFin value r.isLt }

/-- A single with its mark. -/
def box (bits : Word) : Dword := Dword.ofHalves 0xFFFFFFFF#32 bits

/-- The single a register holds, or the canonical NaN. -/
def unbox (value : Dword) : Word :=
  if Dword.high value = 0xFFFFFFFF#32 then Dword.low value else Single.canonicalNaN

/-- The single in a floating-point register. -/
def single (file : RegisterFile) (r : Reg) : Word := unbox (file.f r)

def setSingle (file : RegisterFile) (r : Reg) (bits : Word) : RegisterFile :=
  file.setF r (box bits)

/-- Moves the program counter forward. -/
def advance (file : RegisterFile) (distance : Word) : RegisterFile :=
  { file with pc := file.pc + distance }

/-- A register file with the given contents, except that register 0 is zero. -/
def ofContents (pc : Word) (ints : Vector Word 32) (floats : Vector Dword 32) : RegisterFile :=
  ⟨pc, ints.set 0 0, floats⟩

end RegisterFile
end Rv32
