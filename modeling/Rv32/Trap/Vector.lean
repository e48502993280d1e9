/-
# `Rv32.Trap.Vector` — where traps go

Each mode has a trap vector register: a base address and, in the two low bits, a
mode.  In direct mode every trap goes to the base; in vectored mode an interrupt
goes as many words past it as its code.  The other two mode encodings are
reserved, and a write of one leaves the register alone.
-/
import Rv32.Trap.Cause

namespace Rv32

/-- The value of a trap vector register. -/
structure TrapVector where
  bits : Word
deriving DecidableEq, Repr

namespace TrapVector

def base (v : TrapVector) : Word := v.bits.extractLsb' 2 30 ++ 0b00#2

/-- Whether interrupts are told apart. -/
def vectored (v : TrapVector) : Bool := v.bits.extractLsb' 0 2 == 0b01#2

def written (v : TrapVector) (value : Word) : TrapVector :=
  if value.getLsbD 1 then v else ⟨value⟩

def target (v : TrapVector) : Cause → Word
  | .interrupt i => if v.vectored then v.base + BitVec.ofNat 32 (4 * i.code) else v.base
  | .exception _ => v.base

end TrapVector
end Rv32
