/-
# `Rv32.Csr.Status` — the status register

`mstatus` holds, for each mode, whether interrupts are enabled and whether they
were before the last trap into that mode, together with the mode that trap came
from; a few bits that change how memory is accessed; and whether the
floating-point registers were written.

Two fields are not plain bits.  MPP names a mode, and a write of the reserved
encoding leaves it alone.  SD says that FS is 3 and is recomputed on every write.
The supervisor and user views of the register are restrictions of the same word.
-/
import Rv32.Privilege

namespace Rv32

structure Status where
  bits : Word
deriving DecidableEq, Repr

namespace Status

/-! ## Positions -/

/-- Bit number of the interrupt enable bit of a mode. -/
def iePosition (level : Privilege) : Nat := level.rank

/-- Bit number of the previous interrupt enable bit of a mode. -/
def piePosition (level : Privilege) : Nat := 4 + level.rank

def sppPosition : Nat := 8
def mppPosition : Nat := 11
def fsPosition : Nat := 13
def xsPosition : Nat := 15
def mprvPosition : Nat := 17
def sumPosition : Nat := 18
def mxrPosition : Nat := 19
def tvmPosition : Nat := 20
def twPosition : Nat := 21
def tsrPosition : Nat := 22
def sdPosition : Nat := 31

/-- The bits the supervisor sees. -/
def supervisorMask : Word := 0x800DE133

/-- The bits the user sees. -/
def userMask : Word := 0x00000011

/-- The bits a write copies as they are: the interrupt enable bits, present and
previous, FS, and the bits from MPRV to TSR. -/
def plainMask : Word := 0x007E60BB

/-! ## Reading -/

def bit (s : Status) (i : Nat) : Bool := s.bits.getLsbD i

/-- Whether interrupts are enabled in a mode. -/
def ie (s : Status) (level : Privilege) : Bool := s.bit (iePosition level)

/-- Whether interrupts were enabled in a mode before the last trap into it. -/
def pie (s : Status) (level : Privilege) : Bool := s.bit (piePosition level)

/-- The mode the last trap into machine mode came from. -/
def mpp (s : Status) : Privilege :=
  match (PrivilegeField.ofBits (s.bits.extractLsb' mppPosition 2)).privilege? with
  | .ok p => p
  | .error _ => .user

/-- The mode the last trap into supervisor mode came from. -/
def spp (s : Status) : Privilege := if s.bit sppPosition then .supervisor else .user

/-- The mode the last trap into a mode came from.  Only user mode traps into user
mode, so there is no field for that. -/
def pp (s : Status) : Privilege → Privilege
  | .machine => s.mpp
  | .supervisor => s.spp
  | .user => .user

/-- Whether loads and stores of machine mode use the mode in MPP. -/
def mprv (s : Status) : Bool := s.bit mprvPosition

/-- Whether the supervisor may touch user pages. -/
def sum (s : Status) : Bool := s.bit sumPosition

/-- Whether executable pages are readable. -/
def mxr (s : Status) : Bool := s.bit mxrPosition

/-- Whether the supervisor is kept from address translation. -/
def tvm (s : Status) : Bool := s.bit tvmPosition

/-- Whether the supervisor is kept from returning from traps. -/
def tsr (s : Status) : Bool := s.bit tsrPosition

/-- The state of the floating-point registers. -/
def fs (s : Status) : BitVec 2 := s.bits.extractLsb' fsPosition 2

/-! ## Writing fields -/

/-- The register with the bits of a mask taken from `value`. -/
def replace (s : Status) (mask value : Word) : Status :=
  ⟨(s.bits &&& ~~~mask) ||| (value &&& mask)⟩

/-- The register with one bit set or cleared. -/
def setBit (s : Status) (i : Nat) (value : Bool) : Status :=
  s.replace (1#32 <<< i) (if value then 1#32 <<< i else 0)

/-- Sets the interrupt enable bit of a mode. -/
def setIe (s : Status) (level : Privilege) (value : Bool) : Status :=
  s.setBit (iePosition level) value

/-- Sets the previous interrupt enable bit of a mode. -/
def setPie (s : Status) (level : Privilege) (value : Bool) : Status :=
  s.setBit (piePosition level) value

/-- Sets MPP; the reserved encoding is ignored. -/
def setMpp (s : Status) (value : PrivilegeField) : Status :=
  match value.privilege? with
  | .ok p => s.replace (0b11#32 <<< mppPosition) (p.bits.setWidth 32 <<< mppPosition)
  | .error _ => s

/-- Sets SPP, which has room for user and supervisor mode; all else is ignored. -/
def setSpp (s : Status) (value : PrivilegeField) : Status :=
  match value with
  | .user => s.setBit sppPosition false
  | .supervisor => s.setBit sppPosition true
  | .reserved | .machine => s

/-- Sets the mode the last trap into a mode came from. -/
def setPp (s : Status) (level value : Privilege) : Status :=
  match level with
  | .machine => s.setMpp (.ofPrivilege value)
  | .supervisor => s.setSpp (.ofPrivilege value)
  | .user => s

def setMprv (s : Status) (value : Bool) : Status := s.setBit mprvPosition value

/-! ## Writing the register -/

/-- Sets SD as FS demands. -/
def settle (s : Status) : Status := s.setBit sdPosition (s.fs == 0b11#2)

/-- The register after a write of `value` to the bits of `mask`. -/
def written (s : Status) (value mask : Word) : Status :=
  let merged := (s.replace mask value).bits
  let plain := s.replace (plainMask &&& mask) merged
  let withSpp :=
    if mask.getLsbD sppPosition then
      plain.setSpp (if merged.getLsbD sppPosition then .supervisor else .user)
    else plain
  let withMpp :=
    if mask.extractLsb' mppPosition 2 ≠ 0 then
      withSpp.setMpp (.ofBits (merged.extractLsb' mppPosition 2))
    else withSpp
  withMpp.settle

end Status
end Rv32
