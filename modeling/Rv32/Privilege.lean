/-
# `Rv32.Privilege` — the privilege modes

A hart runs in user, supervisor or machine mode, in increasing order of power.
Control registers name a mode by two bits.  The encoding `0b10` names no mode;
`PrivilegeField` keeps it as a value of its own, between supervisor and machine,
so that a field can be compared with a mode before it is known to be one.
-/
import Rv32.Text.Hex

namespace Rv32

/-- The mode a hart runs in. -/
inductive Privilege where
  | user
  | supervisor
  | machine
deriving DecidableEq, Repr

namespace Privilege

/-- The two-bit encoding of a mode. -/
def bits : Privilege → BitVec 2
  | .user => 0b00
  | .supervisor => 0b01
  | .machine => 0b11

/-- The encoding as a number, by which modes are ordered. -/
def rank (p : Privilege) : Nat := p.bits.toNat

instance : LT Privilege := ⟨fun p q => p.rank < q.rank⟩
instance : LE Privilege := ⟨fun p q => p.rank ≤ q.rank⟩
instance (p q : Privilege) : Decidable (p < q) := inferInstanceAs (Decidable (p.rank < q.rank))
instance (p q : Privilege) : Decidable (p ≤ q) := inferInstanceAs (Decidable (p.rank ≤ q.rank))
instance : Max Privilege := maxOfLe

def letter : Privilege → String
  | .user => "U"
  | .supervisor => "S"
  | .machine => "M"

end Privilege

/-! ## Mode fields -/

/-- A two-bit mode field, which may hold the reserved encoding. -/
inductive PrivilegeField where
  | user
  | supervisor
  | reserved
  | machine
deriving DecidableEq, Repr

/-- Why a field does not name a mode. -/
inductive PrivilegeError where
  /-- The number does not fit the field. -/
  | tooWide (value : Nat)
  /-- The field holds `0b10`. -/
  | reserved
deriving DecidableEq, Repr

def PrivilegeError.message : PrivilegeError → String
  | .tooWide value => hex 0 value ++ " is not a 2-bit privilege level"
  | .reserved => "privilege level 0b10 is reserved"

namespace PrivilegeField

/-- The field holding the given bits. -/
def ofBits (b : BitVec 2) : PrivilegeField :=
  if b = 0b00#2 then .user
  else if b = 0b01#2 then .supervisor
  else if b = 0b10#2 then .reserved
  else .machine

/-- The field holding a number, which has to fit in two bits. -/
def ofNat? (n : Nat) : Except PrivilegeError PrivilegeField :=
  if n < 4 then .ok (ofBits (BitVec.ofNat 2 n)) else .error (.tooWide n)

def ofPrivilege : Privilege → PrivilegeField
  | .user => .user
  | .supervisor => .supervisor
  | .machine => .machine

/-- The mode a field names; the reserved encoding names none. -/
def privilege? : PrivilegeField → Except PrivilegeError Privilege
  | .user => .ok .user
  | .supervisor => .ok .supervisor
  | .machine => .ok .machine
  | .reserved => .error .reserved

def rank : PrivilegeField → Nat
  | .user => 0
  | .supervisor => 1
  | .reserved => 2
  | .machine => 3

/-- Whether a field demands more than a mode has.  The reserved encoding demands
more than supervisor mode. -/
def exceeds (f : PrivilegeField) (p : Privilege) : Bool := decide (p.rank < f.rank)

end PrivilegeField
end Rv32
