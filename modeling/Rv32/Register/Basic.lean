/-
# `Rv32.Register.Basic` — register numbers

Both register files have thirty-two registers, named by five bits.  Compressed
instructions have room for three bits only, which name registers 8 to 15.  A
number that reaches the machine from outside may not fit its field; that is the
one way naming a register can fail.
-/
import Rv32.Word

namespace Rv32

abbrev Reg := BitVec 5

/-- A register field was given a number it cannot hold. -/
inductive RegisterError where
  /-- A full field holds numbers below 32. -/
  | full (value : Nat)
  /-- A short field holds numbers below 8. -/
  | short (value : Nat)
deriving DecidableEq, Repr

def RegisterError.message : RegisterError → String
  | .full value => s!"register field {value} does not fit in 5 bits"
  | .short value => s!"register field {value} does not fit in 3 bits"

namespace Reg

/-- The register that always reads zero. -/
def zero : Reg := 0

/-- The register that holds the return address of a call. -/
def link : Reg := 1

/-- The register that holds the stack pointer. -/
def stack : Reg := 2

def ofNat? (n : Nat) : Except RegisterError Reg :=
  if n < 32 then .ok (BitVec.ofNat 5 n) else .error (.full n)

def ofShort (field : BitVec 3) : Reg := 0b01#2 ++ field

/-- The register a short field with a given number names. -/
def ofShort? (n : Nat) : Except RegisterError Reg :=
  if n < 8 then .ok (ofShort (BitVec.ofNat 3 n)) else .error (.short n)

def name (r : Reg) : String := s!"x{r.toNat}"

end Reg
end Rv32
