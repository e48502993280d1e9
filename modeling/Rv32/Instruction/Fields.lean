/-
# `Rv32.Instruction.Fields` — the fields of an instruction word

Where each operand sits in a 32-bit instruction.  The immediates of the S, B and
J layouts are scattered; each is put together here from its pieces, highest
first.
-/
import Rv32.Instruction.Basic

namespace Rv32.Field

def opcode (w : Word) : BitVec 7 := w.extractLsb' 0 7

def rd (w : Word) : Reg := w.extractLsb' 7 5

def funct3 (w : Word) : BitVec 3 := w.extractLsb' 12 3

/-- The first source register. -/
def rs1 (w : Word) : Reg := w.extractLsb' 15 5

/-- The second source register. -/
def rs2 (w : Word) : Reg := w.extractLsb' 20 5

/-- The third source register, of fused multiply-add. -/
def rs3 (w : Word) : Reg := w.extractLsb' 27 5

/-- The operation code of register-register instructions. -/
def funct7 (w : Word) : BitVec 7 := w.extractLsb' 25 7

/-- The operation code of atomic instructions. -/
def funct5 (w : Word) : BitVec 5 := w.extractLsb' 27 5

/-- The number format of floating-point instructions. -/
def format (w : Word) : BitVec 2 := w.extractLsb' 25 2

def shiftAmount (w : Word) : BitVec 5 := w.extractLsb' 20 5

/-- The control register an instruction names. -/
def csr (w : Word) : Csr := w.extractLsb' 20 12

def immI (w : Word) : BitVec 12 := w.extractLsb' 20 12

/-- The immediate of the S layout. -/
def immS (w : Word) : BitVec 12 := w.extractLsb' 25 7 ++ w.extractLsb' 7 5

/-- The immediate of the B layout, in halfwords. -/
def immB (w : Word) : BitVec 12 :=
  w.extractLsb' 31 1 ++ w.extractLsb' 7 1 ++ w.extractLsb' 25 6 ++ w.extractLsb' 8 4

def immU (w : Word) : BitVec 20 := w.extractLsb' 12 20

/-- The immediate of the J layout, in halfwords. -/
def immJ (w : Word) : BitVec 20 :=
  w.extractLsb' 31 1 ++ w.extractLsb' 12 8 ++ w.extractLsb' 20 1 ++ w.extractLsb' 21 10

end Rv32.Field
