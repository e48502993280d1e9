/-
# `Rv32.Instruction.Compressed.Fields` — the fields of a 16-bit instruction

The lowest two bits name a quadrant.  Registers have five bits or, in the short
fields, three.

Immediates are scattered over the halfword.  Each layout is put together from
its pieces, highest first, with the low zero bits of scaled offsets written out.
-/
import Rv32.Instruction.Basic

namespace Rv32.Compressed

/-! ## Fields -/

def opcode (h : Half) : BitVec 2 := h.extractLsb' 0 2

/-- The operation code of most layouts. -/
def funct3 (h : Half) : BitVec 3 := h.extractLsb' 13 3

/-- The operation code of the CR layout. -/
def funct4 (h : Half) : BitVec 4 := h.extractLsb' 12 4

/-- The operation code of the CA layout. -/
def funct6 (h : Half) : BitVec 6 := h.extractLsb' 10 6

/-- The second operation code of the CA layout. -/
def funct2 (h : Half) : BitVec 2 := h.extractLsb' 5 2

/-- The destination, and first source, of the CR and CI layouts. -/
def rs1 (h : Half) : Reg := h.extractLsb' 7 5

/-- The second source of the CR and CSS layouts. -/
def rs2 (h : Half) : Reg := h.extractLsb' 2 5

/-- The upper short register field. -/
def rs1Short (h : Half) : Reg := Reg.ofShort (h.extractLsb' 7 3)

/-- The lower short register field. -/
def rs2Short (h : Half) : Reg := Reg.ofShort (h.extractLsb' 2 3)

def bit (h : Half) (i : Nat) : BitVec 1 := h.extractLsb' i 1

/-! ## Immediates -/

def imm6 (h : Half) : BitVec 6 := bit h 12 ++ h.extractLsb' 2 5

/-- The six bits as a signed immediate. -/
def immediate (h : Half) : BitVec 12 := (imm6 h).signExtend 12

/-- The six bits as a signed upper immediate. -/
def upperImmediate (h : Half) : BitVec 20 := (imm6 h).signExtend 20

/-- The amount of a shift: the low five of the six bits. -/
def shiftAmount (h : Half) : BitVec 5 := h.extractLsb' 2 5

/-- The frame size added to the stack pointer, a signed multiple of 16. -/
def frame (h : Half) : BitVec 12 :=
  (bit h 12 ++ h.extractLsb' 3 2 ++ bit h 5 ++ bit h 2 ++ bit h 6 ++ 0#4).signExtend 12

/-- The distance of a variable from the stack pointer, a multiple of 4. -/
def frameOffset (h : Half) : BitVec 12 :=
  (h.extractLsb' 7 4 ++ h.extractLsb' 11 2 ++ bit h 5 ++ bit h 6 ++ 0#2).setWidth 12

def wordOffset (h : Half) : BitVec 12 :=
  (bit h 5 ++ h.extractLsb' 10 3 ++ bit h 6 ++ 0#2).setWidth 12

/-- The offset of a double word from a register. -/
def doubleOffset (h : Half) : BitVec 12 :=
  (h.extractLsb' 5 2 ++ h.extractLsb' 10 3 ++ 0#3).setWidth 12

def wordStackLoad (h : Half) : BitVec 12 :=
  (h.extractLsb' 2 2 ++ bit h 12 ++ h.extractLsb' 4 3 ++ 0#2).setWidth 12

/-- The offset at which a double word is loaded from the stack. -/
def doubleStackLoad (h : Half) : BitVec 12 :=
  (h.extractLsb' 2 3 ++ bit h 12 ++ h.extractLsb' 5 2 ++ 0#3).setWidth 12

def wordStackStore (h : Half) : BitVec 12 :=
  (h.extractLsb' 7 2 ++ h.extractLsb' 9 4 ++ 0#2).setWidth 12

/-- The offset at which a double word is stored to the stack. -/
def doubleStackStore (h : Half) : BitVec 12 :=
  (h.extractLsb' 7 3 ++ h.extractLsb' 10 3 ++ 0#3).setWidth 12

/-- The distance of a jump, in halfwords. -/
def jumpOffset (h : Half) : BitVec 20 :=
  (bit h 12 ++ bit h 8 ++ h.extractLsb' 9 2 ++ bit h 6 ++ bit h 7 ++ bit h 2 ++ bit h 11 ++
    h.extractLsb' 3 3).signExtend 20

/-- The distance of a branch, in halfwords. -/
def branchOffset (h : Half) : BitVec 12 :=
  (bit h 12 ++ h.extractLsb' 5 2 ++ bit h 2 ++ h.extractLsb' 10 2 ++ h.extractLsb' 3 2).signExtend 12

end Rv32.Compressed
