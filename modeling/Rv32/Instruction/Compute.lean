/-
# `Rv32.Instruction.Compute` — what the integer operations compute

Each operation of an instruction as a function on words.  All of them wrap.
Division never fails: by zero it gives all ones and leaves the dividend as the
remainder, and the one quotient that does not fit is the dividend again.
-/
import Rv32.Instruction.Basic

namespace Rv32

def Word.ofBool (b : Bool) : Word := if b then 1 else 0

/-- The result of an operation on a register and an immediate. -/
def ImmOp.apply (op : ImmOp) (a imm : Word) : Word :=
  match op with
  | .add => a + imm
  | .slt => Word.ofBool (a.slt imm)
  | .sltu => Word.ofBool (a.ult imm)
  | .xor => a ^^^ imm
  | .or => a ||| imm
  | .and => a &&& imm

def ShiftOp.apply (op : ShiftOp) (a : Word) (amount : BitVec 5) : Word :=
  match op with
  | .left => a <<< amount
  | .right => a >>> amount
  | .rightArith => a.sshiftRight' amount

def upperProduct (a b : Dword) : Word := Dword.high (a * b)

/-- The result of an operation on two registers. -/
def RegOp.apply (op : RegOp) (a b : Word) : Word :=
  match op with
  | .add => a + b
  | .sub => a - b
  | .sll => ShiftOp.left.apply a (b.setWidth 5)
  | .slt => Word.ofBool (a.slt b)
  | .sltu => Word.ofBool (a.ult b)
  | .xor => a ^^^ b
  | .srl => ShiftOp.right.apply a (b.setWidth 5)
  | .sra => ShiftOp.rightArith.apply a (b.setWidth 5)
  | .or => a ||| b
  | .and => a &&& b
  | .mul => a * b
  | .mulh => upperProduct (a.signExtend 64) (b.signExtend 64)
  | .mulhsu => upperProduct (a.signExtend 64) (b.setWidth 64)
  | .mulhu => upperProduct (a.setWidth 64) (b.setWidth 64)
  | .div => if b = 0 then BitVec.allOnes 32 else a.sdiv b
  | .divu => if b = 0 then BitVec.allOnes 32 else a / b
  | .rem => if b = 0 then a else a.srem b
  | .remu => if b = 0 then a else a % b

def Condition.holds (c : Condition) (a b : Word) : Bool :=
  match c with
  | .eq => a == b
  | .ne => a != b
  | .lt => a.slt b
  | .ge => !a.slt b
  | .ltu => a.ult b
  | .geu => !a.ult b

/-- The word an atomic operation leaves in memory. -/
def AmoOp.apply (op : AmoOp) (old operand : Word) : Word :=
  match op with
  | .swap => operand
  | .add => old + operand
  | .xor => old ^^^ operand
  | .and => old &&& operand
  | .or => old ||| operand
  | .min => if operand.slt old then operand else old
  | .max => if old.slt operand then operand else old
  | .minu => if operand.ult old then operand else old
  | .maxu => if old.ult operand then operand else old

/-! ## Loads and stores -/

/-- The number of bytes a load reads. -/
def LoadOp.width : LoadOp → Width
  | .byte | .byteUnsigned => .byte
  | .half | .halfUnsigned => .half
  | .word => .word

/-- The register value of what a load read. -/
def LoadOp.extend (op : LoadOp) (value : BitVec op.width.bits) : Word :=
  match op with
  | .byte | .half | .word => value.signExtend 32
  | .byteUnsigned | .halfUnsigned => value.setWidth 32

/-- The number of bytes a store writes. -/
def StoreOp.width : StoreOp → Width
  | .byte => .byte
  | .half => .half
  | .word => .word

end Rv32
