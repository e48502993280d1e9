/-
# `Rv32.Instruction.Basic` — what a hart can be told to do

The instructions of RV32IMAF with control registers, privileged instructions and
the two moves of double-precision data, as one inductive type.  Operands are as
wide as the fields that hold them, so every value of the type has an encoding:
a jump counts in halfwords (its target is even), an upper immediate is the
twenty bits it fills.

Compressed instructions have no constructors of their own; each stands for one
of these.
-/
import Rv32.Privilege
import Rv32.Register.Basic

namespace Rv32

/-- The number of a control and status register. -/
abbrev Csr := BitVec 12

/-! ## Operations -/

/-- Operations on a register and an immediate. -/
inductive ImmOp where
  | add | slt | sltu | xor | or | and
deriving DecidableEq, Repr

inductive ShiftOp where
  | left | right | rightArith
deriving DecidableEq, Repr

/-- Operations on two registers. -/
inductive RegOp where
  | add | sub | sll | slt | sltu | xor | srl | sra | or | and
  | mul | mulh | mulhsu | mulhu | div | divu | rem | remu
deriving DecidableEq, Repr

/-- The conditions a branch can test. -/
inductive Condition where
  | eq | ne | lt | ge | ltu | geu
deriving DecidableEq, Repr

/-- Loads: how many bytes, and how the result fills a register. -/
inductive LoadOp where
  | byte | half | word | byteUnsigned | halfUnsigned
deriving DecidableEq, Repr

inductive StoreOp where
  | byte | half | word
deriving DecidableEq, Repr

/-- What a control register instruction does to the register. -/
inductive CsrOp where
  | write | set | clear
deriving DecidableEq, Repr

/-- The operand of a control register instruction: a register, or five bits
extended with zeros. -/
inductive CsrOperand where
  | register (rs1 : Reg)
  | immediate (value : BitVec 5)
deriving DecidableEq, Repr

/-- The width of a floating-point load or store. -/
inductive FloatWidth where
  /-- A single, boxed in its register. -/
  | single
  /-- A double, moved as it is. -/
  | double
deriving DecidableEq, Repr

inductive FloatArith where
  | add | sub | mul | div
deriving DecidableEq, Repr

/-- Operations that pick their result from the bits of two singles. -/
inductive FloatPick where
  | sign | signNot | signXor | min | max
deriving DecidableEq, Repr

inductive FloatCompare where
  | le | lt | eq
deriving DecidableEq, Repr

/-- Fused multiply-add: the signs of the product and of the addend. -/
inductive FusedOp where
  | madd | msub | nmsub | nmadd
deriving DecidableEq, Repr

/-- Whether an integer operand is read as signed. -/
inductive Signedness where
  | signed | unsigned
deriving DecidableEq, Repr

/-- The rounding mode an instruction names. -/
inductive Rounding where
  /-- To nearest, a tie to the even neighbour. -/
  | nearestEven
  | towardZero
  /-- Towards negative infinity. -/
  | down
  /-- Towards positive infinity. -/
  | up
  /-- To nearest, a tie away from zero. -/
  | nearestAway
  /-- The mode of the control register, which is always to nearest even. -/
  | dynamic
deriving DecidableEq, Repr

/-- Atomic read-modify-write operations on a word. -/
inductive AmoOp where
  | swap | add | xor | and | or | min | max | minu | maxu
deriving DecidableEq, Repr

/-! ## Instructions -/

inductive Instruction where
  | opImm (op : ImmOp) (rd rs1 : Reg) (imm : BitVec 12)
  | shiftImm (op : ShiftOp) (rd rs1 : Reg) (amount : BitVec 5)
  | auipc (rd : Reg) (imm : BitVec 20)
  | lui (rd : Reg) (imm : BitVec 20)
  | opReg (op : RegOp) (rd rs1 rs2 : Reg)
  | jal (rd : Reg) (offset : BitVec 20)
  | jalr (rd rs1 : Reg) (offset : BitVec 12)
  | branch (condition : Condition) (rs1 rs2 : Reg) (offset : BitVec 12)
  | load (op : LoadOp) (rd rs1 : Reg) (offset : BitVec 12)
  | store (op : StoreOp) (rs2 rs1 : Reg) (offset : BitVec 12)
  | fence
  | fenceI
  | ecall
  | ebreak
  /-- The idiom `slt x0, x1, rs2`, which computes nothing and marks a breakpoint. -/
  | breakHint
  /-- Return from a trap handled at `level`. -/
  | trapReturn (level : Privilege)
  | waitForInterrupt
  | fenceTranslations (address space : Reg)
  | csr (op : CsrOp) (rd : Reg) (operand : CsrOperand) (csr : Csr)
  | loadFloat (width : FloatWidth) (rd rs1 : Reg) (offset : BitVec 12)
  | storeFloat (width : FloatWidth) (rs2 rs1 : Reg) (offset : BitVec 12)
  | floatArith (op : FloatArith) (rd rs1 rs2 : Reg) (rounding : Rounding)
  | floatSqrt (rd rs1 : Reg) (rounding : Rounding)
  | floatPick (op : FloatPick) (rd rs1 rs2 : Reg)
  | floatCompare (op : FloatCompare) (rd rs1 rs2 : Reg)
  | floatToInt (sign : Signedness) (rd rs1 : Reg) (rounding : Rounding)
  | floatOfInt (sign : Signedness) (rd rs1 : Reg) (rounding : Rounding)
  | floatMoveOut (rd rs1 : Reg)
  | floatMoveIn (rd rs1 : Reg)
  | floatClass (rd rs1 : Reg)
  | fused (op : FusedOp) (rd rs1 rs2 rs3 : Reg) (rounding : Rounding)
  | amo (op : AmoOp) (rd rs1 rs2 : Reg)
  | loadReserved (rd rs1 : Reg)
  | storeConditional (rd rs1 rs2 : Reg)
deriving DecidableEq, Repr

inductive DecodeError where
  /-- The major opcode is not one of those supported. -/
  | unsupportedOpcode
  /-- The opcode is supported, the rest of the bits is not. -/
  | illegalInstruction
deriving DecidableEq, Repr

def DecodeError.message : DecodeError → String
  | .unsupportedOpcode => "instruction has unsupported opcode"
  | .illegalInstruction => "illegal instruction"

namespace Instruction

/-! ## Operand values -/

/-- The word a twelve-bit immediate stands for. -/
def immediate (imm : BitVec 12) : Word := imm.signExtend 32

/-- The word an upper immediate stands for: its bits in place, the rest zero. -/
def upper (imm : BitVec 20) : Word := imm ++ 0#12

/-- The distance a branch goes, in bytes. -/
def branchOffset (offset : BitVec 12) : Word := (offset ++ 0#1).signExtend 32

/-- The distance a jump goes, in bytes. -/
def jumpOffset (offset : BitVec 20) : Word := (offset ++ 0#1).signExtend 32

inductive Length where
  | compressed
  | full
deriving DecidableEq, Repr

def Length.bytes : Length → Word
  | .compressed => 2
  | .full => 4

end Instruction
end Rv32
