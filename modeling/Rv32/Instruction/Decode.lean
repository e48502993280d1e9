/-
# `Rv32.Instruction.Decode` — from bits to instructions

A 32-bit instruction is read in two steps.  The major opcode selects a group; a
group fails only as a whole, with `unsupportedOpcode`.  Within a group the minor
fields select the operation, and a combination that selects none is an illegal
instruction.

Each table of codes is a function from bits to an operation.  Fields that the
architecture reserves without giving them a meaning are treated as follows: the
operands of the two fences and the ordering bits of atomics are ignored, all
others must have the value the table gives.
-/
import Rv32.Instruction.Fields

namespace Rv32

/-! ## Tables of codes -/

/-- The groups of instructions, by major opcode. -/
inductive Opcode where
  | load | loadFloat | miscMem | opImm | auipc | store | storeFloat | amo | op | lui
  | fused (op : FusedOp) | opFloat | branch | jalr | jal | system
deriving DecidableEq, Repr

def Opcode.ofBits? (b : BitVec 7) : Option Opcode :=
  match b with
  | 0b0000011#7 => some .load
  | 0b0000111#7 => some .loadFloat
  | 0b0001111#7 => some .miscMem
  | 0b0010011#7 => some .opImm
  | 0b0010111#7 => some .auipc
  | 0b0100011#7 => some .store
  | 0b0100111#7 => some .storeFloat
  | 0b0101111#7 => some .amo
  | 0b0110011#7 => some .op
  | 0b0110111#7 => some .lui
  | 0b1000011#7 => some (.fused .madd)
  | 0b1000111#7 => some (.fused .msub)
  | 0b1001011#7 => some (.fused .nmsub)
  | 0b1001111#7 => some (.fused .nmadd)
  | 0b1010011#7 => some .opFloat
  | 0b1100011#7 => some .branch
  | 0b1100111#7 => some .jalr
  | 0b1101111#7 => some .jal
  | 0b1110011#7 => some .system
  | _ => none

def ImmOp.ofBits? (funct3 : BitVec 3) : Option ImmOp :=
  match funct3 with
  | 0b000#3 => some .add
  | 0b010#3 => some .slt
  | 0b011#3 => some .sltu
  | 0b100#3 => some .xor
  | 0b110#3 => some .or
  | 0b111#3 => some .and
  | _ => none

/-- The immediate shifts.  A sixth bit of the amount would be part of `funct7`,
so it has to be zero. -/
def ShiftOp.ofBits? (funct7 : BitVec 7) (funct3 : BitVec 3) : Option ShiftOp :=
  match funct7, funct3 with
  | 0b0000000#7, 0b001#3 => some .left
  | 0b0000000#7, 0b101#3 => some .right
  | 0b0100000#7, 0b101#3 => some .rightArith
  | _, _ => none

/-- The register-register operations. -/
def RegOp.ofBits? (funct7 : BitVec 7) (funct3 : BitVec 3) : Option RegOp :=
  match funct7, funct3 with
  | 0b0000000#7, 0b000#3 => some .add
  | 0b0000000#7, 0b001#3 => some .sll
  | 0b0000000#7, 0b010#3 => some .slt
  | 0b0000000#7, 0b011#3 => some .sltu
  | 0b0000000#7, 0b100#3 => some .xor
  | 0b0000000#7, 0b101#3 => some .srl
  | 0b0000000#7, 0b110#3 => some .or
  | 0b0000000#7, 0b111#3 => some .and
  | 0b0100000#7, 0b000#3 => some .sub
  | 0b0100000#7, 0b101#3 => some .sra
  | 0b0000001#7, 0b000#3 => some .mul
  | 0b0000001#7, 0b001#3 => some .mulh
  | 0b0000001#7, 0b010#3 => some .mulhsu
  | 0b0000001#7, 0b011#3 => some .mulhu
  | 0b0000001#7, 0b100#3 => some .div
  | 0b0000001#7, 0b101#3 => some .divu
  | 0b0000001#7, 0b110#3 => some .rem
  | 0b0000001#7, 0b111#3 => some .remu
  | _, _ => none

def Condition.ofBits? (funct3 : BitVec 3) : Option Condition :=
  match funct3 with
  | 0b000#3 => some .eq
  | 0b001#3 => some .ne
  | 0b100#3 => some .lt
  | 0b101#3 => some .ge
  | 0b110#3 => some .ltu
  | 0b111#3 => some .geu
  | _ => none

def LoadOp.ofBits? (funct3 : BitVec 3) : Option LoadOp :=
  match funct3 with
  | 0b000#3 => some .byte
  | 0b001#3 => some .half
  | 0b010#3 => some .word
  | 0b100#3 => some .byteUnsigned
  | 0b101#3 => some .halfUnsigned
  | _ => none

def StoreOp.ofBits? (funct3 : BitVec 3) : Option StoreOp :=
  match funct3 with
  | 0b000#3 => some .byte
  | 0b001#3 => some .half
  | 0b010#3 => some .word
  | _ => none

/-- The widths of floating-point loads and stores. -/
def FloatWidth.ofBits? (funct3 : BitVec 3) : Option FloatWidth :=
  match funct3 with
  | 0b010#3 => some .single
  | 0b011#3 => some .double
  | _ => none

/-- The rounding modes; two encodings are reserved. -/
def Rounding.ofBits? (funct3 : BitVec 3) : Option Rounding :=
  match funct3 with
  | 0b000#3 => some .nearestEven
  | 0b001#3 => some .towardZero
  | 0b010#3 => some .down
  | 0b011#3 => some .up
  | 0b100#3 => some .nearestAway
  | 0b111#3 => some .dynamic
  | _ => none

/-- The operations that pick their result. -/
def FloatPick.ofBits? (funct7 : BitVec 7) (funct3 : BitVec 3) : Option FloatPick :=
  match funct7, funct3 with
  | 0b0010000#7, 0b000#3 => some .sign
  | 0b0010000#7, 0b001#3 => some .signNot
  | 0b0010000#7, 0b010#3 => some .signXor
  | 0b0010100#7, 0b000#3 => some .min
  | 0b0010100#7, 0b001#3 => some .max
  | _, _ => none

def FloatCompare.ofBits? (funct3 : BitVec 3) : Option FloatCompare :=
  match funct3 with
  | 0b000#3 => some .le
  | 0b001#3 => some .lt
  | 0b010#3 => some .eq
  | _ => none

/-- The integer formats of conversions. -/
def Signedness.ofBits? (rs2 : BitVec 5) : Option Signedness :=
  match rs2 with
  | 0b00000#5 => some .signed
  | 0b00001#5 => some .unsigned
  | _ => none

def AmoOp.ofBits? (funct5 : BitVec 5) : Option AmoOp :=
  match funct5 with
  | 0b00000#5 => some .add
  | 0b00001#5 => some .swap
  | 0b00100#5 => some .xor
  | 0b01000#5 => some .or
  | 0b01100#5 => some .and
  | 0b10000#5 => some .min
  | 0b10100#5 => some .max
  | 0b11000#5 => some .minu
  | 0b11100#5 => some .maxu
  | _ => none

/-- The control register operation and operand; `rs1` is a register or the
operand itself. -/
def CsrOp.ofBits? (funct3 : BitVec 3) (rs1 : BitVec 5) : Option (CsrOp × CsrOperand) :=
  match funct3 with
  | 0b001#3 => some (.write, .register rs1)
  | 0b010#3 => some (.set, .register rs1)
  | 0b011#3 => some (.clear, .register rs1)
  | 0b101#3 => some (.write, .immediate rs1)
  | 0b110#3 => some (.set, .immediate rs1)
  | 0b111#3 => some (.clear, .immediate rs1)
  | _ => none

namespace Instruction
open Rv32.Field

/-! ## Groups -/

/-- Immediate operations and immediate shifts. -/
def decodeOpImm? (w : Word) : Option Instruction :=
  match ImmOp.ofBits? (funct3 w) with
  | some op => some (.opImm op (rd w) (rs1 w) (immI w))
  | none =>
    (ShiftOp.ofBits? (funct7 w) (funct3 w)).map
      fun op => .shiftImm op (rd w) (rs1 w) (shiftAmount w)

/-- Register-register operations, one comparison of which is the breakpoint
idiom. -/
def decodeOp? (w : Word) : Option Instruction :=
  (RegOp.ofBits? (funct7 w) (funct3 w)).map fun op =>
    if op = .slt ∧ rd w = Reg.zero ∧ rs1 w = Reg.link then .breakHint
    else .opReg op (rd w) (rs1 w) (rs2 w)

/-- The fences, whose operands are ignored. -/
def decodeMiscMem? (w : Word) : Option Instruction :=
  match funct3 w with
  | 0b000#3 => some .fence
  | 0b001#3 => some .fenceI
  | _ => none

/-- The privileged instructions.  The translation fence has two operands, all
others are one word each. -/
def decodePrivileged? (w : Word) : Option Instruction :=
  if rd w ≠ Reg.zero then none
  else if funct7 w = 0b0001001#7 then some (.fenceTranslations (rs1 w) (rs2 w))
  else if rs1 w ≠ Reg.zero then none
  else
    match Field.csr w with
    | 0x000#12 => some .ecall
    | 0x001#12 => some .ebreak
    | 0x002#12 => some (.trapReturn .user)
    | 0x102#12 => some (.trapReturn .supervisor)
    | 0x302#12 => some (.trapReturn .machine)
    | 0x105#12 => some .waitForInterrupt
    | _ => none

/-- Privileged and control register instructions. -/
def decodeSystem? (w : Word) : Option Instruction :=
  if funct3 w = 0b000#3 then decodePrivileged? w
  else (CsrOp.ofBits? (funct3 w) (rs1 w)).map fun (op, operand) => .csr op (rd w) operand (Field.csr w)

/-- Operations on singles.  Every double-precision operation is illegal. -/
def decodeOpFloat? (w : Word) : Option Instruction :=
  let rounded (make : Rounding → Instruction) := (Rounding.ofBits? (funct3 w)).map make
  match funct7 w with
  | 0b0000000#7 => rounded (.floatArith .add (rd w) (rs1 w) (rs2 w))
  | 0b0000100#7 => rounded (.floatArith .sub (rd w) (rs1 w) (rs2 w))
  | 0b0001000#7 => rounded (.floatArith .mul (rd w) (rs1 w) (rs2 w))
  | 0b0001100#7 => rounded (.floatArith .div (rd w) (rs1 w) (rs2 w))
  | 0b0101100#7 => if rs2 w = 0 then rounded (.floatSqrt (rd w) (rs1 w)) else none
  | 0b1010000#7 =>
    (FloatCompare.ofBits? (funct3 w)).map fun op => .floatCompare op (rd w) (rs1 w) (rs2 w)
  | 0b1100000#7 =>
    (Signedness.ofBits? (rs2 w)).bind fun sign => rounded (.floatToInt sign (rd w) (rs1 w))
  | 0b1101000#7 =>
    (Signedness.ofBits? (rs2 w)).bind fun sign => rounded (.floatOfInt sign (rd w) (rs1 w))
  | 0b1110000#7 =>
    if rs2 w ≠ 0 then none
    else if funct3 w = 0b000#3 then some (.floatMoveOut (rd w) (rs1 w))
    else if funct3 w = 0b001#3 then some (.floatClass (rd w) (rs1 w))
    else none
  | 0b1111000#7 =>
    if rs2 w = 0 ∧ funct3 w = 0b000#3 then some (.floatMoveIn (rd w) (rs1 w)) else none
  | code =>
    (FloatPick.ofBits? code (funct3 w)).map fun op => .floatPick op (rd w) (rs1 w) (rs2 w)

/-- Atomic operations on a word.  The ordering bits are ignored. -/
def decodeAmo? (w : Word) : Option Instruction :=
  if funct3 w ≠ 0b010#3 then none
  else if funct5 w = 0b00010#5 then
    if rs2 w = Reg.zero then some (.loadReserved (rd w) (rs1 w)) else none
  else if funct5 w = 0b00011#5 then some (.storeConditional (rd w) (rs1 w) (rs2 w))
  else (AmoOp.ofBits? (funct5 w)).map fun op => .amo op (rd w) (rs1 w) (rs2 w)

def decodeGroup? (group : Opcode) (w : Word) : Option Instruction :=
  match group with
  | .opImm => decodeOpImm? w
  | .auipc => some (.auipc (rd w) (immU w))
  | .lui => some (.lui (rd w) (immU w))
  | .op => decodeOp? w
  | .jal => some (.jal (rd w) (immJ w))
  | .jalr => if funct3 w = 0b000#3 then some (.jalr (rd w) (rs1 w) (immI w)) else none
  | .branch =>
    (Condition.ofBits? (funct3 w)).map fun c => .branch c (rs1 w) (rs2 w) (immB w)
  | .load => (LoadOp.ofBits? (funct3 w)).map fun op => .load op (rd w) (rs1 w) (immI w)
  | .store => (StoreOp.ofBits? (funct3 w)).map fun op => .store op (rs2 w) (rs1 w) (immS w)
  | .miscMem => decodeMiscMem? w
  | .system => decodeSystem? w
  | .loadFloat =>
    (FloatWidth.ofBits? (funct3 w)).map fun width => .loadFloat width (rd w) (rs1 w) (immI w)
  | .storeFloat =>
    (FloatWidth.ofBits? (funct3 w)).map fun width => .storeFloat width (rs2 w) (rs1 w) (immS w)
  | .opFloat => decodeOpFloat? w
  | .fused op =>
    if format w ≠ 0b00#2 then none
    else (Rounding.ofBits? (funct3 w)).map (.fused op (rd w) (rs1 w) (rs2 w) (rs3 w))
  | .amo => decodeAmo? w

/-- The instruction a 32-bit word encodes. -/
def decode (w : Word) : Except DecodeError Instruction :=
  match Opcode.ofBits? (opcode w) with
  | none => .error .unsupportedOpcode
  | some group => (decodeGroup? group w).elim (.error .illegalInstruction) .ok

end Instruction
end Rv32
