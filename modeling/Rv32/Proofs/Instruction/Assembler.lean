/-
# `Rv32.Proofs.Instruction.Assembler` — from instructions to bits

Every instruction has a word, in one of the layouts: `encode`.  The codes of its operations
are those of the architecture; they are given here for each type of operation, as the values
that the decoder's tables should be looked up with.

Two instructions are not what their words decode to, or not only their words.  The comparison
of register 1 into register 0 computes nothing, and its words mark a breakpoint instead; so
written as a comparison it is not `Encodable`.  And some instructions leave bits of their
words unread (`ignored`): `encode` clears these, and any others do as well.
-/
import Rv32.Instruction.Decode
import Rv32.Proofs.Instruction.Layout

namespace Rv32

/-! ## Codes -/

def Opcode.bits : Opcode → BitVec 7
  | .load => 0b0000011#7
  | .loadFloat => 0b0000111#7
  | .miscMem => 0b0001111#7
  | .opImm => 0b0010011#7
  | .auipc => 0b0010111#7
  | .store => 0b0100011#7
  | .storeFloat => 0b0100111#7
  | .amo => 0b0101111#7
  | .op => 0b0110011#7
  | .lui => 0b0110111#7
  | .fused .madd => 0b1000011#7
  | .fused .msub => 0b1000111#7
  | .fused .nmsub => 0b1001011#7
  | .fused .nmadd => 0b1001111#7
  | .opFloat => 0b1010011#7
  | .branch => 0b1100011#7
  | .jalr => 0b1100111#7
  | .jal => 0b1101111#7
  | .system => 0b1110011#7

def ImmOp.funct3 : ImmOp → BitVec 3
  | .add => 0b000#3
  | .slt => 0b010#3
  | .sltu => 0b011#3
  | .xor => 0b100#3
  | .or => 0b110#3
  | .and => 0b111#3

def ShiftOp.funct7 : ShiftOp → BitVec 7
  | .left | .right => 0b0000000#7
  | .rightArith => 0b0100000#7

def ShiftOp.funct3 : ShiftOp → BitVec 3
  | .left => 0b001#3
  | .right | .rightArith => 0b101#3

def RegOp.funct7 : RegOp → BitVec 7
  | .add | .sll | .slt | .sltu | .xor | .srl | .or | .and => 0b0000000#7
  | .sub | .sra => 0b0100000#7
  | .mul | .mulh | .mulhsu | .mulhu | .div | .divu | .rem | .remu => 0b0000001#7

def RegOp.funct3 : RegOp → BitVec 3
  | .add | .sub | .mul => 0b000#3
  | .sll | .mulh => 0b001#3
  | .slt | .mulhsu => 0b010#3
  | .sltu | .mulhu => 0b011#3
  | .xor | .div => 0b100#3
  | .srl | .sra | .divu => 0b101#3
  | .or | .rem => 0b110#3
  | .and | .remu => 0b111#3

def Condition.funct3 : Condition → BitVec 3
  | .eq => 0b000#3
  | .ne => 0b001#3
  | .lt => 0b100#3
  | .ge => 0b101#3
  | .ltu => 0b110#3
  | .geu => 0b111#3

def LoadOp.funct3 : LoadOp → BitVec 3
  | .byte => 0b000#3
  | .half => 0b001#3
  | .word => 0b010#3
  | .byteUnsigned => 0b100#3
  | .halfUnsigned => 0b101#3

def StoreOp.funct3 : StoreOp → BitVec 3
  | .byte => 0b000#3
  | .half => 0b001#3
  | .word => 0b010#3

def FloatWidth.funct3 : FloatWidth → BitVec 3
  | .single => 0b010#3
  | .double => 0b011#3

def Rounding.bits : Rounding → BitVec 3
  | .nearestEven => 0b000#3
  | .towardZero => 0b001#3
  | .down => 0b010#3
  | .up => 0b011#3
  | .nearestAway => 0b100#3
  | .dynamic => 0b111#3

def FloatArith.funct7 : FloatArith → BitVec 7
  | .add => 0b0000000#7
  | .sub => 0b0000100#7
  | .mul => 0b0001000#7
  | .div => 0b0001100#7

def FloatPick.funct7 : FloatPick → BitVec 7
  | .sign | .signNot | .signXor => 0b0010000#7
  | .min | .max => 0b0010100#7

def FloatPick.funct3 : FloatPick → BitVec 3
  | .sign | .min => 0b000#3
  | .signNot | .max => 0b001#3
  | .signXor => 0b010#3

def FloatCompare.funct3 : FloatCompare → BitVec 3
  | .le => 0b000#3
  | .lt => 0b001#3
  | .eq => 0b010#3

def Signedness.rs2 : Signedness → BitVec 5
  | .signed => 0b00000#5
  | .unsigned => 0b00001#5

def AmoOp.funct5 : AmoOp → BitVec 5
  | .add => 0b00000#5
  | .swap => 0b00001#5
  | .xor => 0b00100#5
  | .or => 0b01000#5
  | .and => 0b01100#5
  | .min => 0b10000#5
  | .max => 0b10100#5
  | .minu => 0b11000#5
  | .maxu => 0b11100#5

/-- The code of a control register operation also tells what its operand is. -/
def CsrOp.funct3 : CsrOp → CsrOperand → BitVec 3
  | .write, .register _ => 0b001#3
  | .set, .register _ => 0b010#3
  | .clear, .register _ => 0b011#3
  | .write, .immediate _ => 0b101#3
  | .set, .immediate _ => 0b110#3
  | .clear, .immediate _ => 0b111#3

/-- The five bits in place of the first source register. -/
def CsrOperand.source : CsrOperand → BitVec 5
  | .register rs1 => rs1
  | .immediate value => value

namespace Instruction

/-- What stands in place of a control register in a return from a trap. -/
def returnCode : Privilege → BitVec 12
  | .user => 0x002#12
  | .supervisor => 0x102#12
  | .machine => 0x302#12

/-! ## Words -/

/-- The word of an instruction. -/
def encode : Instruction → Word
  | .opImm op rd rs1 imm => Layout.i (immediate imm) rs1 op.funct3 rd Opcode.opImm.bits
  | .shiftImm op rd rs1 amount => Layout.r op.funct7 amount rs1 op.funct3 rd Opcode.opImm.bits
  | .auipc rd imm => Layout.u (upper imm) rd Opcode.auipc.bits
  | .lui rd imm => Layout.u (upper imm) rd Opcode.lui.bits
  | .opReg op rd rs1 rs2 => Layout.r op.funct7 rs2 rs1 op.funct3 rd Opcode.op.bits
  | .jal rd offset => Layout.j (jumpOffset offset) rd Opcode.jal.bits
  | .jalr rd rs1 offset => Layout.i (immediate offset) rs1 0b000#3 rd Opcode.jalr.bits
  | .branch condition rs1 rs2 offset =>
    Layout.b (branchOffset offset) rs2 rs1 condition.funct3 Opcode.branch.bits
  | .load op rd rs1 offset => Layout.i (immediate offset) rs1 op.funct3 rd Opcode.load.bits
  | .store op rs2 rs1 offset => Layout.s (immediate offset) rs2 rs1 op.funct3 Opcode.store.bits
  | .fence => Layout.r 0 0 0 0b000#3 0 Opcode.miscMem.bits
  | .fenceI => Layout.r 0 0 0 0b001#3 0 Opcode.miscMem.bits
  | .ecall => Layout.csr 0x000#12 0 0b000#3 Reg.zero Opcode.system.bits
  | .ebreak => Layout.csr 0x001#12 0 0b000#3 Reg.zero Opcode.system.bits
  | .breakHint =>
    Layout.r RegOp.slt.funct7 0 Reg.link RegOp.slt.funct3 Reg.zero Opcode.op.bits
  | .trapReturn level => Layout.csr (returnCode level) 0 0b000#3 Reg.zero Opcode.system.bits
  | .waitForInterrupt => Layout.csr 0x105#12 0 0b000#3 Reg.zero Opcode.system.bits
  | .fenceTranslations address space =>
    Layout.r 0b0001001#7 space address 0b000#3 Reg.zero Opcode.system.bits
  | .csr op rd operand c => Layout.csr c operand.source (op.funct3 operand) rd Opcode.system.bits
  | .loadFloat width rd rs1 offset =>
    Layout.i (immediate offset) rs1 width.funct3 rd Opcode.loadFloat.bits
  | .storeFloat width rs2 rs1 offset =>
    Layout.s (immediate offset) rs2 rs1 width.funct3 Opcode.storeFloat.bits
  | .floatArith op rd rs1 rs2 rounding =>
    Layout.r op.funct7 rs2 rs1 rounding.bits rd Opcode.opFloat.bits
  | .floatSqrt rd rs1 rounding => Layout.r 0b0101100#7 0 rs1 rounding.bits rd Opcode.opFloat.bits
  | .floatPick op rd rs1 rs2 => Layout.r op.funct7 rs2 rs1 op.funct3 rd Opcode.opFloat.bits
  | .floatCompare op rd rs1 rs2 => Layout.r 0b1010000#7 rs2 rs1 op.funct3 rd Opcode.opFloat.bits
  | .floatToInt sign rd rs1 rounding =>
    Layout.r 0b1100000#7 sign.rs2 rs1 rounding.bits rd Opcode.opFloat.bits
  | .floatOfInt sign rd rs1 rounding =>
    Layout.r 0b1101000#7 sign.rs2 rs1 rounding.bits rd Opcode.opFloat.bits
  | .floatMoveOut rd rs1 => Layout.r 0b1110000#7 0 rs1 0b000#3 rd Opcode.opFloat.bits
  | .floatClass rd rs1 => Layout.r 0b1110000#7 0 rs1 0b001#3 rd Opcode.opFloat.bits
  | .floatMoveIn rd rs1 => Layout.r 0b1111000#7 0 rs1 0b000#3 rd Opcode.opFloat.bits
  | .fused op rd rs1 rs2 rs3 rounding =>
    Layout.r4 rs3 0b00#2 rs2 rs1 rounding.bits rd (Opcode.fused op).bits
  | .amo op rd rs1 rs2 => Layout.amo op.funct5 0b00#2 rs2 rs1 0b010#3 rd Opcode.amo.bits
  | .loadReserved rd rs1 => Layout.amo 0b00010#5 0b00#2 Reg.zero rs1 0b010#3 rd Opcode.amo.bits
  | .storeConditional rd rs1 rs2 => Layout.amo 0b00011#5 0b00#2 rs2 rs1 0b010#3 rd Opcode.amo.bits

/-- The bits of its word that make no difference to an instruction: all but the opcode and
`funct3` of a fence, the second register of the breakpoint idiom, and acquire and release of
an atomic operation. -/
def ignored : Instruction → Word
  | .fence | .fenceI => Layout.r (.allOnes 7) (.allOnes 5) (.allOnes 5) 0 (.allOnes 5) 0
  | .breakHint => Layout.r 0 (.allOnes 5) 0 0 0 0
  | .amo .. | .loadReserved .. | .storeConditional .. => Layout.amo 0 0b11#2 0 0 0 0 0
  | _ => 0

/-- Every instruction but a comparison that is written as the breakpoint idiom. -/
def Encodable (i : Instruction) : Prop := ∀ rs2, i ≠ .opReg .slt Reg.zero Reg.link rs2

/-- A word of an instruction: that of the assembler, but for bits that make no difference. -/
def Encodes (w : Word) (i : Instruction) : Prop := i.Encodable ∧ w &&& ~~~i.ignored = i.encode

end Instruction
end Rv32
