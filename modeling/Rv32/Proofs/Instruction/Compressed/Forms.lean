/-
# `Rv32.Proofs.Instruction.Compressed.Forms` — what 16-bit instructions abbreviate

The 16-bit instructions of the architecture, each with its operands, its halfword
(`Form.word`) and the 32-bit instruction that it stands for (`Form.expansion`).  Some operands
have halfwords that belong to another form, or to none (`Form.Valid`).

A halfword is decoded as an instruction just if it is that of a form that stands for the
instruction (`decodeCompressed_eq_ok_iff`).  Halfwords of no form are those of the fourth
quadrant and those that the architecture reserves, of which `Reserved` is the list.
-/
import Rv32.Instruction.Compressed.Decode
import Rv32.Proofs.Instruction.Compressed.Layout
import Rv32.Proofs.Instruction.Decode

namespace Rv32.Compressed

open BitVec Instruction

/-! ## Forms -/

/-- The operations on two short registers. -/
inductive ShortOp where
  | sub | xor | or | and
deriving DecidableEq, Repr

def ShortOp.funct2 : ShortOp → BitVec 2
  | .sub => 0b00#2
  | .xor => 0b01#2
  | .or => 0b10#2
  | .and => 0b11#2

def ShortOp.op : ShortOp → RegOp
  | .sub => .sub
  | .xor => .xor
  | .or => .or
  | .and => .and

/-- The 16-bit instructions.  Offsets are counted in what they are multiples of. -/
inductive Form where
  | addi4spn (rd : BitVec 3) (size : BitVec 8)
  | fld (rd rs1 : BitVec 3) (offset : BitVec 5)
  | lw (rd rs1 : BitVec 3) (offset : BitVec 5)
  | flw (rd rs1 : BitVec 3) (offset : BitVec 5)
  | fsd (rs2 rs1 : BitVec 3) (offset : BitVec 5)
  | sw (rs2 rs1 : BitVec 3) (offset : BitVec 5)
  | fsw (rs2 rs1 : BitVec 3) (offset : BitVec 5)
  | addi (rd : Reg) (imm : BitVec 6)
  | jal (offset : BitVec 11)
  | li (rd : Reg) (imm : BitVec 6)
  | addi16sp (size : BitVec 6)
  | lui (rd : Reg) (imm : BitVec 6)
  | srli (rd : BitVec 3) (amount : BitVec 5)
  | srai (rd : BitVec 3) (amount : BitVec 5)
  | andi (rd : BitVec 3) (imm : BitVec 6)
  | compute (op : ShortOp) (rd rs2 : BitVec 3)
  | j (offset : BitVec 11)
  | beqz (rs1 : BitVec 3) (offset : BitVec 8)
  | bnez (rs1 : BitVec 3) (offset : BitVec 8)
  | slli (rd : Reg) (amount : BitVec 5)
  | fldsp (rd : Reg) (offset : BitVec 6)
  | lwsp (rd : Reg) (offset : BitVec 6)
  | flwsp (rd : Reg) (offset : BitVec 6)
  | jr (rs1 : Reg)
  | mv (rd rs2 : Reg)
  | ebreak
  | jalr (rs1 : Reg)
  | add (rd rs2 : Reg)
  | fsdsp (rs2 : Reg) (offset : BitVec 6)
  | swsp (rs2 : Reg) (offset : BitVec 6)
  | fswsp (rs2 : Reg) (offset : BitVec 6)
deriving DecidableEq, Repr

namespace Form

/-- The halfword of a form. -/
def word : Form → Half
  | addi4spn rd size => Layout.ciw 0b000#3 (Instruction.immediate (scaled 2 size)) rd 0b00#2
  | fld rd rs1 offset =>
    Layout.clDouble 0b001#3 (Instruction.immediate (scaled 3 offset)) rs1 rd 0b00#2
  | lw rd rs1 offset =>
    Layout.clWord 0b010#3 (Instruction.immediate (scaled 2 offset)) rs1 rd 0b00#2
  | flw rd rs1 offset =>
    Layout.clWord 0b011#3 (Instruction.immediate (scaled 2 offset)) rs1 rd 0b00#2
  | fsd rs2 rs1 offset =>
    Layout.clDouble 0b101#3 (Instruction.immediate (scaled 3 offset)) rs1 rs2 0b00#2
  | sw rs2 rs1 offset =>
    Layout.clWord 0b110#3 (Instruction.immediate (scaled 2 offset)) rs1 rs2 0b00#2
  | fsw rs2 rs1 offset =>
    Layout.clWord 0b111#3 (Instruction.immediate (scaled 2 offset)) rs1 rs2 0b00#2
  | addi rd imm => Layout.ci 0b000#3 (Instruction.immediate (imm.signExtend 12)) rd 0b01#2
  | jal offset => Layout.cj 0b001#3 (Instruction.jumpOffset (offset.signExtend 20)) 0b01#2
  | li rd imm => Layout.ci 0b010#3 (Instruction.immediate (imm.signExtend 12)) rd 0b01#2
  | addi16sp size =>
    Layout.ciFrame 0b011#3 (Instruction.immediate (frameSize size)) Reg.stack 0b01#2
  | lui rd imm => Layout.ciUpper 0b011#3 (upper (imm.signExtend 20)) rd 0b01#2
  | srli rd amount => Layout.cbShift 0b100000#6 rd amount 0b01#2
  | srai rd amount => Layout.cbShift 0b100001#6 rd amount 0b01#2
  | andi rd imm =>
    Layout.cbImm 0b100#3 (Instruction.immediate (imm.signExtend 12)) 0b10#2 rd 0b01#2
  | compute op rd rs2 => Layout.ca 0b100011#6 rd op.funct2 rs2 0b01#2
  | j offset => Layout.cj 0b101#3 (Instruction.jumpOffset (offset.signExtend 20)) 0b01#2
  | beqz rs1 offset =>
    Layout.cb 0b110#3 (Instruction.branchOffset (offset.signExtend 12)) rs1 0b01#2
  | bnez rs1 offset =>
    Layout.cb 0b111#3 (Instruction.branchOffset (offset.signExtend 12)) rs1 0b01#2
  | slli rd amount => Layout.cr 0b0000#4 rd amount 0b10#2
  | fldsp rd offset => Layout.ciDouble 0b001#3 (Instruction.immediate (scaled 3 offset)) rd 0b10#2
  | lwsp rd offset => Layout.ciWord 0b010#3 (Instruction.immediate (scaled 2 offset)) rd 0b10#2
  | flwsp rd offset => Layout.ciWord 0b011#3 (Instruction.immediate (scaled 2 offset)) rd 0b10#2
  | jr rs1 => Layout.cr 0b1000#4 rs1 Reg.zero 0b10#2
  | mv rd rs2 => Layout.cr 0b1000#4 rd rs2 0b10#2
  | ebreak => Layout.cr 0b1001#4 Reg.zero Reg.zero 0b10#2
  | jalr rs1 => Layout.cr 0b1001#4 rs1 Reg.zero 0b10#2
  | add rd rs2 => Layout.cr 0b1001#4 rd rs2 0b10#2
  | fsdsp rs2 offset =>
    Layout.cssDouble 0b101#3 (Instruction.immediate (scaled 3 offset)) rs2 0b10#2
  | swsp rs2 offset => Layout.cssWord 0b110#3 (Instruction.immediate (scaled 2 offset)) rs2 0b10#2
  | fswsp rs2 offset =>
    Layout.cssWord 0b111#3 (Instruction.immediate (scaled 2 offset)) rs2 0b10#2

/-- The instruction a form stands for. -/
def expansion : Form → Instruction
  | addi4spn rd size => .opImm .add (Reg.ofShort rd) Reg.stack (scaled 2 size)
  | fld rd rs1 offset => .loadFloat .double (Reg.ofShort rd) (Reg.ofShort rs1) (scaled 3 offset)
  | lw rd rs1 offset => .load .word (Reg.ofShort rd) (Reg.ofShort rs1) (scaled 2 offset)
  | flw rd rs1 offset => .loadFloat .single (Reg.ofShort rd) (Reg.ofShort rs1) (scaled 2 offset)
  | fsd rs2 rs1 offset => .storeFloat .double (Reg.ofShort rs2) (Reg.ofShort rs1) (scaled 3 offset)
  | sw rs2 rs1 offset => .store .word (Reg.ofShort rs2) (Reg.ofShort rs1) (scaled 2 offset)
  | fsw rs2 rs1 offset => .storeFloat .single (Reg.ofShort rs2) (Reg.ofShort rs1) (scaled 2 offset)
  | addi rd imm => .opImm .add rd rd (imm.signExtend 12)
  | jal offset => .jal Reg.link (offset.signExtend 20)
  | li rd imm => .opImm .add rd Reg.zero (imm.signExtend 12)
  | addi16sp size => .opImm .add Reg.stack Reg.stack (frameSize size)
  | lui rd imm => .lui rd (imm.signExtend 20)
  | srli rd amount => .shiftImm .right (Reg.ofShort rd) (Reg.ofShort rd) amount
  | srai rd amount => .shiftImm .rightArith (Reg.ofShort rd) (Reg.ofShort rd) amount
  | andi rd imm => .opImm .and (Reg.ofShort rd) (Reg.ofShort rd) (imm.signExtend 12)
  | compute op rd rs2 => .opReg op.op (Reg.ofShort rd) (Reg.ofShort rd) (Reg.ofShort rs2)
  | j offset => .jal Reg.zero (offset.signExtend 20)
  | beqz rs1 offset => .branch .eq (Reg.ofShort rs1) Reg.zero (offset.signExtend 12)
  | bnez rs1 offset => .branch .ne (Reg.ofShort rs1) Reg.zero (offset.signExtend 12)
  | slli rd amount => .shiftImm .left rd rd amount
  | fldsp rd offset => .loadFloat .double rd Reg.stack (scaled 3 offset)
  | lwsp rd offset => .load .word rd Reg.stack (scaled 2 offset)
  | flwsp rd offset => .loadFloat .single rd Reg.stack (scaled 2 offset)
  | jr rs1 => .jalr Reg.zero rs1 0
  | mv rd rs2 => .opReg .add rd Reg.zero rs2
  | ebreak => .ebreak
  | jalr rs1 => .jalr Reg.link rs1 0
  | add rd rs2 => .opReg .add rd rd rs2
  | fsdsp rs2 offset => .storeFloat .double rs2 Reg.stack (scaled 3 offset)
  | swsp rs2 offset => .store .word rs2 Reg.stack (scaled 2 offset)
  | fswsp rs2 offset => .storeFloat .single rs2 Reg.stack (scaled 2 offset)

/-- Operands whose halfword is not reserved and does not belong to another form. -/
def Valid : Form → Prop
  | addi4spn _ size => size ≠ 0
  | addi16sp size => size ≠ 0
  | lui rd imm => rd ≠ Reg.stack ∧ imm ≠ 0
  | lwsp rd _ => rd ≠ Reg.zero
  | jr rs1 => rs1 ≠ Reg.zero
  | jalr rs1 => rs1 ≠ Reg.zero
  | mv _ rs2 => rs2 ≠ Reg.zero
  | add _ rs2 => rs2 ≠ Reg.zero
  | _ => True

end Form

/-- The instruction a halfword stands for, if it is that of a form. -/
def Abbreviates (h : Half) (i : Instruction) : Prop :=
  ∃ f : Form, f.Valid ∧ h = f.word ∧ i = f.expansion

/-- The halfwords that the architecture reserves, or has given a meaning only with longer
registers. -/
inductive Reserved (h : Half) : Prop
  /-- A variable of the frame at no distance.  The halfword of zeros is one of these. -/
  | addi4spn : opcode h = 0b00#2 → funct3 h = 0b000#3 → h.extractLsb' 5 8 = 0 → Reserved h
  | quadrant0 : opcode h = 0b00#2 → funct3 h = 0b100#3 → Reserved h
  /-- A frame of no size, if the register is that of the stack, or else no upper immediate. -/
  | addi16sp_or_lui : opcode h = 0b01#2 → funct3 h = 0b011#3 → bit h 12 = 0 →
      h.extractLsb' 2 5 = 0 → Reserved h
  /-- A shift right by 32 or more. -/
  | shift_right : opcode h = 0b01#2 → funct6 h = 0b100100#6 ∨ funct6 h = 0b100101#6 → Reserved h
  /-- Subtraction and addition of words in longer registers are here. -/
  | word_arithmetic : opcode h = 0b01#2 → funct6 h = 0b100111#6 → Reserved h
  /-- A shift left by 32 or more. -/
  | slli : opcode h = 0b10#2 → funct4 h = 0b0001#4 → Reserved h
  | lwsp : opcode h = 0b10#2 → funct3 h = 0b010#3 → rs1 h = Reg.zero → Reserved h
  /-- A jump to what register 0 holds. -/
  | jr : h = 0x8002#16 → Reserved h

/-! ## Parts of fields -/

section
variable {h : Half}

theorem funct4_eq (h : Half) : funct4 h = funct3 h ++ bit h 12 := by
  simp only [funct4, funct3, bit, extractLsb'_append_extractLsb'_eq_extractLsb']

theorem funct6_eq (h : Half) : funct6 h = funct3 h ++ bit h 12 ++ h.extractLsb' 10 2 := by
  simp only [funct6, funct3, bit, extractLsb'_append_extractLsb'_eq_extractLsb']

/-- The codes of which a code of four bits is made up. -/
theorem funct4_eq_iff {code : BitVec 4} :
    funct4 h = code ↔ funct3 h = code.extractLsb' 1 3 ∧ bit h 12 = code.extractLsb' 0 1 := by
  rw [funct4_eq]
  constructor
  · rintro rfl
    exact ⟨extractLsb'_append_eq_left.symm, extractLsb'_append_eq_right.symm⟩
  · rintro ⟨h3, h1⟩
    rw [h3, h1, extractLsb'_append_extractLsb'_eq_extractLsb' (by omega), extractLsb'_eq_self]

/-- The codes of which a code of six bits is made up. -/
theorem funct6_eq_iff {code : BitVec 6} :
    funct6 h = code ↔ funct3 h = code.extractLsb' 3 3 ∧ bit h 12 = code.extractLsb' 2 1 ∧
      h.extractLsb' 10 2 = code.extractLsb' 0 2 := by
  rw [funct6_eq]
  constructor
  · rintro rfl
    simp (disch := omega) only [extractLsb'_append_eq_of_le, extractLsb'_append_eq_of_add_le,
      extractLsb'_eq_self, Nat.reduceSub, true_and]
  · rintro ⟨h3, h1, h2⟩
    simp only [h3, h1, h2, extractLsb'_append_extractLsb'_eq_extractLsb', extractLsb'_eq_self]

theorem bit_cases (h : Half) (i : Nat) : bit h i = 0#1 ∨ bit h i = 1#1 :=
  BitVec.eq_zero_or_eq_one _

/-- A piece of nothing is nothing. -/
theorem eq_zero_of_piece {w n start : Nat} {x : BitVec n} {y : BitVec w}
    (piece : y.extractLsb' start n = x) (zero : y = 0) : x = 0 := by
  rw [← piece, zero]
  exact extractLsb'_zero

theorem append_eq_zero_iff {n m : Nat} {x : BitVec n} {y : BitVec m} :
    x ++ y = 0 ↔ x = 0 ∧ y = 0 := by
  constructor
  · exact fun hzero => ⟨eq_zero_of_piece extractLsb'_append_eq_left hzero,
      eq_zero_of_piece extractLsb'_append_eq_right hzero⟩
  · rintro ⟨rfl, rfl⟩
    exact zero_append_zero

theorem signExtend_eq_zero_iff {n m : Nat} {x : BitVec n} (wider : n ≤ m) :
    x.signExtend m = 0 ↔ x = 0 := by
  constructor
  · intro hzero
    have piece : (x.signExtend m).extractLsb' 0 n = x := by
      rw [extractLsb'_signExtend x (Nat.le_of_eq (Nat.zero_add n)) wider, extractLsb'_eq_self]
    exact eq_zero_of_piece piece hzero
  · rintro rfl
    exact BitVec.eq_of_getLsbD_eq fun i hi => by simp [getLsbD_signExtend]

theorem scaled_eq_zero_iff {n k : Nat} {x : BitVec n} (room : n + k ≤ 12) :
    scaled k x = 0 ↔ x = 0 := by
  constructor
  · intro hzero
    have piece : (scaled k x).extractLsb' k n = x := by
      rw [scaled, extractLsb'_setWidth_of_le (by omega), extractLsb'_append_eq_left]
    exact eq_zero_of_piece piece hzero
  · rintro rfl
    have happend : (0 : BitVec n) ++ 0#k = 0#(n + k) := zero_append_zero
    rw [scaled, happend]
    exact BitVec.setWidth_zero _ _

theorem frameSize_eq_zero_iff {x : BitVec 6} : frameSize x = 0 ↔ x = 0 := by
  rw [frameSize, signExtend_eq_zero_iff (by omega), append_eq_zero_iff]
  exact and_iff_left rfl

end

/-! ## From forms to instructions -/

theorem arithmetic_funct2 (op : ShortOp) : arithmetic op.funct2 = op.op := by cases op <;> rfl

/-- The halfword of a form is decoded as the instruction it stands for. -/
theorem decodeCompressed_word {f : Form} (valid : f.Valid) :
    decodeCompressed f.word = .ok f.expansion := by
  generalize hw : f.word = h
  cases f with
  | addi4spn rd size =>
      obtain ⟨h3, rfl, rfl, ho⟩ := eq_ciw_iff.mp hw.symm
      have hsize : frameOffset h ≠ 0 := fun h0 => valid ((scaled_eq_zero_iff (by omega)).mp h0)
      simp only [decodeCompressed, ho, quadrant0?, h3, if_neg hsize]
      rfl
  | fld rd rs1 offset | fsd rd rs1 offset =>
      obtain ⟨h3, rfl, rfl, rfl, ho⟩ := eq_clDouble_iff.mp hw.symm
      simp only [decodeCompressed, ho, quadrant0?, h3]
      rfl
  | lw rd rs1 offset | flw rd rs1 offset | sw rd rs1 offset | fsw rd rs1 offset =>
      obtain ⟨h3, rfl, rfl, rfl, ho⟩ := eq_clWord_iff.mp hw.symm
      simp only [decodeCompressed, ho, quadrant0?, h3]
      rfl
  | addi rd imm | li rd imm =>
      obtain ⟨h3, rfl, rfl, ho⟩ := eq_ci_iff.mp hw.symm
      simp only [decodeCompressed, ho, quadrant1?, h3]
      rfl
  | jal offset | j offset =>
      obtain ⟨h3, rfl, ho⟩ := eq_cj_iff.mp hw.symm
      simp only [decodeCompressed, ho, quadrant1?, h3]
      rfl
  | addi16sp size =>
      obtain ⟨h3, rfl, hr, ho⟩ := eq_ciFrame_iff.mp hw.symm
      have hsize : frame h ≠ 0 := fun h0 => valid (frameSize_eq_zero_iff.mp h0)
      simp only [decodeCompressed, ho, quadrant1?, h3, if_pos hr, if_neg hsize]
      rfl
  | lui rd imm =>
      obtain ⟨h3, rfl, rfl, ho⟩ := eq_ciUpper_iff.mp hw.symm
      have himm : upperImmediate h ≠ 0 := fun h0 =>
        valid.2 ((signExtend_eq_zero_iff (by omega)).mp h0)
      simp only [decodeCompressed, ho, quadrant1?, h3, if_neg valid.1, if_neg himm]
      rfl
  | srli rd amount | srai rd amount =>
      obtain ⟨h6, rfl, rfl, ho⟩ := eq_cbShift_iff.mp hw.symm
      obtain ⟨h3, h1, h2⟩ := funct6_eq_iff.mp h6
      simp only [decodeCompressed, ho, quadrant1?, h3, shortArithmetic?, h2, h1]
      rfl
  | andi rd imm =>
      obtain ⟨h3, rfl, h2, rfl, ho⟩ := eq_cbImm_iff.mp hw.symm
      simp only [decodeCompressed, ho, quadrant1?, h3, shortArithmetic?, h2]
      rfl
  | compute op rd rs2 =>
      obtain ⟨h6, rfl, hf, rfl, ho⟩ := eq_ca_iff.mp hw.symm
      obtain ⟨h3, h1, h2⟩ := funct6_eq_iff.mp h6
      simp only [decodeCompressed, ho, quadrant1?, h3, shortArithmetic?, h2, h1, hf,
        arithmetic_funct2]
      rfl
  | beqz rs1 offset | bnez rs1 offset =>
      obtain ⟨h3, rfl, rfl, ho⟩ := eq_cb_iff.mp hw.symm
      simp only [decodeCompressed, ho, quadrant1?, h3]
      rfl
  | slli rd amount =>
      obtain ⟨h4, rfl, rfl, ho⟩ := eq_cr_iff.mp hw.symm
      obtain ⟨h3, h1⟩ := funct4_eq_iff.mp h4
      simp only [decodeCompressed, ho, quadrant2?, h3, h1]
      rfl
  | fldsp rd offset =>
      obtain ⟨h3, rfl, rfl, ho⟩ := eq_ciDouble_iff.mp hw.symm
      simp only [decodeCompressed, ho, quadrant2?, h3]
      rfl
  | lwsp rd offset =>
      obtain ⟨h3, rfl, rfl, ho⟩ := eq_ciWord_iff.mp hw.symm
      simp only [decodeCompressed, ho, quadrant2?, h3, if_neg valid]
      rfl
  | flwsp rd offset =>
      obtain ⟨h3, rfl, rfl, ho⟩ := eq_ciWord_iff.mp hw.symm
      simp only [decodeCompressed, ho, quadrant2?, h3]
      rfl
  | jr r | jalr r =>
      obtain ⟨h4, rfl, hs, ho⟩ := eq_cr_iff.mp hw.symm
      obtain ⟨h3, h1⟩ := funct4_eq_iff.mp h4
      simp only [decodeCompressed, ho, quadrant2?, h3, jumpOrMove?, h1, hs]
      exact congrArg (Option.elim · _ _) (if_pos valid)
  | mv rd rs2 | add rd rs2 =>
      obtain ⟨h4, rfl, rfl, ho⟩ := eq_cr_iff.mp hw.symm
      obtain ⟨h3, h1⟩ := funct4_eq_iff.mp h4
      simp only [decodeCompressed, ho, quadrant2?, h3, jumpOrMove?, h1]
      exact congrArg (Option.elim · _ _) (if_pos valid)
  | ebreak =>
      obtain ⟨h4, hr, hs, ho⟩ := eq_cr_iff.mp hw.symm
      obtain ⟨h3, h1⟩ := funct4_eq_iff.mp h4
      simp only [decodeCompressed, ho, quadrant2?, h3, jumpOrMove?, h1, hr, hs]
      rfl
  | fsdsp rs2 offset =>
      obtain ⟨h3, rfl, rfl, ho⟩ := eq_cssDouble_iff.mp hw.symm
      simp only [decodeCompressed, ho, quadrant2?, h3]
      rfl
  | swsp rs2 offset | fswsp rs2 offset =>
      obtain ⟨h3, rfl, rfl, ho⟩ := eq_cssWord_iff.mp hw.symm
      simp only [decodeCompressed, ho, quadrant2?, h3]
      rfl

/-! ## From instructions to forms -/

section
variable {h : Half} {i : Instruction}

theorem abbreviates_of_quadrant0? (ho : opcode h = 0b00#2) (decoded : quadrant0? h = some i) :
    Abbreviates h i := by
  unfold quadrant0? at decoded
  split at decoded
  case h_1 h3 =>
    split at decoded
    case isTrue => cases decoded
    case isFalse hsize =>
      cases decoded
      refine ⟨.addi4spn _ _, fun h0 => hsize ?_, eq_ciw_iff.mpr ⟨h3, rfl, rfl, ho⟩, rfl⟩
      exact (scaled_eq_zero_iff (by omega)).mpr h0
  case h_2 h3 =>
    cases decoded
    exact ⟨.fld _ _ _, trivial, eq_clDouble_iff.mpr ⟨h3, rfl, rfl, rfl, ho⟩, rfl⟩
  case h_3 h3 =>
    cases decoded
    exact ⟨.lw _ _ _, trivial, eq_clWord_iff.mpr ⟨h3, rfl, rfl, rfl, ho⟩, rfl⟩
  case h_4 h3 =>
    cases decoded
    exact ⟨.flw _ _ _, trivial, eq_clWord_iff.mpr ⟨h3, rfl, rfl, rfl, ho⟩, rfl⟩
  case h_5 h3 =>
    cases decoded
    exact ⟨.fsd _ _ _, trivial, eq_clDouble_iff.mpr ⟨h3, rfl, rfl, rfl, ho⟩, rfl⟩
  case h_6 h3 =>
    cases decoded
    exact ⟨.sw _ _ _, trivial, eq_clWord_iff.mpr ⟨h3, rfl, rfl, rfl, ho⟩, rfl⟩
  case h_7 h3 =>
    cases decoded
    exact ⟨.fsw _ _ _, trivial, eq_clWord_iff.mpr ⟨h3, rfl, rfl, rfl, ho⟩, rfl⟩
  case h_8 => cases decoded

/-- Every code is that of an operation on two short registers. -/
theorem exists_shortOp (code : BitVec 2) :
    ∃ op : ShortOp, op.funct2 = code ∧ op.op = arithmetic code :=
  match code with
  | 0b00#2 => ⟨.sub, rfl, rfl⟩
  | 0b01#2 => ⟨.xor, rfl, rfl⟩
  | 0b10#2 => ⟨.or, rfl, rfl⟩
  | 0b11#2 => ⟨.and, rfl, rfl⟩

/-- The code that is left when the others are excluded. -/
theorem eq_three {code : BitVec 2} (h0 : code ≠ 0b00#2) (h1 : code ≠ 0b01#2)
    (h2 : code ≠ 0b10#2) : code = 0b11#2 := by bv_omega

theorem eq_four {code : BitVec 3} (h0 : code ≠ 0b000#3) (h1 : code ≠ 0b001#3)
    (h2 : code ≠ 0b010#3) (h3 : code ≠ 0b011#3) (h5 : code ≠ 0b101#3) (h6 : code ≠ 0b110#3)
    (h7 : code ≠ 0b111#3) : code = 0b100#3 := by bv_omega

theorem eq_seven {code : BitVec 3} (h0 : code ≠ 0b000#3) (h1 : code ≠ 0b001#3)
    (h2 : code ≠ 0b010#3) (h3 : code ≠ 0b011#3) (h4 : code ≠ 0b100#3) (h5 : code ≠ 0b101#3)
    (h6 : code ≠ 0b110#3) : code = 0b111#3 := by bv_omega

theorem abbreviates_of_shortArithmetic? (ho : opcode h = 0b01#2) (h3 : funct3 h = 0b100#3)
    (decoded : shortArithmetic? h = some i) : Abbreviates h i := by
  have hbit : ¬bit h 12 = 1 → bit h 12 = 0 := (bit_cases h 12).resolve_right
  unfold shortArithmetic? at decoded
  dsimp only at decoded
  split at decoded
  case h_1 h2 =>
    split at decoded
    case isTrue => cases decoded
    case isFalse h1 =>
      cases decoded
      have h6 : funct6 h = 0b100000#6 := funct6_eq_iff.mpr ⟨h3, hbit h1, h2⟩
      exact ⟨.srli _ _, trivial, eq_cbShift_iff.mpr ⟨h6, rfl, rfl, ho⟩, rfl⟩
  case h_2 h2 =>
    split at decoded
    case isTrue => cases decoded
    case isFalse h1 =>
      cases decoded
      have h6 : funct6 h = 0b100001#6 := funct6_eq_iff.mpr ⟨h3, hbit h1, h2⟩
      exact ⟨.srai _ _, trivial, eq_cbShift_iff.mpr ⟨h6, rfl, rfl, ho⟩, rfl⟩
  case h_3 h2 =>
    cases decoded
    exact ⟨.andi _ _, trivial, eq_cbImm_iff.mpr ⟨h3, rfl, h2, rfl, ho⟩, rfl⟩
  case h_4 n0 n1 n2 =>
    split at decoded
    case isTrue => cases decoded
    case isFalse h1 =>
      cases decoded
      have h6 : funct6 h = 0b100011#6 :=
        funct6_eq_iff.mpr ⟨h3, hbit h1, eq_three n0 n1 n2⟩
      obtain ⟨op, hcode, hop⟩ := exists_shortOp (funct2 h)
      refine ⟨.compute op _ _, trivial, eq_ca_iff.mpr ⟨h6, rfl, hcode.symm, rfl, ho⟩, ?_⟩
      rw [Form.expansion, hop]
      rfl

theorem abbreviates_of_quadrant1? (ho : opcode h = 0b01#2) (decoded : quadrant1? h = some i) :
    Abbreviates h i := by
  unfold quadrant1? at decoded
  dsimp only at decoded
  split at decoded
  case h_1 h3 =>
    cases decoded
    exact ⟨.addi _ _, trivial, eq_ci_iff.mpr ⟨h3, rfl, rfl, ho⟩, rfl⟩
  case h_2 h3 =>
    cases decoded
    exact ⟨.jal _, trivial, eq_cj_iff.mpr ⟨h3, rfl, ho⟩, rfl⟩
  case h_3 h3 =>
    cases decoded
    exact ⟨.li _ _, trivial, eq_ci_iff.mpr ⟨h3, rfl, rfl, ho⟩, rfl⟩
  case h_4 h3 =>
    split at decoded
    case isTrue hr =>
      split at decoded
      case isTrue => cases decoded
      case isFalse hsize =>
        cases decoded
        refine ⟨.addi16sp _, fun h0 => hsize ?_, eq_ciFrame_iff.mpr ⟨h3, rfl, hr, ho⟩, rfl⟩
        exact frameSize_eq_zero_iff.mpr h0
    case isFalse hr =>
      split at decoded
      case isTrue => cases decoded
      case isFalse himm =>
        cases decoded
        refine ⟨.lui _ _, ⟨hr, fun h0 => himm ?_⟩, eq_ciUpper_iff.mpr ⟨h3, rfl, rfl, ho⟩, rfl⟩
        exact (signExtend_eq_zero_iff (by omega)).mpr h0
  case h_5 h3 => exact abbreviates_of_shortArithmetic? ho h3 decoded
  case h_6 h3 =>
    cases decoded
    exact ⟨.j _, trivial, eq_cj_iff.mpr ⟨h3, rfl, ho⟩, rfl⟩
  case h_7 h3 =>
    cases decoded
    exact ⟨.beqz _ _, trivial, eq_cb_iff.mpr ⟨h3, rfl, rfl, ho⟩, rfl⟩
  case h_8 n0 n1 n2 n3 n4 n5 n6 =>
    cases decoded
    have h3 := eq_seven n0 n1 n2 n3 n4 n5 n6
    exact ⟨.bnez _ _, trivial, eq_cb_iff.mpr ⟨h3, rfl, rfl, ho⟩, rfl⟩

theorem abbreviates_of_jumpOrMove? (ho : opcode h = 0b10#2) (h3 : funct3 h = 0b100#3)
    (decoded : jumpOrMove? h = some i) : Abbreviates h i := by
  unfold jumpOrMove? at decoded
  dsimp only at decoded
  split at decoded
  case isTrue h1 =>
    have h4 : funct4 h = 0b1001#4 := funct4_eq_iff.mpr ⟨h3, h1⟩
    split at decoded
    case isTrue hs =>
      cases decoded
      exact ⟨.add _ _, hs, eq_cr_iff.mpr ⟨h4, rfl, rfl, ho⟩, rfl⟩
    case isFalse hs =>
      replace hs := Decidable.not_not.mp hs
      split at decoded
      case isTrue hr =>
        cases decoded
        exact ⟨.jalr _, hr, eq_cr_iff.mpr ⟨h4, rfl, hs, ho⟩, rfl⟩
      case isFalse hr =>
        cases decoded
        exact ⟨.ebreak, trivial, eq_cr_iff.mpr ⟨h4, Decidable.not_not.mp hr, hs, ho⟩, rfl⟩
  case isFalse h1 =>
    have h4 : funct4 h = 0b1000#4 :=
      funct4_eq_iff.mpr ⟨h3, (bit_cases h 12).resolve_right h1⟩
    split at decoded
    case isTrue hs =>
      cases decoded
      exact ⟨.mv _ _, hs, eq_cr_iff.mpr ⟨h4, rfl, rfl, ho⟩, rfl⟩
    case isFalse hs =>
      replace hs := Decidable.not_not.mp hs
      split at decoded
      case isTrue hr =>
        cases decoded
        exact ⟨.jr _, hr, eq_cr_iff.mpr ⟨h4, rfl, hs, ho⟩, rfl⟩
      case isFalse => cases decoded

theorem abbreviates_of_quadrant2? (ho : opcode h = 0b10#2) (decoded : quadrant2? h = some i) :
    Abbreviates h i := by
  unfold quadrant2? at decoded
  dsimp only at decoded
  split at decoded
  case h_1 h3 =>
    split at decoded
    case isTrue => cases decoded
    case isFalse h1 =>
      cases decoded
      have h4 : funct4 h = 0b0000#4 :=
        funct4_eq_iff.mpr ⟨h3, (bit_cases h 12).resolve_right h1⟩
      exact ⟨.slli _ _, trivial, eq_cr_iff.mpr ⟨h4, rfl, rfl, ho⟩, rfl⟩
  case h_2 h3 =>
    cases decoded
    exact ⟨.fldsp _ _, trivial, eq_ciDouble_iff.mpr ⟨h3, rfl, rfl, ho⟩, rfl⟩
  case h_3 h3 =>
    split at decoded
    case isTrue => cases decoded
    case isFalse hr =>
      cases decoded
      exact ⟨.lwsp _ _, hr, eq_ciWord_iff.mpr ⟨h3, rfl, rfl, ho⟩, rfl⟩
  case h_4 h3 =>
    cases decoded
    exact ⟨.flwsp _ _, trivial, eq_ciWord_iff.mpr ⟨h3, rfl, rfl, ho⟩, rfl⟩
  case h_5 h3 => exact abbreviates_of_jumpOrMove? ho h3 decoded
  case h_6 h3 =>
    cases decoded
    exact ⟨.fsdsp _ _, trivial, eq_cssDouble_iff.mpr ⟨h3, rfl, rfl, ho⟩, rfl⟩
  case h_7 h3 =>
    cases decoded
    exact ⟨.swsp _ _, trivial, eq_cssWord_iff.mpr ⟨h3, rfl, rfl, ho⟩, rfl⟩
  case h_8 n0 n1 n2 n3 n4 n5 n6 =>
    cases decoded
    have h3 := eq_seven n0 n1 n2 n3 n4 n5 n6
    exact ⟨.fswsp _ _, trivial, eq_cssWord_iff.mpr ⟨h3, rfl, rfl, ho⟩, rfl⟩

/-- Nothing but an abbreviation is decoded, and nothing but what it stands for is decoded
from it. -/
theorem decodeCompressed_eq_ok_iff : decodeCompressed h = .ok i ↔ Abbreviates h i := by
  constructor
  · intro decoded
    unfold decodeCompressed at decoded
    split at decoded
    case h_1 ho =>
      cases hq : quadrant0? h with
      | none => simp only [hq, Option.elim_none, reduceCtorEq] at decoded
      | some i' =>
          simp only [hq, Option.elim_some, Except.ok.injEq] at decoded
          exact abbreviates_of_quadrant0? ho (hq.trans (congrArg some decoded))
    case h_2 ho =>
      cases hq : quadrant1? h with
      | none => simp only [hq, Option.elim_none, reduceCtorEq] at decoded
      | some i' =>
          simp only [hq, Option.elim_some, Except.ok.injEq] at decoded
          exact abbreviates_of_quadrant1? ho (hq.trans (congrArg some decoded))
    case h_3 ho =>
      cases hq : quadrant2? h with
      | none => simp only [hq, Option.elim_none, reduceCtorEq] at decoded
      | some i' =>
          simp only [hq, Option.elim_some, Except.ok.injEq] at decoded
          exact abbreviates_of_quadrant2? ho (hq.trans (congrArg some decoded))
    case h_4 => cases decoded
  · rintro ⟨f, valid, rfl, rfl⟩
    exact decodeCompressed_word valid

/-- Register 8 is loaded from 4 bytes behind the address in register 9. -/
example : (Form.lw 0 1 1).word = 0x40C0#16 ∧
    decodeCompressed 0x40C0#16 = .ok (.load .word 8 9 4) := ⟨rfl, rfl⟩

/-! ## Halfwords of no form -/

theorem frameOffset_eq_zero_iff : frameOffset h = 0 ↔ h.extractLsb' 5 8 = 0 := by
  have whole : h.extractLsb' 5 8 = 0 ↔
      h.extractLsb' 11 2 ++ h.extractLsb' 7 4 ++ bit h 6 ++ bit h 5 = 0 := by
    simp only [bit, extractLsb'_append_extractLsb'_eq_extractLsb']
  have pieces : frameOffset h = 0 ↔
      h.extractLsb' 7 4 ++ h.extractLsb' 11 2 ++ bit h 5 ++ bit h 6 = 0 :=
    scaled_eq_zero_iff (by omega)
  rw [pieces, whole]
  simp only [append_eq_zero_iff]
  constructor
  · exact fun ⟨⟨⟨h9, h5⟩, h3⟩, h2⟩ => ⟨⟨⟨h5, h9⟩, h2⟩, h3⟩
  · exact fun ⟨⟨⟨h5, h9⟩, h2⟩, h3⟩ => ⟨⟨⟨h9, h5⟩, h3⟩, h2⟩

theorem upperImmediate_eq_zero_iff :
    upperImmediate h = 0 ↔ bit h 12 = 0 ∧ h.extractLsb' 2 5 = 0 := by
  rw [upperImmediate, signExtend_eq_zero_iff (by omega), imm6, append_eq_zero_iff]

theorem frame_eq_zero_iff : frame h = 0 ↔ bit h 12 = 0 ∧ h.extractLsb' 2 5 = 0 := by
  have whole : h.extractLsb' 2 5 = 0 ↔
      bit h 6 ++ bit h 5 ++ h.extractLsb' 3 2 ++ bit h 2 = 0 := by
    simp only [bit, extractLsb'_append_extractLsb'_eq_extractLsb']
  have pieces : frame h = 0 ↔
      bit h 12 ++ h.extractLsb' 3 2 ++ bit h 5 ++ bit h 2 ++ bit h 6 = 0 := frameSize_eq_zero_iff
  rw [pieces, whole]
  simp only [append_eq_zero_iff]
  constructor
  · exact fun ⟨⟨⟨⟨h9, h8⟩, h6⟩, h5⟩, h4⟩ => ⟨h9, ⟨⟨h4, h6⟩, h8⟩, h5⟩
  · exact fun ⟨h9, ⟨⟨h4, h6⟩, h8⟩, h5⟩ => ⟨⟨⟨⟨h9, h8⟩, h6⟩, h5⟩, h4⟩

/-- Reserved halfwords are not decoded. -/
theorem Reserved.illegal (reserved : Reserved h) :
    decodeCompressed h = .error .illegalInstruction := by
  cases reserved with
  | addi4spn ho h3 hsize =>
      simp only [decodeCompressed, ho, quadrant0?, h3, if_pos (frameOffset_eq_zero_iff.mpr hsize)]
      rfl
  | quadrant0 ho h3 =>
      simp only [decodeCompressed, ho, quadrant0?, h3]
      rfl
  | addi16sp_or_lui ho h3 hsign himm =>
      simp only [decodeCompressed, ho, quadrant1?, h3,
        if_pos (frame_eq_zero_iff.mpr ⟨hsign, himm⟩),
        if_pos (upperImmediate_eq_zero_iff.mpr ⟨hsign, himm⟩), ite_self]
      rfl
  | shift_right ho h6 =>
      rcases h6 with h6 | h6
      all_goals
        obtain ⟨h3, h1, h2⟩ := funct6_eq_iff.mp h6
        simp only [decodeCompressed, ho, quadrant1?, h3, shortArithmetic?, h2, h1]
        rfl
  | word_arithmetic ho h6 =>
      obtain ⟨h3, h1, h2⟩ := funct6_eq_iff.mp h6
      simp only [decodeCompressed, ho, quadrant1?, h3, shortArithmetic?, h2, h1]
      rfl
  | slli ho h4 =>
      obtain ⟨h3, h1⟩ := funct4_eq_iff.mp h4
      simp only [decodeCompressed, ho, quadrant2?, h3, h1]
      rfl
  | lwsp ho h3 hr =>
      simp only [decodeCompressed, ho, quadrant2?, h3, if_pos hr]
      rfl
  | jr heq =>
      subst heq
      rfl

theorem reserved_of_quadrant0? (ho : opcode h = 0b00#2) (rejected : quadrant0? h = none) :
    Reserved h := by
  unfold quadrant0? at rejected
  split at rejected
  case h_1 h3 =>
    split at rejected
    case isTrue hsize => exact .addi4spn ho h3 (frameOffset_eq_zero_iff.mp hsize)
    case isFalse => cases rejected
  case h_8 n0 n1 n2 n3 n5 n6 n7 => exact .quadrant0 ho (eq_four n0 n1 n2 n3 n5 n6 n7)
  all_goals cases rejected

theorem reserved_of_shortArithmetic? (ho : opcode h = 0b01#2) (h3 : funct3 h = 0b100#3)
    (rejected : shortArithmetic? h = none) : Reserved h := by
  unfold shortArithmetic? at rejected
  dsimp only at rejected
  split at rejected
  case h_1 h2 =>
    split at rejected
    case isTrue h1 => exact .shift_right ho (.inl (funct6_eq_iff.mpr ⟨h3, h1, h2⟩))
    case isFalse => cases rejected
  case h_2 h2 =>
    split at rejected
    case isTrue h1 => exact .shift_right ho (.inr (funct6_eq_iff.mpr ⟨h3, h1, h2⟩))
    case isFalse => cases rejected
  case h_3 => cases rejected
  case h_4 n0 n1 n2 =>
    split at rejected
    case isTrue h1 =>
      exact .word_arithmetic ho (funct6_eq_iff.mpr ⟨h3, h1, eq_three n0 n1 n2⟩)
    case isFalse => cases rejected

theorem reserved_of_quadrant1? (ho : opcode h = 0b01#2) (rejected : quadrant1? h = none) :
    Reserved h := by
  unfold quadrant1? at rejected
  dsimp only at rejected
  split at rejected
  case h_4 h3 =>
    split at rejected
    case isTrue =>
      split at rejected
      case isTrue hsize =>
        obtain ⟨hsign, himm⟩ := frame_eq_zero_iff.mp hsize
        exact .addi16sp_or_lui ho h3 hsign himm
      case isFalse => cases rejected
    case isFalse =>
      split at rejected
      case isTrue hupper =>
        obtain ⟨hsign, himm⟩ := upperImmediate_eq_zero_iff.mp hupper
        exact .addi16sp_or_lui ho h3 hsign himm
      case isFalse => cases rejected
  case h_5 h3 => exact reserved_of_shortArithmetic? ho h3 rejected
  all_goals cases rejected

theorem reserved_of_jumpOrMove? (ho : opcode h = 0b10#2) (h3 : funct3 h = 0b100#3)
    (rejected : jumpOrMove? h = none) : Reserved h := by
  unfold jumpOrMove? at rejected
  dsimp only at rejected
  split at rejected
  case isTrue =>
    split at rejected
    case isTrue => cases rejected
    case isFalse => split at rejected <;> cases rejected
  case isFalse h1 =>
    split at rejected
    case isTrue => cases rejected
    case isFalse hs =>
      split at rejected
      case isTrue => cases rejected
      case isFalse hr =>
        have h4 : funct4 h = 0b1000#4 :=
          funct4_eq_iff.mpr ⟨h3, (bit_cases h 12).resolve_right h1⟩
        exact .jr (eq_cr_iff.mpr ⟨h4, Decidable.not_not.mp hr, Decidable.not_not.mp hs, ho⟩)

theorem reserved_of_quadrant2? (ho : opcode h = 0b10#2) (rejected : quadrant2? h = none) :
    Reserved h := by
  unfold quadrant2? at rejected
  dsimp only at rejected
  split at rejected
  case h_1 h3 =>
    split at rejected
    case isTrue h1 => exact .slli ho (funct4_eq_iff.mpr ⟨h3, h1⟩)
    case isFalse => cases rejected
  case h_3 h3 =>
    split at rejected
    case isTrue hr => exact .lwsp ho h3 hr
    case isFalse => cases rejected
  case h_5 h3 => exact reserved_of_jumpOrMove? ho h3 rejected
  all_goals cases rejected

/-- A halfword that is not decoded is reserved, or not of 16 bits at all. -/
theorem decodeCompressed_eq_error_iff :
    (∃ e, decodeCompressed h = .error e) ↔ opcode h = 0b11#2 ∨ Reserved h := by
  have helim {q : Option Instruction} {e : DecodeError}
      (rejected : q.elim (.error .illegalInstruction) .ok = (.error e : Except _ Instruction)) :
      q = none := by
    cases q with
    | none => rfl
    | some i => cases rejected
  constructor
  · rintro ⟨e, rejected⟩
    unfold decodeCompressed at rejected
    split at rejected
    case h_1 ho => exact .inr (reserved_of_quadrant0? ho (helim rejected))
    case h_2 ho => exact .inr (reserved_of_quadrant1? ho (helim rejected))
    case h_3 ho => exact .inr (reserved_of_quadrant2? ho (helim rejected))
    case h_4 n0 n1 n2 => exact .inl (eq_three n0 n1 n2)
  · rintro (ho | reserved)
    · refine ⟨.unsupportedOpcode, ?_⟩
      simp only [decodeCompressed, ho]
      rfl
    · exact ⟨_, reserved.illegal⟩

/-! ## The 32-bit words of the same instructions -/

theorem Form.encodable_expansion (f : Form) : f.expansion.Encodable := by
  intro rs2
  cases f with
  | compute op rd s => cases op <;> nofun
  | _ => nofun

/-- What a form stands for has a word of 32 bits. -/
theorem Form.decode_expansion (f : Form) : decode f.expansion.encode = .ok f.expansion :=
  decode_of_encodes ⟨f.encodable_expansion, masked_encode f.expansion⟩

end

end Rv32.Compressed
