/-
# `Rv32.Proofs.Instruction.Compressed.Layout` — where the pieces of a halfword go

The layouts of 16-bit instructions, each as the row of fields that it is, from the highest
bit to the lowest.  As in the layouts of 32-bit instructions, an immediate is given by the
number it stands for, and the layout says which of its bits go where.

For each layout there is a lemma `eq_…_iff`: a halfword has the layout with given fields if
and only if these are what its fields read.  All immediates are parts of those of 32-bit
instructions: some of the low bits are zero, and the high bits are zero or the sign.
-/
import Rv32.Instruction.Compressed.Fields
import Rv32.Proofs.Instruction.Layout

namespace Rv32.Compressed

open BitVec Instruction

/-! ## Layouts -/

namespace Layout

/-- Two registers. -/
def cr (funct4 : BitVec 4) (rd rs2 : Reg) (opcode : BitVec 2) : Half :=
  funct4 ++ rd ++ rs2 ++ opcode

/-- An immediate of six bits. -/
def ci (funct3 : BitVec 3) (imm : Word) (rd : Reg) (opcode : BitVec 2) : Half :=
  funct3 ++ imm.extractLsb' 5 1 ++ rd ++ imm.extractLsb' 0 5 ++ opcode

/-- Six bits of a number whose low twelve bits are zero. -/
def ciUpper (funct3 : BitVec 3) (imm : Word) (rd : Reg) (opcode : BitVec 2) : Half :=
  funct3 ++ imm.extractLsb' 17 1 ++ rd ++ imm.extractLsb' 12 5 ++ opcode

/-- A multiple of 16. -/
def ciFrame (funct3 : BitVec 3) (imm : Word) (rd : Reg) (opcode : BitVec 2) : Half :=
  funct3 ++ imm.extractLsb' 9 1 ++ rd ++ imm.extractLsb' 4 1 ++ imm.extractLsb' 6 1 ++
    imm.extractLsb' 7 2 ++ imm.extractLsb' 5 1 ++ opcode

/-- The offset of a word that is loaded from the stack. -/
def ciWord (funct3 : BitVec 3) (offset : Word) (rd : Reg) (opcode : BitVec 2) : Half :=
  funct3 ++ offset.extractLsb' 5 1 ++ rd ++ offset.extractLsb' 2 3 ++ offset.extractLsb' 6 2 ++
    opcode

/-- The offset of a double word that is loaded from the stack. -/
def ciDouble (funct3 : BitVec 3) (offset : Word) (rd : Reg) (opcode : BitVec 2) : Half :=
  funct3 ++ offset.extractLsb' 5 1 ++ rd ++ offset.extractLsb' 3 2 ++ offset.extractLsb' 6 3 ++
    opcode

/-- The offset of a word that is stored to the stack. -/
def cssWord (funct3 : BitVec 3) (offset : Word) (rs2 : Reg) (opcode : BitVec 2) : Half :=
  funct3 ++ offset.extractLsb' 2 4 ++ offset.extractLsb' 6 2 ++ rs2 ++ opcode

/-- The offset of a double word that is stored to the stack. -/
def cssDouble (funct3 : BitVec 3) (offset : Word) (rs2 : Reg) (opcode : BitVec 2) : Half :=
  funct3 ++ offset.extractLsb' 3 3 ++ offset.extractLsb' 6 3 ++ rs2 ++ opcode

/-- A multiple of 4 with a wide range. -/
def ciw (funct3 : BitVec 3) (imm : Word) (rd : BitVec 3) (opcode : BitVec 2) : Half :=
  funct3 ++ imm.extractLsb' 4 2 ++ imm.extractLsb' 6 4 ++ imm.extractLsb' 2 1 ++
    imm.extractLsb' 3 1 ++ rd ++ opcode

/-- The offset of a word from a register. -/
def clWord (funct3 : BitVec 3) (offset : Word) (rs1 rd : BitVec 3) (opcode : BitVec 2) : Half :=
  funct3 ++ offset.extractLsb' 3 3 ++ rs1 ++ offset.extractLsb' 2 1 ++ offset.extractLsb' 6 1 ++
    rd ++ opcode

/-- The offset of a double word from a register. -/
def clDouble (funct3 : BitVec 3) (offset : Word) (rs1 rd : BitVec 3) (opcode : BitVec 2) : Half :=
  funct3 ++ offset.extractLsb' 3 3 ++ rs1 ++ offset.extractLsb' 6 2 ++ rd ++ opcode

/-- Two short registers. -/
def ca (funct6 : BitVec 6) (rd : BitVec 3) (funct2 : BitVec 2) (rs2 : BitVec 3)
    (opcode : BitVec 2) : Half :=
  funct6 ++ rd ++ funct2 ++ rs2 ++ opcode

/-- A short register and the amount of a shift. -/
def cbShift (funct6 : BitVec 6) (rd : BitVec 3) (amount : BitVec 5) (opcode : BitVec 2) : Half :=
  funct6 ++ rd ++ amount ++ opcode

/-- A short register and an immediate of six bits. -/
def cbImm (funct3 : BitVec 3) (imm : Word) (funct2 : BitVec 2) (rd : BitVec 3)
    (opcode : BitVec 2) : Half :=
  funct3 ++ imm.extractLsb' 5 1 ++ funct2 ++ rd ++ imm.extractLsb' 0 5 ++ opcode

/-- The offset of a branch, which is even. -/
def cb (funct3 : BitVec 3) (offset : Word) (rs1 : BitVec 3) (opcode : BitVec 2) : Half :=
  funct3 ++ offset.extractLsb' 8 1 ++ offset.extractLsb' 3 2 ++ rs1 ++ offset.extractLsb' 6 2 ++
    offset.extractLsb' 1 2 ++ offset.extractLsb' 5 1 ++ opcode

/-- The offset of a jump, which is even. -/
def cj (funct3 : BitVec 3) (offset : Word) (opcode : BitVec 2) : Half :=
  funct3 ++ offset.extractLsb' 11 1 ++ offset.extractLsb' 4 1 ++ offset.extractLsb' 8 2 ++
    offset.extractLsb' 10 1 ++ offset.extractLsb' 6 1 ++ offset.extractLsb' 7 1 ++
    offset.extractLsb' 1 3 ++ offset.extractLsb' 5 1 ++ opcode

end Layout

/-! ## Operands

An operand has the bits that the layout has room for.  The immediate of the 32-bit instruction
has them in its middle. -/

/-- An offset counted in units of `2 ^ k` bytes. -/
def scaled {n : Nat} (k : Nat) (x : BitVec n) : BitVec 12 := (x ++ 0#k).setWidth 12

/-- The frame size counted in units of 16 bytes, with its sign. -/
def frameSize (x : BitVec 6) : BitVec 12 := (x ++ 0#4).signExtend 12

section
variable {n start len : Nat}

theorem extractLsb'_signed {x : BitVec 6} (inside : start + len ≤ 6) :
    (Instruction.immediate (x.signExtend 12)).extractLsb' start len = x.extractLsb' start len := by
  rw [extractLsb'_immediate (by omega), extractLsb'_signExtend x inside (by omega)]

theorem extractLsb'_signedUpper {x : BitVec 6} (inside : start + len ≤ 6) :
    (upper (x.signExtend 20)).extractLsb' (start + 12) len = x.extractLsb' start len := by
  rw [upper, extractLsb'_append_eq_of_le (by omega), Nat.add_sub_cancel,
    extractLsb'_signExtend x inside (by omega)]

theorem extractLsb'_frameSize {x : BitVec 6} (inside : start + len ≤ 6) :
    (Instruction.immediate (frameSize x)).extractLsb' (start + 4) len =
      x.extractLsb' start len := by
  rw [frameSize, extractLsb'_immediate (by omega), extractLsb'_signExtend _ (by omega) (by omega),
    extractLsb'_append_eq_of_le (by omega), Nat.add_sub_cancel]

theorem extractLsb'_scaled (k : Nat) {x : BitVec n} (inside : start + len ≤ n)
    (room : n + k ≤ 12) :
    (Instruction.immediate (scaled k x)).extractLsb' (start + k) len = x.extractLsb' start len := by
  rw [scaled, extractLsb'_immediate (by omega), extractLsb'_setWidth_of_le (by omega),
    extractLsb'_append_eq_of_le (by omega), Nat.add_sub_cancel]

theorem extractLsb'_signedBranch {x : BitVec 8} (inside : start + len ≤ 8) :
    (Instruction.branchOffset (x.signExtend 12)).extractLsb' (start + 1) len =
      x.extractLsb' start len := by
  rw [extractLsb'_branchOffset (by omega), extractLsb'_signExtend x inside (by omega)]

theorem extractLsb'_signedJump {x : BitVec 11} (inside : start + len ≤ 11) :
    (Instruction.jumpOffset (x.signExtend 20)).extractLsb' (start + 1) len =
      x.extractLsb' start len := by
  rw [extractLsb'_jumpOffset (by omega), extractLsb'_signExtend x inside (by omega)]

end

/-! ## Halfwords and their fields -/

section
variable {h : Half} {code2 op : BitVec 2} {code3 a d : BitVec 3} {code4 : BitVec 4}
  {code6 : BitVec 6} {r s : Reg}

theorem eq_cr_iff :
    h = Layout.cr code4 r s op ↔ funct4 h = code4 ∧ rs1 h = r ∧ rs2 h = s ∧ opcode h = op := by
  unfold Layout.cr funct4 rs1 rs2 opcode
  constructor
  · rintro rfl
    simp (disch := omega) only [extractLsb'_append_eq_of_le, extractLsb'_append_eq_of_add_le,
      extractLsb'_eq_self, Nat.reduceSub, true_and]
  · rintro ⟨rfl, rfl, rfl, rfl⟩
    simp only [extractLsb'_append_extractLsb'_eq_extractLsb', extractLsb'_eq_self]

theorem eq_ci_iff {x : BitVec 6} :
    h = Layout.ci code3 (Instruction.immediate (x.signExtend 12)) r op ↔
      funct3 h = code3 ∧ imm6 h = x ∧ rs1 h = r ∧ opcode h = op := by
  unfold Layout.ci funct3 imm6 bit rs1 opcode
  simp (disch := omega) only [extractLsb'_signed]
  constructor
  · rintro rfl
    simp (disch := omega) only [extractLsb'_append_eq_of_le, extractLsb'_append_eq_of_add_le,
      extractLsb'_append_extractLsb'_eq_extractLsb', extractLsb'_eq_self, Nat.reduceSub, true_and]
  · rintro ⟨rfl, rfl, rfl, rfl⟩
    simp (disch := omega) only [extractLsb'_append_eq_of_le, extractLsb'_append_eq_of_add_le,
      extractLsb'_append_extractLsb'_eq_extractLsb', extractLsb'_eq_self, Nat.reduceSub]

theorem eq_ciUpper_iff {x : BitVec 6} :
    h = Layout.ciUpper code3 (upper (x.signExtend 20)) r op ↔
      funct3 h = code3 ∧ imm6 h = x ∧ rs1 h = r ∧ opcode h = op := by
  unfold Layout.ciUpper funct3 imm6 bit rs1 opcode
  simp (disch := omega) only [extractLsb'_signedUpper]
  constructor
  · rintro rfl
    simp (disch := omega) only [extractLsb'_append_eq_of_le, extractLsb'_append_eq_of_add_le,
      extractLsb'_append_extractLsb'_eq_extractLsb', extractLsb'_eq_self, Nat.reduceSub, true_and]
  · rintro ⟨rfl, rfl, rfl, rfl⟩
    simp (disch := omega) only [extractLsb'_append_eq_of_le, extractLsb'_append_eq_of_add_le,
      extractLsb'_append_extractLsb'_eq_extractLsb', extractLsb'_eq_self, Nat.reduceSub]

theorem eq_ciFrame_iff {x : BitVec 6} :
    h = Layout.ciFrame code3 (Instruction.immediate (frameSize x)) r op ↔
      funct3 h = code3 ∧
        bit h 12 ++ h.extractLsb' 3 2 ++ bit h 5 ++ bit h 2 ++ bit h 6 = x ∧ rs1 h = r ∧
        opcode h = op := by
  unfold Layout.ciFrame funct3 bit rs1 opcode
  simp (disch := omega) only [extractLsb'_frameSize]
  constructor
  · rintro rfl
    simp (disch := omega) only [extractLsb'_append_eq_of_le, extractLsb'_append_eq_of_add_le,
      extractLsb'_append_extractLsb'_eq_extractLsb', extractLsb'_eq_self, Nat.reduceSub, true_and]
  · rintro ⟨rfl, rfl, rfl, rfl⟩
    simp (disch := omega) only [extractLsb'_append_eq_of_le, extractLsb'_append_eq_of_add_le,
      extractLsb'_append_extractLsb'_eq_extractLsb', extractLsb'_eq_self, Nat.reduceSub]

theorem eq_ciWord_iff {x : BitVec 6} :
    h = Layout.ciWord code3 (Instruction.immediate (scaled 2 x)) r op ↔
      funct3 h = code3 ∧ h.extractLsb' 2 2 ++ bit h 12 ++ h.extractLsb' 4 3 = x ∧ rs1 h = r ∧
        opcode h = op := by
  unfold Layout.ciWord funct3 bit rs1 opcode
  simp (disch := omega) only [extractLsb'_scaled 2]
  constructor
  · rintro rfl
    simp (disch := omega) only [extractLsb'_append_eq_of_le, extractLsb'_append_eq_of_add_le,
      extractLsb'_append_extractLsb'_eq_extractLsb', extractLsb'_eq_self, Nat.reduceSub, true_and]
  · rintro ⟨rfl, rfl, rfl, rfl⟩
    simp (disch := omega) only [extractLsb'_append_eq_of_le, extractLsb'_append_eq_of_add_le,
      extractLsb'_append_extractLsb'_eq_extractLsb', extractLsb'_eq_self, Nat.reduceSub]

theorem eq_ciDouble_iff {x : BitVec 6} :
    h = Layout.ciDouble code3 (Instruction.immediate (scaled 3 x)) r op ↔
      funct3 h = code3 ∧ h.extractLsb' 2 3 ++ bit h 12 ++ h.extractLsb' 5 2 = x ∧ rs1 h = r ∧
        opcode h = op := by
  unfold Layout.ciDouble funct3 bit rs1 opcode
  simp (disch := omega) only [extractLsb'_scaled 3]
  constructor
  · rintro rfl
    simp (disch := omega) only [extractLsb'_append_eq_of_le, extractLsb'_append_eq_of_add_le,
      extractLsb'_append_extractLsb'_eq_extractLsb', extractLsb'_eq_self, Nat.reduceSub, true_and]
  · rintro ⟨rfl, rfl, rfl, rfl⟩
    simp (disch := omega) only [extractLsb'_append_eq_of_le, extractLsb'_append_eq_of_add_le,
      extractLsb'_append_extractLsb'_eq_extractLsb', extractLsb'_eq_self, Nat.reduceSub]

theorem eq_cssWord_iff {x : BitVec 6} :
    h = Layout.cssWord code3 (Instruction.immediate (scaled 2 x)) s op ↔
      funct3 h = code3 ∧ h.extractLsb' 7 2 ++ h.extractLsb' 9 4 = x ∧ rs2 h = s ∧
        opcode h = op := by
  unfold Layout.cssWord funct3 rs2 opcode
  simp (disch := omega) only [extractLsb'_scaled 2]
  constructor
  · rintro rfl
    simp (disch := omega) only [extractLsb'_append_eq_of_le, extractLsb'_append_eq_of_add_le,
      extractLsb'_append_extractLsb'_eq_extractLsb', extractLsb'_eq_self, Nat.reduceSub, true_and]
  · rintro ⟨rfl, rfl, rfl, rfl⟩
    simp (disch := omega) only [extractLsb'_append_eq_of_le, extractLsb'_append_eq_of_add_le,
      extractLsb'_append_extractLsb'_eq_extractLsb', extractLsb'_eq_self, Nat.reduceSub]

theorem eq_cssDouble_iff {x : BitVec 6} :
    h = Layout.cssDouble code3 (Instruction.immediate (scaled 3 x)) s op ↔
      funct3 h = code3 ∧ h.extractLsb' 7 3 ++ h.extractLsb' 10 3 = x ∧ rs2 h = s ∧
        opcode h = op := by
  unfold Layout.cssDouble funct3 rs2 opcode
  simp (disch := omega) only [extractLsb'_scaled 3]
  constructor
  · rintro rfl
    simp (disch := omega) only [extractLsb'_append_eq_of_le, extractLsb'_append_eq_of_add_le,
      extractLsb'_append_extractLsb'_eq_extractLsb', extractLsb'_eq_self, Nat.reduceSub, true_and]
  · rintro ⟨rfl, rfl, rfl, rfl⟩
    simp (disch := omega) only [extractLsb'_append_eq_of_le, extractLsb'_append_eq_of_add_le,
      extractLsb'_append_extractLsb'_eq_extractLsb', extractLsb'_eq_self, Nat.reduceSub]

theorem eq_ciw_iff {x : BitVec 8} :
    h = Layout.ciw code3 (Instruction.immediate (scaled 2 x)) d op ↔
      funct3 h = code3 ∧ h.extractLsb' 7 4 ++ h.extractLsb' 11 2 ++ bit h 5 ++ bit h 6 = x ∧
        h.extractLsb' 2 3 = d ∧ opcode h = op := by
  unfold Layout.ciw funct3 bit opcode
  simp (disch := omega) only [extractLsb'_scaled 2]
  constructor
  · rintro rfl
    simp (disch := omega) only [extractLsb'_append_eq_of_le, extractLsb'_append_eq_of_add_le,
      extractLsb'_append_extractLsb'_eq_extractLsb', extractLsb'_eq_self, Nat.reduceSub, true_and]
  · rintro ⟨rfl, rfl, rfl, rfl⟩
    simp (disch := omega) only [extractLsb'_append_eq_of_le, extractLsb'_append_eq_of_add_le,
      extractLsb'_append_extractLsb'_eq_extractLsb', extractLsb'_eq_self, Nat.reduceSub]

theorem eq_clWord_iff {x : BitVec 5} :
    h = Layout.clWord code3 (Instruction.immediate (scaled 2 x)) a d op ↔
      funct3 h = code3 ∧ bit h 5 ++ h.extractLsb' 10 3 ++ bit h 6 = x ∧ h.extractLsb' 7 3 = a ∧
        h.extractLsb' 2 3 = d ∧ opcode h = op := by
  unfold Layout.clWord funct3 bit opcode
  simp (disch := omega) only [extractLsb'_scaled 2]
  constructor
  · rintro rfl
    simp (disch := omega) only [extractLsb'_append_eq_of_le, extractLsb'_append_eq_of_add_le,
      extractLsb'_append_extractLsb'_eq_extractLsb', extractLsb'_eq_self, Nat.reduceSub, true_and]
  · rintro ⟨rfl, rfl, rfl, rfl, rfl⟩
    simp (disch := omega) only [extractLsb'_append_eq_of_le, extractLsb'_append_eq_of_add_le,
      extractLsb'_append_extractLsb'_eq_extractLsb', extractLsb'_eq_self, Nat.reduceSub]

theorem eq_clDouble_iff {x : BitVec 5} :
    h = Layout.clDouble code3 (Instruction.immediate (scaled 3 x)) a d op ↔
      funct3 h = code3 ∧ h.extractLsb' 5 2 ++ h.extractLsb' 10 3 = x ∧ h.extractLsb' 7 3 = a ∧
        h.extractLsb' 2 3 = d ∧ opcode h = op := by
  unfold Layout.clDouble funct3 opcode
  simp (disch := omega) only [extractLsb'_scaled 3]
  constructor
  · rintro rfl
    simp (disch := omega) only [extractLsb'_append_eq_of_le, extractLsb'_append_eq_of_add_le,
      extractLsb'_append_extractLsb'_eq_extractLsb', extractLsb'_eq_self, Nat.reduceSub, true_and]
  · rintro ⟨rfl, rfl, rfl, rfl, rfl⟩
    simp (disch := omega) only [extractLsb'_append_eq_of_le, extractLsb'_append_eq_of_add_le,
      extractLsb'_append_extractLsb'_eq_extractLsb', extractLsb'_eq_self, Nat.reduceSub]

theorem eq_cbImm_iff {x : BitVec 6} :
    h = Layout.cbImm code3 (Instruction.immediate (x.signExtend 12)) code2 d op ↔
      funct3 h = code3 ∧ imm6 h = x ∧ h.extractLsb' 10 2 = code2 ∧ h.extractLsb' 7 3 = d ∧
        opcode h = op := by
  unfold Layout.cbImm funct3 imm6 bit opcode
  simp (disch := omega) only [extractLsb'_signed]
  constructor
  · rintro rfl
    simp (disch := omega) only [extractLsb'_append_eq_of_le, extractLsb'_append_eq_of_add_le,
      extractLsb'_append_extractLsb'_eq_extractLsb', extractLsb'_eq_self, Nat.reduceSub, true_and]
  · rintro ⟨rfl, rfl, rfl, rfl, rfl⟩
    simp (disch := omega) only [extractLsb'_append_eq_of_le, extractLsb'_append_eq_of_add_le,
      extractLsb'_append_extractLsb'_eq_extractLsb', extractLsb'_eq_self, Nat.reduceSub]

theorem eq_cb_iff {x : BitVec 8} :
    h = Layout.cb code3 (Instruction.branchOffset (x.signExtend 12)) a op ↔
      funct3 h = code3 ∧
        bit h 12 ++ h.extractLsb' 5 2 ++ bit h 2 ++ h.extractLsb' 10 2 ++ h.extractLsb' 3 2 = x ∧
        h.extractLsb' 7 3 = a ∧ opcode h = op := by
  unfold Layout.cb funct3 bit opcode
  simp (disch := omega) only [extractLsb'_signedBranch]
  constructor
  · rintro rfl
    simp (disch := omega) only [extractLsb'_append_eq_of_le, extractLsb'_append_eq_of_add_le,
      extractLsb'_append_extractLsb'_eq_extractLsb', extractLsb'_eq_self, Nat.reduceSub, true_and]
  · rintro ⟨rfl, rfl, rfl, rfl⟩
    simp (disch := omega) only [extractLsb'_append_eq_of_le, extractLsb'_append_eq_of_add_le,
      extractLsb'_append_extractLsb'_eq_extractLsb', extractLsb'_eq_self, Nat.reduceSub]

theorem eq_cj_iff {x : BitVec 11} :
    h = Layout.cj code3 (Instruction.jumpOffset (x.signExtend 20)) op ↔
      funct3 h = code3 ∧
        bit h 12 ++ bit h 8 ++ h.extractLsb' 9 2 ++ bit h 6 ++ bit h 7 ++ bit h 2 ++ bit h 11 ++
          h.extractLsb' 3 3 = x ∧
        opcode h = op := by
  unfold Layout.cj funct3 bit opcode
  simp (disch := omega) only [extractLsb'_signedJump]
  constructor
  · rintro rfl
    simp (disch := omega) only [extractLsb'_append_eq_of_le, extractLsb'_append_eq_of_add_le,
      extractLsb'_append_extractLsb'_eq_extractLsb', extractLsb'_eq_self, Nat.reduceSub, true_and]
  · rintro ⟨rfl, rfl, rfl⟩
    simp (disch := omega) only [extractLsb'_append_eq_of_le, extractLsb'_append_eq_of_add_le,
      extractLsb'_append_extractLsb'_eq_extractLsb', extractLsb'_eq_self, Nat.reduceSub]

theorem eq_ca_iff :
    h = Layout.ca code6 d code2 a op ↔
      funct6 h = code6 ∧ h.extractLsb' 7 3 = d ∧ funct2 h = code2 ∧ h.extractLsb' 2 3 = a ∧
        opcode h = op := by
  unfold Layout.ca funct6 funct2 opcode
  constructor
  · rintro rfl
    simp (disch := omega) only [extractLsb'_append_eq_of_le, extractLsb'_append_eq_of_add_le,
      extractLsb'_eq_self, Nat.reduceSub, true_and]
  · rintro ⟨rfl, rfl, rfl, rfl, rfl⟩
    simp only [extractLsb'_append_extractLsb'_eq_extractLsb', extractLsb'_eq_self]

theorem eq_cbShift_iff :
    h = Layout.cbShift code6 d r op ↔
      funct6 h = code6 ∧ h.extractLsb' 7 3 = d ∧ shiftAmount h = r ∧ opcode h = op := by
  unfold Layout.cbShift funct6 shiftAmount opcode
  constructor
  · rintro rfl
    simp (disch := omega) only [extractLsb'_append_eq_of_le, extractLsb'_append_eq_of_add_le,
      extractLsb'_eq_self, Nat.reduceSub, true_and]
  · rintro ⟨rfl, rfl, rfl, rfl⟩
    simp only [extractLsb'_append_extractLsb'_eq_extractLsb', extractLsb'_eq_self]

end
end Rv32.Compressed
