/-
# `Rv32.Proofs.Instruction.Layout` — where the pieces of an instruction word go

The layouts of 32-bit instructions, each as the row of fields that it is, from the highest
bit to the lowest.  An immediate is given by the number it stands for, and the layout says
which of its bits go where; bits are counted as in that number, so those of a branch offset
begin with bit 1.

For each layout there is a lemma `eq_…_iff`: a word has the layout with given fields if and
only if these are what its fields read, with the scattered pieces of an immediate put
together again.  Assembling lays fields out and decoding reads them, so these lemmas are
all that the two have to do with bits.
-/
import Mathlib.Algebra.Group.Int.Defs
import Mathlib.Algebra.Group.Nat.Defs
import Rv32.Instruction.Fields

namespace Rv32

open BitVec Instruction Rv32.Field

/-! ## Layouts -/

namespace Layout

/-- Two source registers. -/
def r (funct7 : BitVec 7) (rs2 rs1 : Reg) (funct3 : BitVec 3) (rd : Reg) (opcode : BitVec 7) :
    Word :=
  funct7 ++ rs2 ++ rs1 ++ funct3 ++ rd ++ opcode

/-- Three source registers, and the format of what is in them. -/
def r4 (rs3 : Reg) (format : BitVec 2) (rs2 rs1 : Reg) (funct3 : BitVec 3) (rd : Reg)
    (opcode : BitVec 7) : Word :=
  rs3 ++ format ++ rs2 ++ rs1 ++ funct3 ++ rd ++ opcode

/-- Atomic operations.  The two bits of `ordering` are acquire and release. -/
def amo (funct5 : BitVec 5) (ordering : BitVec 2) (rs2 rs1 : Reg) (funct3 : BitVec 3) (rd : Reg)
    (opcode : BitVec 7) : Word :=
  funct5 ++ ordering ++ rs2 ++ rs1 ++ funct3 ++ rd ++ opcode

/-- A control register.  The source is a register, or the operand itself. -/
def csr (csr : Csr) (source : BitVec 5) (funct3 : BitVec 3) (rd : Reg) (opcode : BitVec 7) :
    Word :=
  csr ++ source ++ funct3 ++ rd ++ opcode

/-- An immediate of twelve bits in place of the second source register. -/
def i (imm : Word) (rs1 : Reg) (funct3 : BitVec 3) (rd : Reg) (opcode : BitVec 7) : Word :=
  imm.extractLsb' 0 12 ++ rs1 ++ funct3 ++ rd ++ opcode

/-- An immediate of twelve bits in place of the destination. -/
def s (imm : Word) (rs2 rs1 : Reg) (funct3 : BitVec 3) (opcode : BitVec 7) : Word :=
  imm.extractLsb' 5 7 ++ rs2 ++ rs1 ++ funct3 ++ imm.extractLsb' 0 5 ++ opcode

/-- The offset of a branch, which is even. -/
def b (offset : Word) (rs2 rs1 : Reg) (funct3 : BitVec 3) (opcode : BitVec 7) : Word :=
  offset.extractLsb' 12 1 ++ offset.extractLsb' 5 6 ++ rs2 ++ rs1 ++ funct3 ++
    offset.extractLsb' 1 4 ++ offset.extractLsb' 11 1 ++ opcode

/-- The upper twenty bits of a number. -/
def u (imm : Word) (rd : Reg) (opcode : BitVec 7) : Word := imm.extractLsb' 12 20 ++ rd ++ opcode

/-- The offset of a jump, which is even. -/
def j (offset : Word) (rd : Reg) (opcode : BitVec 7) : Word :=
  offset.extractLsb' 20 1 ++ offset.extractLsb' 1 10 ++ offset.extractLsb' 11 1 ++
    offset.extractLsb' 12 8 ++ rd ++ opcode

end Layout

/-! ## The bits of operands

The pieces of a number that a layout takes are pieces of the operand that stands for it. -/

theorem extractLsb'_signExtend {n m start len : Nat} (x : BitVec n) (inside : start + len ≤ n)
    (wider : n ≤ m) : (x.signExtend m).extractLsb' start len = x.extractLsb' start len := by
  apply BitVec.eq_of_getLsbD_eq
  intro k hk
  have hn : start + k < n := by omega
  have hm : start + k < m := by omega
  simp only [getLsbD_extractLsb', getLsbD_signExtend, hn, hm, if_true, decide_true, Bool.true_and]

theorem extractLsb'_immediate {start len : Nat} (inside : start + len ≤ 12) (imm : BitVec 12) :
    (immediate imm).extractLsb' start len = imm.extractLsb' start len :=
  extractLsb'_signExtend imm inside (by omega)

theorem extractLsb'_upper (imm : BitVec 20) : (upper imm).extractLsb' 12 20 = imm :=
  extractLsb'_append_eq_left

theorem extractLsb'_branchOffset {start len : Nat} (inside : start + len ≤ 12)
    (offset : BitVec 12) :
    (branchOffset offset).extractLsb' (start + 1) len = offset.extractLsb' start len := by
  rw [branchOffset, extractLsb'_signExtend _ (by omega) (by omega),
    extractLsb'_append_eq_of_le (by omega), Nat.add_sub_cancel]

theorem extractLsb'_jumpOffset {start len : Nat} (inside : start + len ≤ 20)
    (offset : BitVec 20) :
    (jumpOffset offset).extractLsb' (start + 1) len = offset.extractLsb' start len := by
  rw [jumpOffset, extractLsb'_signExtend _ (by omega) (by omega),
    extractLsb'_append_eq_of_le (by omega), Nat.add_sub_cancel]

/-! ## The numbers that operands stand for

An operand has as many bits as the layout has room for, so that every one of its values has a
word.  These are all the numbers in the range of the layout. -/

theorem exists_signExtend_iff {n : Nat} (positive : 0 < n) (narrow : n ≤ 32) {x : Word} :
    (∃ b : BitVec n, b.signExtend 32 = x) ↔ -2 ^ (n - 1) ≤ x.toInt ∧ x.toInt < 2 ^ (n - 1) := by
  constructor
  · rintro ⟨b, rfl⟩
    rw [toInt_signExtend_of_le narrow]
    exact ⟨b.le_toInt, b.toInt_lt⟩
  · rintro ⟨low, high⟩
    refine ⟨.ofInt n x.toInt, BitVec.eq_of_toInt_eq ?_⟩
    rw [toInt_signExtend_of_le narrow, toInt_ofInt_eq_self positive low high]

theorem exists_signExtend_append_iff {n : Nat} (positive : 0 < n) (narrow : n < 32) {x : Word} :
    (∃ b : BitVec n, (b ++ 0#1).signExtend 32 = x) ↔
      2 * -2 ^ (n - 1) ≤ x.toInt ∧ x.toInt < 2 * 2 ^ (n - 1) ∧ 2 ∣ x.toInt := by
  have toInt_double (b : BitVec n) : ((b ++ 0#1).signExtend 32).toInt = 2 * b.toInt := by
    rw [toInt_signExtend_of_le (by omega), toInt_append, if_neg (by simp; omega)]
    simp
  constructor
  · rintro ⟨b, rfl⟩
    rw [toInt_double]
    exact ⟨Int.mul_le_mul_of_nonneg_left b.le_toInt (by omega),
      Int.mul_lt_mul_of_pos_left b.toInt_lt (by omega), Int.dvd_mul_right 2 _⟩
  · rintro ⟨low, high, k, even⟩
    refine ⟨.ofInt n k, BitVec.eq_of_toInt_eq ?_⟩
    rw [toInt_double, even, toInt_ofInt_eq_self positive (by omega) (by omega)]

theorem exists_immediate_iff {x : Word} :
    (∃ imm, immediate imm = x) ↔ -2048 ≤ x.toInt ∧ x.toInt < 2048 :=
  exists_signExtend_iff (by omega) (by omega)

theorem exists_branchOffset_iff {x : Word} :
    (∃ offset, branchOffset offset = x) ↔ -4096 ≤ x.toInt ∧ x.toInt < 4096 ∧ 2 ∣ x.toInt :=
  exists_signExtend_append_iff (by omega) (by omega)

theorem exists_jumpOffset_iff {x : Word} :
    (∃ offset, jumpOffset offset = x) ↔ -1048576 ≤ x.toInt ∧ x.toInt < 1048576 ∧ 2 ∣ x.toInt :=
  exists_signExtend_append_iff (by omega) (by omega)

theorem exists_upper_iff {x : Word} : (∃ imm, upper imm = x) ↔ x.extractLsb' 0 12 = 0 := by
  constructor
  · rintro ⟨imm, rfl⟩
    exact extractLsb'_append_eq_right
  · intro low
    refine ⟨x.extractLsb' 12 20, ?_⟩
    rw [upper, ← BitVec.ofNat_eq_ofNat, ← low]
    simp only [extractLsb'_append_extractLsb'_eq_extractLsb', extractLsb'_eq_self]

/-! ## Words and their fields

One way round, a piece of a row is a piece of one of its fields.  The other way round,
pieces of a word that are next to each other are one piece, and all of them are the word. -/

section
variable {w : Word} {code7 op : BitVec 7} {code5 source : BitVec 5} {code3 : BitVec 3}
  {code2 : BitVec 2} {a₃ a₂ a₁ d : Reg}

theorem eq_r_iff :
    w = Layout.r code7 a₂ a₁ code3 d op ↔
      funct7 w = code7 ∧ rs2 w = a₂ ∧ rs1 w = a₁ ∧ funct3 w = code3 ∧ rd w = d ∧ opcode w = op := by
  unfold Layout.r funct7 rs2 rs1 funct3 rd opcode
  constructor
  · rintro rfl
    simp (disch := omega) only [extractLsb'_append_eq_of_le, extractLsb'_append_eq_of_add_le,
      extractLsb'_eq_self, Nat.reduceSub, true_and]
  · rintro ⟨rfl, rfl, rfl, rfl, rfl, rfl⟩
    simp only [extractLsb'_append_extractLsb'_eq_extractLsb', extractLsb'_eq_self]

theorem eq_r4_iff :
    w = Layout.r4 a₃ code2 a₂ a₁ code3 d op ↔
      rs3 w = a₃ ∧ format w = code2 ∧ rs2 w = a₂ ∧ rs1 w = a₁ ∧ funct3 w = code3 ∧ rd w = d ∧
        opcode w = op := by
  unfold Layout.r4 rs3 format rs2 rs1 funct3 rd opcode
  constructor
  · rintro rfl
    simp (disch := omega) only [extractLsb'_append_eq_of_le, extractLsb'_append_eq_of_add_le,
      extractLsb'_eq_self, Nat.reduceSub, true_and]
  · rintro ⟨rfl, rfl, rfl, rfl, rfl, rfl, rfl⟩
    simp only [extractLsb'_append_extractLsb'_eq_extractLsb', extractLsb'_eq_self]

theorem eq_amo_iff :
    w = Layout.amo code5 code2 a₂ a₁ code3 d op ↔
      funct5 w = code5 ∧ format w = code2 ∧ rs2 w = a₂ ∧ rs1 w = a₁ ∧ funct3 w = code3 ∧
        rd w = d ∧ opcode w = op :=
  eq_r4_iff

theorem eq_csr_iff {c : Csr} :
    w = Layout.csr c source code3 d op ↔
      Field.csr w = c ∧ rs1 w = source ∧ funct3 w = code3 ∧ rd w = d ∧ opcode w = op := by
  unfold Layout.csr Field.csr rs1 funct3 rd opcode
  constructor
  · rintro rfl
    simp (disch := omega) only [extractLsb'_append_eq_of_le, extractLsb'_append_eq_of_add_le,
      extractLsb'_eq_self, Nat.reduceSub, true_and]
  · rintro ⟨rfl, rfl, rfl, rfl, rfl⟩
    simp only [extractLsb'_append_extractLsb'_eq_extractLsb', extractLsb'_eq_self]

theorem eq_i_iff {imm : BitVec 12} :
    w = Layout.i (immediate imm) a₁ code3 d op ↔
      immI w = imm ∧ rs1 w = a₁ ∧ funct3 w = code3 ∧ rd w = d ∧ opcode w = op := by
  rw [Layout.i, extractLsb'_immediate (by omega), extractLsb'_eq_self]
  exact eq_csr_iff

theorem eq_s_iff {imm : BitVec 12} :
    w = Layout.s (immediate imm) a₂ a₁ code3 op ↔
      immS w = imm ∧ rs2 w = a₂ ∧ rs1 w = a₁ ∧ funct3 w = code3 ∧ opcode w = op := by
  unfold Layout.s immS rs2 rs1 funct3 opcode
  simp (disch := omega) only [extractLsb'_immediate]
  constructor
  · rintro rfl
    simp (disch := omega) only [extractLsb'_append_eq_of_le, extractLsb'_append_eq_of_add_le,
      extractLsb'_append_extractLsb'_eq_extractLsb', extractLsb'_eq_self, Nat.reduceSub, true_and]
  · rintro ⟨rfl, rfl, rfl, rfl, rfl⟩
    simp (disch := omega) only [extractLsb'_append_eq_of_le, extractLsb'_append_eq_of_add_le,
      extractLsb'_append_extractLsb'_eq_extractLsb', extractLsb'_eq_self, Nat.reduceSub]

theorem eq_b_iff {offset : BitVec 12} :
    w = Layout.b (branchOffset offset) a₂ a₁ code3 op ↔
      immB w = offset ∧ rs2 w = a₂ ∧ rs1 w = a₁ ∧ funct3 w = code3 ∧ opcode w = op := by
  unfold Layout.b immB rs2 rs1 funct3 opcode
  simp (disch := omega) only [extractLsb'_branchOffset]
  constructor
  · rintro rfl
    simp (disch := omega) only [extractLsb'_append_eq_of_le, extractLsb'_append_eq_of_add_le,
      extractLsb'_append_extractLsb'_eq_extractLsb', extractLsb'_eq_self, Nat.reduceSub, true_and]
  · rintro ⟨rfl, rfl, rfl, rfl, rfl⟩
    simp (disch := omega) only [extractLsb'_append_eq_of_le, extractLsb'_append_eq_of_add_le,
      extractLsb'_append_extractLsb'_eq_extractLsb', extractLsb'_eq_self, Nat.reduceSub]

theorem eq_u_iff {imm : BitVec 20} :
    w = Layout.u (upper imm) d op ↔ immU w = imm ∧ rd w = d ∧ opcode w = op := by
  unfold Layout.u immU rd opcode
  rw [extractLsb'_upper]
  constructor
  · rintro rfl
    simp (disch := omega) only [extractLsb'_append_eq_of_le, extractLsb'_append_eq_of_add_le,
      extractLsb'_eq_self, Nat.reduceSub, true_and]
  · rintro ⟨rfl, rfl, rfl⟩
    simp only [extractLsb'_append_extractLsb'_eq_extractLsb', extractLsb'_eq_self]

theorem eq_j_iff {offset : BitVec 20} :
    w = Layout.j (jumpOffset offset) d op ↔ immJ w = offset ∧ rd w = d ∧ opcode w = op := by
  unfold Layout.j immJ rd opcode
  simp (disch := omega) only [extractLsb'_jumpOffset]
  constructor
  · rintro rfl
    simp (disch := omega) only [extractLsb'_append_eq_of_le, extractLsb'_append_eq_of_add_le,
      extractLsb'_append_extractLsb'_eq_extractLsb', extractLsb'_eq_self, Nat.reduceSub, true_and]
  · rintro ⟨rfl, rfl, rfl⟩
    simp (disch := omega) only [extractLsb'_append_eq_of_le, extractLsb'_append_eq_of_add_le,
      extractLsb'_append_extractLsb'_eq_extractLsb', extractLsb'_eq_self, Nat.reduceSub]

end
end Rv32
