/-
# `Rv32.Proofs.Instruction.Arithmetic` — products and quotients of whole numbers

A product of two words has two halves, and there is an operation for each.  The lower half
is the same for all readings of the words; the upper half is not, and there is one operation
for two signed words, one for two unsigned ones and one for one of each.  Together with the
lower half it is the product.

Quotient and remainder go together as they should: the remainder is smaller than the divisor
and has the sign of the dividend.  Two divisions have no such result, that by zero and the
one whose quotient does not fit in a word, and have one of their own.

All this is said of instructions that are executed (`Computes`), on any hart and whatever
registers they name; and none of them panics.
-/
import Mathlib.Algebra.Order.Ring.Abs
import Rv32.Proofs.Checked.Step
import Rv32.Proofs.Register.File

namespace Rv32

/-! ## Products -/

namespace Dword

/-- A double word is made up of its halves. -/
theorem toNat_halves (d : Dword) : 2 ^ 32 * (high d).toNat + (low d).toNat = d.toNat := by
  have bound := d.isLt
  simp only [high, low, BitVec.toNat_setWidth, BitVec.toNat_ushiftRight,
    Nat.shiftRight_eq_div_pow]
  omega

/-- The sign is in the upper half. -/
theorem toInt_halves (d : Dword) : 2 ^ 32 * (high d).toInt + (low d).toNat = d.toInt := by
  have whole := toNat_halves d
  have bound := (low d).isLt
  simp only [BitVec.toInt_eq_toNat_cond]
  split <;> split <;> omega

theorem low_mul (a b : Dword) : low (a * b) = low a * low b :=
  BitVec.setWidth_mul a b (by decide)

theorem low_signExtend (a : Word) : low (a.signExtend 64) = a :=
  BitVec.eq_of_getLsbD_eq fun i hi => by
    rw [low, BitVec.getLsbD_setWidth, BitVec.getLsbD_signExtend]
    simp only [hi, show i < 64 by omega, decide_true, Bool.true_and, if_true]

theorem low_setWidth (a : Word) : low (a.setWidth 64) = a := by
  rw [low, BitVec.setWidth_setWidth_of_le _ (by decide), BitVec.setWidth_eq]

/-- The product of a signed word and one that is signed or not has room for its sign. -/
theorem toInt_mul_of_words {a b : Dword} (first : -2 ^ 31 ≤ a.toInt ∧ a.toInt < 2 ^ 31)
    (second : -2 ^ 32 < b.toInt ∧ b.toInt < 2 ^ 32) : (a * b).toInt = a.toInt * b.toInt := by
  have bound : |a.toInt * b.toInt| < 2 ^ 63 := by
    calc |a.toInt * b.toInt| = |a.toInt| * |b.toInt| := abs_mul _ _
      _ ≤ 2 ^ 31 * (2 ^ 32 - 1) := by
        refine mul_le_mul (abs_le.mpr ⟨first.1, by omega⟩) (abs_le.mpr ⟨by omega, by omega⟩)
          (abs_nonneg _) (by decide)
      _ < 2 ^ 63 := by decide
  obtain ⟨least, greatest⟩ := abs_lt.mp bound
  rw [BitVec.toInt_mul]
  exact Int.bmod_eq_of_le (by omega) (by omega)

/-- An unsigned word, as a signed double word. -/
theorem toInt_setWidth (a : Word) : (a.setWidth 64).toInt = a.toNat := by
  have bound := a.isLt
  rw [BitVec.toInt_eq_toNat_cond, BitVec.toNat_setWidth_of_le (by decide), if_pos (by omega)]

end Dword

section
variable (a b : Word)

theorem mulh_mul :
    2 ^ 32 * (RegOp.mulh.apply a b).toInt + (RegOp.mul.apply a b).toNat = a.toInt * b.toInt := by
  have signed (w : Word) : (w.signExtend 64).toInt = w.toInt :=
    BitVec.toInt_signExtend_of_le (by decide)
  have word (w : Word) : -2 ^ 31 ≤ w.toInt ∧ w.toInt < 2 ^ 31 := ⟨w.le_toInt, w.toInt_lt⟩
  have whole := Dword.toInt_halves (a.signExtend 64 * b.signExtend 64)
  rw [Dword.low_mul, Dword.low_signExtend, Dword.low_signExtend,
    Dword.toInt_mul_of_words (by rw [signed]; exact word a)
      (by have := word b; rw [signed]; omega), signed, signed] at whole
  exact whole

theorem mulhsu_mul :
    2 ^ 32 * (RegOp.mulhsu.apply a b).toInt + (RegOp.mul.apply a b).toNat =
      a.toInt * b.toNat := by
  have signed : (a.signExtend 64).toInt = a.toInt := BitVec.toInt_signExtend_of_le (by decide)
  have bound := b.isLt
  have whole := Dword.toInt_halves (a.signExtend 64 * b.setWidth 64)
  rw [Dword.low_mul, Dword.low_signExtend, Dword.low_setWidth,
    Dword.toInt_mul_of_words (by rw [signed]; exact ⟨a.le_toInt, a.toInt_lt⟩)
      (by rw [Dword.toInt_setWidth]; omega), signed, Dword.toInt_setWidth] at whole
  exact whole

theorem mulhu_mul :
    2 ^ 32 * (RegOp.mulhu.apply a b).toNat + (RegOp.mul.apply a b).toNat =
      a.toNat * b.toNat := by
  have room : a.toNat * b.toNat < 2 ^ 64 := by
    calc a.toNat * b.toNat < 2 ^ 32 * 2 ^ 32 := Nat.mul_lt_mul'' a.isLt b.isLt
      _ = 2 ^ 64 := by norm_num
  have product : (a.setWidth 64 * b.setWidth 64).toNat = a.toNat * b.toNat := by
    rw [BitVec.toNat_mul, BitVec.toNat_setWidth_of_le (by decide),
      BitVec.toNat_setWidth_of_le (by decide), Nat.mod_eq_of_lt room]
  have whole := Dword.toNat_halves (a.setWidth 64 * b.setWidth 64)
  rw [Dword.low_mul, Dword.low_setWidth, Dword.low_setWidth, product] at whole
  exact whole

/-! ## Quotients -/

/-- The one quotient that does not fit. -/
theorem div_least : RegOp.div.apply (BitVec.intMin 32) (-1#32) = BitVec.intMin 32 ∧
    RegOp.rem.apply (BitVec.intMin 32) (-1#32) = 0 := by decide

theorem div_zero : RegOp.div.apply a 0 = BitVec.allOnes 32 ∧ RegOp.rem.apply a 0 = a ∧
    RegOp.divu.apply a 0 = BitVec.allOnes 32 ∧ RegOp.remu.apply a 0 = a :=
  ⟨rfl, rfl, rfl, rfl⟩

variable {a b}

theorem div_mul_add_rem (divisor : b ≠ 0) (fits : a ≠ BitVec.intMin 32 ∨ b ≠ -1#32) :
    (RegOp.div.apply a b).toInt * b.toInt + (RegOp.rem.apply a b).toInt = a.toInt := by
  rw [RegOp.apply, if_neg divisor, RegOp.apply, if_neg divisor,
    BitVec.toInt_sdiv_of_ne_or_ne a b fits, BitVec.toInt_srem]
  exact Int.tdiv_mul_add_tmod _ _

theorem rem_bounds (divisor : b ≠ 0) :
    |(RegOp.rem.apply a b).toInt| < |b.toInt| ∧
      ((RegOp.rem.apply a b).toInt = 0 ∨
        (RegOp.rem.apply a b).toInt.sign = a.toInt.sign) := by
  have nonzero : b.toInt ≠ 0 := fun zero => divisor (BitVec.eq_of_toInt_eq zero)
  rw [RegOp.apply, if_neg divisor, BitVec.toInt_srem]
  constructor
  · rw [Int.abs_eq_natAbs, Int.abs_eq_natAbs, Int.natAbs_tmod]
    exact Int.ofNat_lt.mpr (Nat.mod_lt _ (Int.natAbs_pos.mpr nonzero))
  · rw [Int.sign_tmod]
    split
    case isTrue divides => exact .inl (Int.tmod_eq_zero_of_dvd divides)
    case isFalse => exact .inr rfl

theorem divu_mul_add_remu (divisor : b ≠ 0) :
    (RegOp.divu.apply a b).toNat * b.toNat + (RegOp.remu.apply a b).toNat = a.toNat ∧
      (RegOp.remu.apply a b).toNat < b.toNat := by
  have positive : 0 < b.toNat := Nat.pos_of_ne_zero fun zero => divisor (BitVec.eq_of_toNat_eq zero)
  rw [RegOp.apply, if_neg divisor, RegOp.apply, if_neg divisor, BitVec.toNat_udiv,
    BitVec.toNat_umod]
  exact ⟨Nat.div_add_mod' _ _, Nat.mod_lt _ positive⟩

end

/-! ## Executed instructions -/

/-- Executing an operation on registers that hold `a` and `b` gives `r`.  On any hart and
whatever the registers are, the instruction completes without a panic, has `r` in its
destination, unless that is the register that reads zero, and leaves the other registers and
memory alone. -/
def Computes (op : RegOp) (a b r : Word) : Prop :=
  ∀ (h : Hart) (rd rs1 rs2 : Reg) (bits : Word) (length : Instruction.Length) (mmu : Mmu),
    h.registers.x rs1 = a → h.registers.x rs2 = b →
    ∃ after, h.execute (.opReg op rd rs1 rs2) bits length mmu = (.ok .proceed, after, mmu) ∧
      (∀ caches, Checked.execute caches h bits length (.opReg op rd rs1 rs2) mmu =
        .ok (.ok (after, .proceed), mmu)) ∧
      ∀ q, after.registers.x q = if q = rd ∧ rd ≠ Reg.zero then r else h.registers.x q

theorem computes_apply (op : RegOp) (a b : Word) : Computes op a b (op.apply a b) := by
  rintro h rd rs1 rs2 bits length mmu rfl rfl
  have checked := Checked.operate_eq op (h.registers.x rs1) (h.registers.x rs2)
  refine ⟨h.finish length rd (op.apply _ _), rfl, fun caches => ?_, ?_⟩
  · simp only [Checked.execute, checked]
    rfl
  · exact fun q => RegisterFile.x_setX h.registers rd q _

/-- The operations on two words compute what integer arithmetic says: the halves of the three
products, and the quotients and remainders, with the results of a division by zero and of the
one whose quotient does not fit. -/
theorem multiplication_division_exact (a b : Word) :
    (∀ op : RegOp, Computes op a b (op.apply a b)) ∧
    2 ^ 32 * (RegOp.mulh.apply a b).toInt + (RegOp.mul.apply a b).toNat =
      a.toInt * b.toInt ∧
    2 ^ 32 * (RegOp.mulhsu.apply a b).toInt + (RegOp.mul.apply a b).toNat =
      a.toInt * b.toNat ∧
    2 ^ 32 * (RegOp.mulhu.apply a b).toNat + (RegOp.mul.apply a b).toNat =
      a.toNat * b.toNat ∧
    (b ≠ 0 → ¬(a.toInt = -2 ^ 31 ∧ b.toInt = -1) →
      (RegOp.div.apply a b).toInt * b.toInt + (RegOp.rem.apply a b).toInt = a.toInt ∧
      |(RegOp.rem.apply a b).toInt| < |b.toInt| ∧
      ((RegOp.rem.apply a b).toInt = 0 ∨
        (RegOp.rem.apply a b).toInt.sign = a.toInt.sign)) ∧
    (b ≠ 0 →
      (RegOp.divu.apply a b).toNat * b.toNat + (RegOp.remu.apply a b).toNat = a.toNat ∧
      (RegOp.remu.apply a b).toNat < b.toNat) ∧
    (b = 0 →
      RegOp.div.apply a b = BitVec.allOnes 32 ∧ RegOp.rem.apply a b = a ∧
      RegOp.divu.apply a b = BitVec.allOnes 32 ∧ RegOp.remu.apply a b = a) ∧
    (a.toInt = -2 ^ 31 → b.toInt = -1 →
      (RegOp.div.apply a b).toInt = -2 ^ 31 ∧ (RegOp.rem.apply a b).toInt = 0) := by
  have least : (BitVec.intMin 32).toInt = -2 ^ 31 := by decide
  have minusOne : (-1#32).toInt = -1 := by decide
  refine ⟨fun op => computes_apply op a b, mulh_mul a b, mulhsu_mul a b, mulhu_mul a b,
    fun divisor fits => ?signed, divu_mul_add_remu, ?zero, fun dividend divisor => ?least⟩
  case signed =>
    refine ⟨div_mul_add_rem divisor ?_, rem_bounds divisor⟩
    by_contra large
    obtain ⟨rfl, rfl⟩ := not_or.mp large |>.imp not_not.mp not_not.mp
    exact fits ⟨least, minusOne⟩
  case zero =>
    rintro rfl
    exact div_zero a
  case least =>
    obtain rfl : a = BitVec.intMin 32 := BitVec.eq_of_toInt_eq (dividend.trans least.symm)
    obtain rfl : b = -1#32 := BitVec.eq_of_toInt_eq (divisor.trans minusOne.symm)
    obtain ⟨quotient, remainder⟩ := div_least
    exact ⟨by rw [quotient, least], by rw [remainder]; rfl⟩

end Rv32
