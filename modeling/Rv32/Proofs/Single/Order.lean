/-
# `Rv32.Proofs.Single.Order` — the smaller, the larger, and comparisons

Comparisons go by value, infinities being the ends (`extended`).  The smaller and the larger of
two singles go by an order that also tells the zeros apart (`Before`), and in which the patterns
that are no NaNs are a chain (`Number`).  In it they are minimum and maximum, with the laws that
these have anywhere.

What is computed looks at patterns: `valueRank` and `rank` count them, and count them as the
values are ordered.  A host that picks the zeros by hand and compares by value picks the same.
-/
import Mathlib.Data.Multiset.ZeroCons
import Mathlib.Order.WithBot
import Rv32.Proofs.Single.Convert

namespace Rv32.Single

/-! ## Values -/

/-- The value of a pattern that is no NaN, with infinities at the ends. -/
def extended (b : Word) : WithBot (WithTop ℚ) :=
  if isInfinite b then if sign b then ⊥ else (⊤ : WithTop ℚ) else (value b : WithTop ℚ)

/-- Units grow with the pattern, on either side of zero. -/
theorem units_lt_iff (a b : Word) : units a < units b ↔ valueRank a < valueRank b := by
  have zero : unitsAt 0 = 0 := rfl
  have grow := strictMono_unitsAt.lt_iff_lt (a := magnitude a) (b := magnitude b)
  have grow' := strictMono_unitsAt.lt_iff_lt (a := magnitude b) (b := magnitude a)
  have some := strictMono_unitsAt.lt_iff_lt (a := 0) (b := magnitude a)
  have some' := strictMono_unitsAt.lt_iff_lt (a := 0) (b := magnitude b)
  rw [zero] at some some'
  simp only [units, valueRank, ← unitsAt_magnitude]
  cases sign a <;> cases sign b <;> simp only [if_true, if_false, Bool.false_eq_true] <;> omega

theorem value_lt_iff (a b : Word) : value a < value b ↔ valueRank a < valueRank b := by
  rw [value_eq, value_eq, div_lt_div_iff_of_pos_right (Nat.cast_pos.mpr unitsPerOne_pos),
    Int.cast_lt, units_lt_iff]

/-- The ranks of infinities are the ends of all ranks. -/
theorem valueRank_bounds {b : Word} (finite : IsFinite b) :
    -(infiniteMagnitude : ℤ) < valueRank b ∧ valueRank b < infiniteMagnitude := by
  have bound := isFinite_iff.mp finite
  unfold valueRank
  split <;> omega

theorem valueRank_of_isInfinite {b : Word} (infinite : isInfinite b = true) :
    valueRank b = if sign b then -(infiniteMagnitude : ℤ) else infiniteMagnitude := by
  rw [isInfinite, beq_iff_eq] at infinite
  rw [valueRank, infinite]

/-- Patterns that are no NaNs are ordered by value as they are counted. -/
theorem extended_lt_iff {a b : Word} (number : isNaN a = false) (number' : isNaN b = false) :
    extended a < extended b ↔ valueRank a < valueRank b := by
  unfold extended
  cases infinite : isInfinite a with
  | true =>
    cases infinite' : isInfinite b with
    | true =>
      rw [valueRank_of_isInfinite infinite, valueRank_of_isInfinite infinite']
      cases sign a <;> cases sign b <;> simp [infiniteMagnitude]
    | false =>
      have bounds := valueRank_bounds ⟨number', infinite'⟩
      rw [valueRank_of_isInfinite infinite]
      cases sign a with
      | true => exact iff_of_true (WithBot.bot_lt_coe _) bounds.1
      | false => exact iff_of_false (WithBot.coe_le_coe.mpr le_top).not_gt bounds.2.not_gt
  | false =>
    have bounds := valueRank_bounds ⟨number, infinite⟩
    cases infinite' : isInfinite b with
    | true =>
      rw [valueRank_of_isInfinite infinite']
      cases sign b with
      | true => exact iff_of_false not_lt_bot bounds.1.not_gt
      | false => exact iff_of_true (WithBot.coe_lt_coe.mpr (WithTop.coe_lt_top _)) bounds.2
    | false =>
      simp only [if_false, Bool.false_eq_true, WithBot.coe_lt_coe, WithTop.coe_lt_coe]
      exact value_lt_iff a b

theorem extended_le_iff {a b : Word} (number : isNaN a = false) (number' : isNaN b = false) :
    extended a ≤ extended b ↔ valueRank a ≤ valueRank b := by
  rw [← not_lt, ← not_lt, extended_lt_iff number' number]

theorem extended_eq_iff {a b : Word} (number : isNaN a = false) (number' : isNaN b = false) :
    extended a = extended b ↔ valueRank a = valueRank b := by
  rw [le_antisymm_iff, le_antisymm_iff, extended_le_iff number number',
    extended_le_iff number' number]

/-! ## Comparisons -/

theorem compare_of_isNaN {a b : Word} (nan : isNaN a = true ∨ isNaN b = true)
    (op : FloatCompare) : compare op a b = false := by
  unfold compare
  rcases nan with first | second
  · rw [first, Bool.not_true, Bool.false_and, Bool.false_and]
  · rw [second, Bool.not_true, Bool.and_false, Bool.false_and]

theorem compare_lt_iff {a b : Word} (number : isNaN a = false) (number' : isNaN b = false) :
    compare .lt a b = true ↔ extended a < extended b := by
  simp only [compare, number, number', extended_lt_iff, Bool.not_false, Bool.true_and,
    decide_eq_true_eq]

theorem compare_le_iff {a b : Word} (number : isNaN a = false) (number' : isNaN b = false) :
    compare .le a b = true ↔ extended a ≤ extended b := by
  simp only [compare, number, number', extended_le_iff, Bool.not_false, Bool.true_and,
    decide_eq_true_eq]

theorem compare_eq_iff {a b : Word} (number : isNaN a = false) (number' : isNaN b = false) :
    compare .eq a b = true ↔ extended a = extended b := by
  simp only [compare, number, number', extended_eq_iff, Bool.not_false, Bool.true_and,
    decide_eq_true_eq]

/-! ## The chain of numbers -/

/-- By value, and the negative zero before the positive one. -/
def Before (a b : Word) : Prop := extended a < extended b ∨ a = zero true ∧ b = zero false

theorem before_iff {a b : Word} (number : isNaN a = false) (number' : isNaN b = false) :
    Before a b ↔ rank a < rank b := by
  rw [Before, extended_lt_iff number number', Arithmetic.rank_lt_iff, or_comm]
  refine or_congr_right ⟨fun less => ⟨?_, less⟩, And.right⟩
  rintro ⟨rfl, rfl⟩
  exact absurd less (by decide)

theorem not_before_self (a : Word) : ¬Before a a := by
  rintro (less | ⟨rfl, zeros⟩)
  · exact lt_irrefl _ less
  · exact absurd zeros (by decide)

theorem Before.le {a b : Word} (before : Before a b) : extended a ≤ extended b := by
  rcases before with less | ⟨rfl, rfl⟩
  · exact less.le
  · exact ((extended_eq_iff (by decide) (by decide)).mpr (by decide)).le

theorem rank_injective : Function.Injective rank := by
  intro a b same
  have parts : sign a = sign b ∧ magnitude a = magnitude b := by
    revert same
    unfold rank
    cases sign a <;> cases sign b <;>
      simp only [if_true, if_false, Bool.false_eq_true, Bool.true_eq_false, true_and,
        false_and] <;> omega
  rw [← ofParts_self a, ← ofParts_self b, parts.1, parts.2]

/-- A pattern that is no NaN. -/
structure Number where
  bits : Word
  isNumber : isNaN bits = false

namespace Number

theorem rank_injective : Function.Injective fun x : Number => rank x.bits := by
  rintro ⟨a, number⟩ ⟨b, number'⟩ same
  obtain rfl : a = b := Single.rank_injective same
  rfl

instance : LinearOrder Number := LinearOrder.lift' (fun x => rank x.bits) rank_injective

theorem lt_iff {x y : Number} : x < y ↔ Before x.bits y.bits :=
  (before_iff x.isNumber y.isNumber).symm

theorem choose_numbers (first : Int → Int → Bool) (x y : Number) :
    choose first x.bits y.bits =
      if first (rank x.bits) (rank y.bits) then x.bits else y.bits := by
  rw [choose, x.isNumber, y.isNumber, if_neg Bool.false_ne_true, if_neg Bool.false_ne_true]

theorem lesser_eq_min (x y : Number) : lesser x.bits y.bits = (min x y).bits := by
  rw [lesser, choose_numbers]
  rcases lt_or_ge x y with less | other
  · rw [min_eq_left less.le]
    exact if_pos (decide_eq_true less)
  · rw [min_eq_right other]
    exact if_neg fun less => not_lt.mpr other (of_decide_eq_true less)

theorem greater_eq_max (x y : Number) : greater x.bits y.bits = (max x y).bits := by
  rw [greater, choose_numbers]
  rcases lt_or_ge y x with more | other
  · rw [max_eq_left more.le]
    exact if_pos (decide_eq_true more)
  · rw [max_eq_right other]
    exact if_neg fun more => not_lt.mpr other (of_decide_eq_true more)

end Number

/-! ## The smaller and the larger -/

theorem lesser_greater_of_nan {a b : Word} (nan : isNaN a = true) (number : isNaN b = false) :
    lesser a b = b ∧ greater a b = b ∧ lesser b a = b ∧ greater b a = b := by
  simp only [lesser, greater, choose, nan, number, if_true, if_false, Bool.false_eq_true, and_self]

theorem lesser_greater_of_nans {a b : Word} (nan : isNaN a = true) (nan' : isNaN b = true) :
    lesser a b = canonicalNaN ∧ greater a b = canonicalNaN := by
  simp only [lesser, greater, choose, nan, nan', if_true, and_self]

theorem lesser_greater_comm (a b : Word) : lesser a b = lesser b a ∧ greater a b = greater b a := by
  cases number : isNaN a with
  | true =>
    cases number' : isNaN b with
    | true =>
      obtain ⟨least, greatest⟩ := lesser_greater_of_nans number number'
      obtain ⟨least', greatest'⟩ := lesser_greater_of_nans number' number
      exact ⟨least.trans least'.symm, greatest.trans greatest'.symm⟩
    | false =>
      obtain ⟨least, greatest, least', greatest'⟩ := lesser_greater_of_nan number number'
      exact ⟨least.trans least'.symm, greatest.trans greatest'.symm⟩
  | false =>
    cases number' : isNaN b with
    | true =>
      obtain ⟨least, greatest, least', greatest'⟩ := lesser_greater_of_nan number' number
      exact ⟨least'.trans least.symm, greatest'.trans greatest.symm⟩
    | false =>
      let x : Number := ⟨a, number⟩
      let y : Number := ⟨b, number'⟩
      constructor
      · rw [x.lesser_eq_min y, y.lesser_eq_min x, min_comm]
      · rw [x.greater_eq_max y, y.greater_eq_max x, max_comm]

theorem lesser_greater_of_numbers {a b : Word} (number : isNaN a = false)
    (number' : isNaN b = false) :
    ¬Before b a ∧ lesser a b = a ∧ greater a b = b ∨
      Before b a ∧ lesser a b = b ∧ greater a b = a := by
  let x : Number := ⟨a, number⟩
  let y : Number := ⟨b, number'⟩
  rw [x.lesser_eq_min y, x.greater_eq_max y]
  rcases lt_or_ge y x with less | other
  · exact .inr ⟨Number.lt_iff.mp less, congrArg _ (min_eq_right less.le),
      congrArg _ (max_eq_left less.le)⟩
  · exact .inl ⟨fun before => not_lt.mpr other (Number.lt_iff.mpr before),
      congrArg _ (min_eq_left other), congrArg _ (max_eq_right other)⟩

theorem extended_lesser_le {a b : Word} (number : isNaN a = false) (number' : isNaN b = false) :
    extended (lesser a b) ≤ extended (greater a b) := by
  rcases lesser_greater_of_numbers number number' with
    ⟨before, least, greatest⟩ | ⟨before, least, greatest⟩
  · rw [least, greatest]
    exact not_lt.mp fun less => before (.inl less)
  · rw [least, greatest]
    exact before.le

theorem isNaN_lesser_greater {a b : Word} (number : isNaN a = false) (number' : isNaN b = false) :
    isNaN (lesser a b) = false ∧ isNaN (greater a b) = false := by
  rcases lesser_greater_of_numbers number number' with ⟨-, least, greatest⟩ | ⟨-, least, greatest⟩
  · rw [least, greatest]
    exact ⟨number, number'⟩
  · rw [least, greatest]
    exact ⟨number', number⟩

/-! ## A host's choice -/

namespace Arithmetic

variable {A : Arithmetic}

/-- A host is asked which of two numbers is less, and says what their values say. -/
def Compares (A : Arithmetic) : Prop :=
  ∀ a b, isNaN a = false → isNaN b = false → (A.compare .lt a b = true ↔ extended a < extended b)

theorem Compares.less (compares : A.Compares) {a b : Word} (number : ¬isNaN a = true)
    (number' : ¬isNaN b = true) : A.compare .lt a b = true ↔ valueRank a < valueRank b := by
  rw [Bool.not_eq_true] at number number'
  rw [compares a b number number', extended_lt_iff number number']

theorem compares_exact : exact.Compares := fun _ _ number number' => compare_lt_iff number number'

end Arithmetic

/-! ## The laws -/

/-- Any two numbers are the same, or one is before the other. -/
structure Chain (a b c : Word) : Prop where
  irrefl : ¬Before a a
  trans : isNaN a = false → isNaN b = false → isNaN c = false →
    Before a b → Before b c → Before a c
  total : isNaN a = false → isNaN b = false → a ≠ b → Before a b ∨ Before b a

/-- The smaller and the larger of two singles. -/
structure Extremes (a b c : Word) : Prop where
  /-- They are the one that is before and the one that is not. -/
  numbers : isNaN a = false → isNaN b = false →
    ¬Before b a ∧ lesser a b = a ∧ greater a b = b ∨ Before b a ∧ lesser a b = b ∧ greater a b = a
  both : isNaN a = false → isNaN b = false → ({lesser a b, greater a b} : Multiset Word) = {a, b}
  /-- A NaN is passed over, on either side. -/
  nan : isNaN a = true → isNaN b = false →
    lesser a b = b ∧ greater a b = b ∧ lesser b a = b ∧ greater b a = b
  nans : isNaN a = true → isNaN b = true → lesser a b = 0x7FC00000 ∧ greater a b = 0x7FC00000
  comm : lesser a b = lesser b a ∧ greater a b = greater b a
  idem : isNaN a = false → lesser a a = a ∧ greater a a = a
  assoc : isNaN a = false → isNaN b = false → isNaN c = false →
    lesser (lesser a b) c = lesser a (lesser b c) ∧
      greater (greater a b) c = greater a (greater b c)
  absorb : isNaN a = false → isNaN b = false →
    lesser a (greater a b) = a ∧ greater a (lesser a b) = a

/-- What comparisons leave in a register. -/
structure Comparisons (a b : Word) : Prop where
  values : isNaN a = false → isNaN b = false →
    (compare .lt a b = true ↔ extended a < extended b) ∧
      (compare .le a b = true ↔ extended a ≤ extended b) ∧
      (compare .eq a b = true ↔ extended a = extended b)
  nan : isNaN a = true ∨ isNaN b = true → ∀ op, Word.ofBool (compare op a b) = 0
  one : isNaN a = false → isNaN b = false →
    [Word.ofBool (compare .lt a b), Word.ofBool (compare .eq a b),
      Word.ofBool (compare .lt b a)].count 1 = 1
  extremes : isNaN a = false → isNaN b = false →
    Word.ofBool (compare .le (lesser a b) (greater a b)) = 1 ∧
      Word.ofBool (compare .lt (greater a b) (lesser a b)) = 0
  zeros : ∀ negative negative', Word.ofBool (compare .eq (zero negative) (zero negative')) = 1

theorem chain (a b c : Word) : Chain a b c where
  irrefl := not_before_self a
  trans number number' number'' := by
    rw [before_iff number number', before_iff number' number'', before_iff number number'']
    exact lt_trans
  total number number' different := by
    rw [before_iff number number', before_iff number' number]
    exact lt_or_gt_of_ne fun same => different (rank_injective same)

theorem comparisons (a b : Word) : Comparisons a b where
  values number number' :=
    ⟨compare_lt_iff number number', compare_le_iff number number', compare_eq_iff number number'⟩
  nan nan op := by
    rw [compare_of_isNaN nan]
    rfl
  one number number' := by
    simp only [compare, number, number', Bool.not_false, Bool.true_and]
    rcases lt_trichotomy (valueRank a) (valueRank b) with less | same | more
    · simp [less, less.ne, less.not_gt, Word.ofBool]
    · simp [same, Word.ofBool]
    · simp [more, more.ne', more.not_gt, Word.ofBool]
  extremes number number' := by
    obtain ⟨least, greatest⟩ := isNaN_lesser_greater number number'
    have ordered := extended_lesser_le number number'
    have below := (compare_le_iff least greatest).mpr ordered
    have above : compare .lt (greater a b) (lesser a b) = false :=
      Bool.eq_false_iff.mpr fun less => ordered.not_gt ((compare_lt_iff greatest least).mp less)
    rw [below, above]
    exact ⟨rfl, rfl⟩
  zeros negative negative' := by
    revert negative negative'
    decide

theorem extremes (a b c : Word) : Extremes a b c where
  numbers := lesser_greater_of_numbers
  both number number' := by
    rcases lesser_greater_of_numbers number number' with ⟨-, least, greatest⟩ | ⟨-, least, greatest⟩
    · rw [least, greatest]
    · rw [least, greatest, Multiset.pair_comm]
  nan := lesser_greater_of_nan
  nans := lesser_greater_of_nans
  comm := lesser_greater_comm a b
  idem number := by
    let x : Number := ⟨a, number⟩
    exact ⟨by rw [x.lesser_eq_min x, min_self], by rw [x.greater_eq_max x, max_self]⟩
  assoc number number' number'' := by
    let x : Number := ⟨a, number⟩
    let y : Number := ⟨b, number'⟩
    let z : Number := ⟨c, number''⟩
    constructor
    · rw [x.lesser_eq_min y, y.lesser_eq_min z, (min x y).lesser_eq_min z,
        x.lesser_eq_min (min y z), min_assoc]
    · rw [x.greater_eq_max y, y.greater_eq_max z, (max x y).greater_eq_max z,
        x.greater_eq_max (max y z), max_assoc]
  absorb number number' := by
    let x : Number := ⟨a, number⟩
    let y : Number := ⟨b, number'⟩
    constructor
    · rw [x.greater_eq_max y, x.lesser_eq_min (max x y), min_eq_left (le_max_left x y)]
    · rw [x.lesser_eq_min y, x.greater_eq_max (min x y), max_eq_left (min_le_left x y)]

/-- The smaller and the larger of two singles are the minimum and the maximum of a chain, with
NaNs passed over, and comparisons agree with them.  This is what instructions leave in registers,
and what a host picks that compares by value. -/
theorem lesser_greater_lattice (a b c : Word) :
    Chain a b c ∧ Extremes a b c ∧ Comparisons a b ∧
      (∀ (h : Hart) (rd rs1 rs2 : Reg) (bits : Word) (length : Instruction.Length) (mmu : Mmu),
        h.registers.single rs1 = a → h.registers.single rs2 = b →
          h.execute (.floatPick .min rd rs1 rs2) bits length mmu =
            (.ok .proceed, h.finishSingle length rd (lesser a b), mmu) ∧
          h.execute (.floatPick .max rd rs1 rs2) bits length mmu =
            (.ok .proceed, h.finishSingle length rd (greater a b), mmu) ∧
          ∀ op, h.execute (.floatCompare op rd rs1 rs2) bits length mmu =
            (.ok .proceed, h.finish length rd (Word.ofBool (compare op a b)), mmu)) ∧
      ∀ A : Arithmetic, A.Compares →
        A.pick .min a b = lesser a b ∧ A.pick .max a b = greater a b := by
  refine ⟨chain a b c, extremes a b c, comparisons a b, ?_,
    fun A compares =>
      ⟨Arithmetic.pick_min compares.less a b, Arithmetic.pick_max compares.less a b⟩⟩
  rintro h rd rs1 rs2 bits length mmu rfl rfl
  exact ⟨rfl, rfl, fun op => rfl⟩

/-- The zeros, in either order, for a host that compares by value. -/
theorem lesser_greater_lattice_of_zeros :
    Arithmetic.exact.Compares ∧ isNaN 0 = false ∧ isNaN 0x80000000 = false ∧
      lesser 0 0x80000000 = lesser 0x80000000 0 ∧
      Arithmetic.exact.pick .min 0 0x80000000 = 0x80000000 ∧
      Arithmetic.exact.pick .max 0 0x80000000 = 0 := by
  obtain ⟨-, extremes, -, -, host⟩ := lesser_greater_lattice 0 0x80000000 0
  obtain ⟨least, greatest⟩ := host .exact Arithmetic.compares_exact
  exact ⟨Arithmetic.compares_exact, rfl, rfl, extremes.comm.1, least.trans (by decide),
    greatest.trans (by decide)⟩

end Rv32.Single
