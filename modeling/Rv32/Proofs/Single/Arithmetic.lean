/-
# `Rv32.Proofs.Single.Arithmetic` — arithmetic of any host, and its NaNs

What becomes of NaNs does not depend on how singles are added or divided.  So arithmetic is
taken here as whatever functions a host has (`Arithmetic`), and what instructions make of them
is said over these: results of arithmetic with every NaN made canonical, and a choice of the
smaller or larger of two singles that asks the host only where zeros and NaNs do not decide.

Exact arithmetic is such a host.  There is nothing to be made canonical in its results: every
one of them is a number, an infinity or already the canonical NaN (`Clean`).
-/
import Rv32.Single.Arith
import Rv32.Single.Convert
import Rv32.Single.Order

namespace Rv32.Single

/-! ## Patterns and their parts -/

theorem sign_ofParts (negative : Bool) (m : Nat) : sign (ofParts negative m) = negative := by
  rw [sign, ofParts, BitVec.getLsbD_append, if_neg (by decide), BitVec.getLsbD_ofBool]
  rfl

theorem magnitude_ofParts (negative : Bool) {m : Nat} (small : m < 0x80000000) :
    magnitude (ofParts negative m) = m := by
  have low : (ofParts negative m).extractLsb' 0 31 = BitVec.ofNat 31 m := by
    rw [← BitVec.setWidth_eq_extractLsb' (by decide)]
    exact BitVec.setWidth_append_eq_right
  rw [magnitude, low]
  exact Nat.mod_eq_of_lt small

/-- A pattern is its sign and its magnitude. -/
theorem ofParts_self (b : Word) : ofParts (sign b) (magnitude b) = b := by
  refine BitVec.eq_of_getLsbD_eq fun i hi => ?_
  rw [ofParts, magnitude, BitVec.ofNat_toNat, BitVec.setWidth_eq, BitVec.getLsbD_append]
  split
  case isTrue low =>
    rw [BitVec.getLsbD_extractLsb', decide_eq_true low, Bool.true_and, Nat.zero_add]
  case isFalse high =>
    obtain rfl : i = 31 := by omega
    cases h : sign b <;> exact h.symm

theorem eq_zero_iff {b : Word} {negative : Bool} :
    b = zero negative ↔ sign b = negative ∧ magnitude b = 0 := by
  constructor
  · rintro rfl
    exact ⟨sign_ofParts _ _, magnitude_ofParts _ (by decide)⟩
  · rintro ⟨same, none⟩
    rw [← ofParts_self b, same, none]
    rfl

/-! ## Canonical NaNs -/

/-- A pattern that is no NaN, or the canonical one. -/
def Clean (b : Word) : Prop := isNaN b = true → b = canonicalNaN

theorem clean_canonical (b : Word) : Clean (canonical b) := by
  intro nan
  unfold canonical at nan ⊢
  split
  case isTrue => rfl
  case isFalse number =>
    rw [if_neg number] at nan
    exact absurd nan number

theorem Clean.canonical_eq {b : Word} (clean : Clean b) : canonical b = b := by
  unfold canonical
  split
  case isTrue nan => exact (clean nan).symm
  case isFalse => rfl

theorem clean_canonicalNaN : Clean canonicalNaN := fun _ => rfl

theorem clean_of_number {b : Word} (number : ¬isNaN b = true) : Clean b :=
  fun nan => absurd nan number

theorem clean_ofParts (negative : Bool) {m : Nat} (finite : m ≤ infiniteMagnitude) :
    Clean (ofParts negative m) := by
  have small : m < 0x80000000 := Nat.lt_of_le_of_lt finite (by decide)
  refine clean_of_number ?_
  rw [isNaN, magnitude_ofParts negative small, decide_eq_true_eq]
  exact Nat.not_lt.mpr finite

theorem clean_infinity (negative : Bool) : Clean (infinity negative) :=
  clean_ofParts negative (Nat.le_refl _)

theorem clean_zero (negative : Bool) : Clean (zero negative) :=
  clean_ofParts negative (Nat.zero_le _)

/-! ## Exact arithmetic -/

theorem clean_ofRatio (negative : Bool) (num den : Nat) : Clean (ofRatio negative num den) :=
  clean_ofParts negative (Nat.min_le_right _ _)

theorem clean_ofSum (negative₁ negative₂ : Bool) (num : Int) (den : Nat) :
    Clean (ofSum negative₁ negative₂ num den) := by
  unfold ofSum
  split
  · exact clean_zero _
  · exact clean_ofRatio _ _ _

section
variable (a b c : Word)

theorem clean_add : Clean (add a b) := by
  unfold add
  split
  case isTrue => exact clean_canonicalNaN
  case isFalse numbers =>
    rw [Bool.or_eq_true, not_or] at numbers
    split
    case isTrue =>
      split
      · exact clean_canonicalNaN
      · exact clean_of_number numbers.1
    case isFalse =>
      split
      · exact clean_of_number numbers.2
      · exact clean_ofSum _ _ _ _

theorem clean_sub : Clean (sub a b) := by
  unfold sub
  split
  · exact clean_canonicalNaN
  · exact clean_add a (neg b)

theorem clean_mul : Clean (mul a b) := by
  unfold mul
  split
  · exact clean_canonicalNaN
  · split
    · split
      · exact clean_canonicalNaN
      · exact clean_infinity _
    · exact clean_ofRatio _ _ _

theorem clean_div : Clean (div a b) := by
  unfold div
  split
  · exact clean_canonicalNaN
  · split
    · split
      · exact clean_canonicalNaN
      · exact clean_infinity _
    · split
      · exact clean_zero _
      · split
        · split
          · exact clean_canonicalNaN
          · exact clean_infinity _
        · exact clean_ofRatio _ _ _

theorem clean_arith (op : FloatArith) : Clean (arith op a b) := by
  cases op with
  | add => exact clean_add a b
  | sub => exact clean_sub a b
  | mul => exact clean_mul a b
  | div => exact clean_div a b

theorem clean_fusedMulAdd : Clean (fusedMulAdd a b c) := by
  unfold fusedMulAdd
  dsimp only
  split
  case isTrue => exact clean_canonicalNaN
  case isFalse numbers =>
    rw [Bool.or_eq_true, not_or] at numbers
    split
    · split
      · exact clean_canonicalNaN
      · split
        · exact clean_canonicalNaN
        · exact clean_infinity _
    · split
      · exact clean_of_number numbers.2
      · exact clean_ofSum _ _ _ _

theorem clean_sqrt : Clean (sqrt a) := by
  unfold sqrt
  split
  case isTrue => exact clean_canonicalNaN
  case isFalse number =>
    split
    · exact clean_of_number number
    · split
      · exact clean_canonicalNaN
      · split
        · exact clean_of_number number
        · exact clean_ofRatio _ _ _

theorem clean_ofWord (format : Signedness) : Clean (ofWord format a) := clean_ofRatio _ _ _

end

/-! ## Arithmetic of a host -/

/-- What a host has to compute with singles: any functions. -/
structure Arithmetic where
  arith : FloatArith → Word → Word → Word
  sqrt : Word → Word
  /-- The product of two singles plus a third. -/
  mulAdd : Word → Word → Word → Word
  compare : FloatCompare → Word → Word → Bool
  toWord : Signedness → Rounding → Word → Word
  ofWord : Signedness → Word → Word

namespace Arithmetic

/-- Arithmetic that is exact up to its last step. -/
def exact : Arithmetic where
  arith := Single.arith
  sqrt := Single.sqrt
  mulAdd := fusedMulAdd
  compare := Single.compare
  toWord := Single.toWord
  ofWord := Single.ofWord

variable (A : Arithmetic)

/-- One of two singles: a number before a NaN, and of two zeros the one with a given sign.  The
host is asked about the others. -/
def extreme (negative : Bool) (before : Word → Word → Bool) (a b : Word) : Word :=
  if isNaN a then if isNaN b then canonicalNaN else b
  else if isNaN b then a
  else if a = zero negative ∧ b = zero !negative then a
  else if a = zero (!negative) ∧ b = zero negative then b
  else if before a b then a
  else b

def pick (op : FloatPick) (a b : Word) : Word :=
  match op with
  | .sign => withSign a b
  | .signNot => withSign a (~~~b)
  | .signXor => a ^^^ (b &&& 0x80000000)
  | .min => extreme true (fun a b => A.compare .lt a b) a b
  | .max => extreme false (fun a b => A.compare .lt b a) a b

def fused (op : FusedOp) (a b c : Word) : Word :=
  match op with
  | .madd => A.mulAdd a b c
  | .msub => A.mulAdd a b (neg c)
  | .nmsub => A.mulAdd (neg a) b c
  | .nmadd => A.mulAdd (neg a) b (neg c)

/-- A NaN is taken for the greatest integer, and not shown to the host. -/
def convert (format : Signedness) (mode : Rounding) (a : Word) : Word :=
  if isNaN a then BitVec.ofInt 32 (greatestInt format) else A.toWord format mode a

/-- The one that is chosen is no NaN unless both are. -/
theorem clean_extreme (negative : Bool) (before : Word → Word → Bool) (a b : Word) :
    Clean (extreme negative before a b) := by
  unfold extreme
  split
  case isTrue =>
    split
    case isTrue => exact clean_canonicalNaN
    case isFalse number => exact clean_of_number number
  case isFalse number =>
    split
    case isTrue => exact clean_of_number number
    case isFalse number' =>
      split
      · exact clean_of_number number
      · split
        · exact clean_of_number number'
        · split
          · exact clean_of_number number
          · exact clean_of_number number'

/-- An operation that gives a sign leaves the other bits, and with them what a NaN carries. -/
theorem low_pick {op : FloatPick} (sign : op ∈ [.sign, .signNot, .signXor]) (a b : Word) :
    (A.pick op a b).extractLsb' 0 31 = a.extractLsb' 0 31 := by
  refine BitVec.eq_of_getLsbD_eq fun i hi => ?_
  have kept : (0x7FFFFFFF : Word).getLsbD i = true := by
    revert i
    decide
  have dropped : (0x80000000 : Word).getLsbD i = false := by
    revert i
    decide
  simp only [BitVec.getLsbD_extractLsb', Nat.zero_add]
  cases op with
  | sign | signNot =>
    simp only [pick, withSign, BitVec.getLsbD_or, BitVec.getLsbD_and, kept, dropped,
      Bool.and_true, Bool.and_false, Bool.or_false]
  | signXor =>
    simp only [pick, BitVec.getLsbD_xor, BitVec.getLsbD_and, dropped, Bool.and_false,
      Bool.xor_false]
  | min | max => exact absurd sign (by decide)

/-! ## Exact arithmetic is a host's -/

/-- Ranks order patterns as their values do, and put the negative zero below the positive one. -/
theorem rank_lt_iff (a b : Word) :
    rank a < rank b ↔ a = zero true ∧ b = zero false ∨
      ¬(a = zero false ∧ b = zero true) ∧ valueRank a < valueRank b := by
  simp only [eq_zero_iff, rank, valueRank]
  cases sign a <;> cases sign b <;>
    simp only [if_true, if_false, true_and, false_and, and_false, false_or, not_false_eq_true,
      Bool.false_eq_true, Bool.true_eq_false] <;> omega

theorem extreme_eq_choose {negative : Bool} {before : Word → Word → Bool}
    {first : Int → Int → Bool} {a b : Word}
    (order : ¬isNaN a = true → ¬isNaN b = true → (first (rank a) (rank b) = true ↔
      a = zero negative ∧ b = zero (!negative) ∨
        ¬(a = zero (!negative) ∧ b = zero negative) ∧ before a b = true)) :
    extreme negative before a b = choose first a b := by
  unfold extreme choose
  split
  case isTrue => rfl
  case isFalse number =>
    split
    case isTrue => rfl
    case isFalse number' =>
      have order := order number number'
      split
      case isTrue zeros => rw [if_pos (order.mpr (.inl zeros))]
      case isFalse nonzero =>
        split
        case isTrue zeros =>
          rw [if_neg fun firsts => (order.mp firsts).elim nonzero fun other => other.1 zeros]
        case isFalse nonzero' =>
          have same : first (rank a) (rank b) = true ↔ before a b = true :=
            order.trans ((or_iff_right nonzero).trans (and_iff_right nonzero'))
          simp only [same]

theorem compare_lt {a b : Word} (number : ¬isNaN a = true) (number' : ¬isNaN b = true) :
    Single.compare .lt a b = true ↔ valueRank a < valueRank b := by
  rw [Bool.not_eq_true] at number number'
  simp only [Single.compare, number, number', Bool.not_false, Bool.true_and, decide_eq_true_eq]

/-- A host that says of numbers what the ranks of their values say picks the smaller. -/
theorem pick_min {A : Arithmetic}
    (less : ∀ {a b}, ¬isNaN a = true → ¬isNaN b = true →
      (A.compare .lt a b = true ↔ valueRank a < valueRank b)) (a b : Word) :
    A.pick .min a b = lesser a b := by
  refine extreme_eq_choose fun number number' => ?_
  rw [decide_eq_true_eq, rank_lt_iff]
  exact or_congr_right (and_congr_right fun _ => (less number number').symm)

theorem pick_max {A : Arithmetic}
    (less : ∀ {a b}, ¬isNaN a = true → ¬isNaN b = true →
      (A.compare .lt a b = true ↔ valueRank a < valueRank b)) (a b : Word) :
    A.pick .max a b = greater a b := by
  show extreme false (fun a b => A.compare .lt b a) a b = choose (fun x y => decide (y < x)) a b
  refine extreme_eq_choose fun number number' => ?_
  rw [decide_eq_true_eq, rank_lt_iff, and_comm (a := b = zero true),
    and_comm (a := b = zero false)]
  exact or_congr_right (and_congr_right fun _ => (less number' number).symm)

theorem pick_exact (op : FloatPick) (a b : Word) : exact.pick op a b = Single.pick op a b := by
  cases op with
  | sign => rfl
  | signNot => rfl
  | signXor => rfl
  | min => exact pick_min compare_lt a b
  | max => exact pick_max compare_lt a b

theorem arith_exact (op : FloatArith) (a b : Word) :
    canonical (exact.arith op a b) = Single.arith op a b := (clean_arith a b op).canonical_eq

theorem sqrt_exact (a : Word) : canonical (exact.sqrt a) = Single.sqrt a :=
  (clean_sqrt a).canonical_eq

theorem ofWord_exact (format : Signedness) (w : Word) :
    canonical (exact.ofWord format w) = Single.ofWord format w :=
  (clean_ofWord w format).canonical_eq

theorem fused_exact (op : FusedOp) (a b c : Word) :
    canonical (exact.fused op a b c) = Single.fused op a b c := by
  cases op <;> exact (clean_fusedMulAdd _ _ _).canonical_eq

theorem convert_exact (format : Signedness) (mode : Rounding) (a : Word) :
    exact.convert format mode a = Single.toWord format mode a := by
  unfold convert
  split
  case isTrue nan => rw [Single.toWord, toInt, if_pos nan]
  case isFalse => rfl

end Arithmetic
end Rv32.Single
