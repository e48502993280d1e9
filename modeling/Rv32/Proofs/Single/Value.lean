/-
# `Rv32.Proofs.Single.Value` — the number that a single is

A finite single is a sign, a significand and a power of two; `value` is the number that these
make, exactly, as a rational.  Computing is done in units, the least of these numbers, and
`value_eq` says that a single has as many of them as it should.

How many units a magnitude has grows with it, over the subnormals and from each exponent to the
next.  So singles can be compared by their patterns, and every whole number that has room in a
significand is a single.
-/
import Mathlib.Algebra.Order.Field.Power
import Mathlib.Algebra.Order.Monoid.NatCast
import Mathlib.Data.Rat.Cast.Order
import Mathlib.Order.Monotone.Basic
import Mathlib.Tactic.FieldSimp
import Mathlib.Tactic.Ring
import Rv32.Proofs.Single.Arithmetic

namespace Rv32.Single

theorem unitsPerOne_pos : 0 < unitsPerOne := Nat.two_pow_pos 149

/-! ## The number -/

/-- The fraction with the one in front of it that all but the subnormals have. -/
def significand (b : Word) : Nat :=
  if exponent b = 0 then (fraction b).toNat else 2 ^ 23 + (fraction b).toNat

/-- The power of two by which the last bit of a significand is worth more or less than one.
Subnormals have the least that there is. -/
def scale (b : Word) : Int := (max (exponent b).toNat 1 : Nat) - 150

/-- The number that a finite single is. -/
def value (b : Word) : ℚ := (-1) ^ (sign b).toNat * significand b * 2 ^ scale b

theorem magnitudeUnits_eq (b : Word) :
    magnitudeUnits b = significand b * 2 ^ (max (exponent b).toNat 1 - 1) := by
  unfold magnitudeUnits significand
  split
  case isTrue subnormal =>
    rw [subnormal]
    exact (Nat.mul_one _).symm
  case isFalse normal =>
    have positive : (exponent b).toNat ≠ 0 := fun zero => normal (BitVec.eq_of_toNat_eq zero)
    rw [Nat.max_eq_left (Nat.pos_of_ne_zero positive)]
    rfl

/-- A finite single is as many units as are counted. -/
theorem value_eq (b : Word) : value b = (units b : ℚ) / (unitsPerOne : ℕ) := by
  have power : (2 : ℚ) ^ scale b = 2 ^ (max (exponent b).toNat 1 - 1) / (unitsPerOne : ℕ) := by
    have shift : scale b = ((max (exponent b).toNat 1 - 1 : ℕ) : ℤ) - (149 : ℕ) := by
      unfold scale
      omega
    rw [shift, zpow_sub₀ two_ne_zero, zpow_natCast, zpow_natCast]
    exact congrArg _ (Nat.cast_pow 2 149).symm
  rw [value, units, magnitudeUnits_eq, power]
  cases sign b <;> push_cast <;> simp <;> ring

/-! ## Units by magnitude -/

theorem magnitude_eq (b : Word) :
    magnitude b = (exponent b).toNat * 2 ^ 23 + (fraction b).toNat := by
  simp only [magnitude, exponent, fraction, BitVec.extractLsb'_toNat, Nat.shiftRight_eq_div_pow]
  omega

/-- The units of the single with a given magnitude. -/
def unitsAt (m : Nat) : Nat :=
  if m < 2 ^ 23 then m else (2 ^ 23 + m % 2 ^ 23) * 2 ^ (m / 2 ^ 23 - 1)

theorem unitsAt_magnitude (b : Word) : unitsAt (magnitude b) = magnitudeUnits b := by
  have bound := (fraction b).isLt
  have parts := magnitude_eq b
  have quotient : magnitude b / 2 ^ 23 = (exponent b).toNat := by omega
  have remainder : magnitude b % 2 ^ 23 = (fraction b).toNat := by omega
  rw [unitsAt, magnitudeUnits, quotient, remainder]
  by_cases subnormal : exponent b = 0
  case pos =>
    have none : (exponent b).toNat = 0 := congrArg BitVec.toNat subnormal
    rw [if_pos subnormal, if_pos (by omega)]
    omega
  case neg =>
    have some : (exponent b).toNat ≠ 0 := fun zero => subnormal (BitVec.eq_of_toNat_eq zero)
    rw [if_neg subnormal, if_neg (by omega)]
    rfl

/-- The next magnitude has more units: one more of its significand's, or the first significand of
the next exponent. -/
theorem unitsAt_lt_succ (m : Nat) : unitsAt m < unitsAt (m + 1) := by
  unfold unitsAt
  rcases Nat.lt_trichotomy (m + 1) (2 ^ 23) with subnormal | least | normal
  · rw [if_pos (by omega), if_pos subnormal]
    exact Nat.lt_succ_self m
  · rw [least, if_pos (by omega), if_neg (by omega), Nat.mod_self, Nat.div_self (by omega)]
    omega
  · rw [if_neg (by omega), if_neg (by omega)]
    rcases Nat.lt_or_ge (m % 2 ^ 23 + 1) (2 ^ 23) with inside | last
    · have quotient : (m + 1) / 2 ^ 23 = m / 2 ^ 23 := by omega
      have remainder : (m + 1) % 2 ^ 23 = m % 2 ^ 23 + 1 := by omega
      rw [quotient, remainder]
      exact Nat.mul_lt_mul_of_pos_right (by omega) (Nat.two_pow_pos _)
    · have quotient : (m + 1) / 2 ^ 23 - 1 = m / 2 ^ 23 - 1 + 1 := by omega
      have remainder : (m + 1) % 2 ^ 23 = 0 := by omega
      have twice : (2 ^ 23 + 0) * 2 ^ (m / 2 ^ 23 - 1 + 1) =
          2 ^ 24 * 2 ^ (m / 2 ^ 23 - 1) := by ring
      rw [quotient, remainder, twice]
      exact Nat.mul_lt_mul_of_pos_right (by omega) (Nat.two_pow_pos _)

theorem strictMono_unitsAt : StrictMono unitsAt := strictMono_nat_of_lt_succ unitsAt_lt_succ

/-! ## Whole numbers that are singles -/

theorem nearestEven_mul (n : Nat) {den : Nat} (positive : 0 < den) :
    nearestEven (n * den) den = n := by
  rw [nearestEven, Nat.mul_mod_left, Nat.mul_div_cancel n positive]
  exact if_pos (.inl positive)

theorem log2_mul_two_pow {n : Nat} (positive : n ≠ 0) (k : Nat) :
    (n * 2 ^ k).log2 = n.log2 + k := by
  obtain ⟨least, greatest⟩ := (Nat.log2_eq_iff positive).mp rfl
  refine (Nat.log2_eq_iff (Nat.mul_ne_zero positive (Nat.two_pow_pos k).ne')).mpr ⟨?_, ?_⟩
  · rw [Nat.pow_add]
    exact Nat.mul_le_mul_right _ least
  · rw [Nat.add_right_comm, Nat.pow_add]
    exact Nat.mul_lt_mul_of_pos_right greatest (Nat.two_pow_pos k)

/-- A whole number that fits into a significand is not rounded: moved to the left, it is the
significand itself. -/
theorem unitsAt_roundMagnitude {n : Nat} (small : n < 2 ^ 24) :
    roundMagnitude (n * unitsPerOne) 1 < infiniteMagnitude ∧
      unitsAt (roundMagnitude (n * unitsPerOne) 1) = n * unitsPerOne := by
  rcases Nat.eq_zero_or_pos n with rfl | positive
  · decide
  have log_lt : n.log2 < 24 := (Nat.log2_lt positive.ne').mpr small
  obtain ⟨least, greatest⟩ := (Nat.log2_eq_iff positive.ne').mp rfl
  have units : unitsPerOne = 2 ^ (23 - n.log2) * 2 ^ (n.log2 + 126) := by
    rw [unitsPerOne, Nat.pow_eq, ← Nat.pow_add, show 23 - n.log2 + (n.log2 + 126) = 149 by omega]
  have log : (n * unitsPerOne / 1).log2 - 23 = n.log2 + 126 := by
    rw [Nat.div_one, unitsPerOne, Nat.pow_eq, log2_mul_two_pow positive.ne']
    omega
  have lower : 2 ^ 23 ≤ n * 2 ^ (23 - n.log2) := by
    calc 2 ^ 23 = 2 ^ n.log2 * 2 ^ (23 - n.log2) := by rw [← Nat.pow_add]; congr 1; omega
      _ ≤ n * 2 ^ (23 - n.log2) := Nat.mul_le_mul_right _ least
  have upper : n * 2 ^ (23 - n.log2) < 2 ^ 24 := by
    calc n * 2 ^ (23 - n.log2) < 2 ^ (n.log2 + 1) * 2 ^ (23 - n.log2) :=
          Nat.mul_lt_mul_of_pos_right greatest (Nat.two_pow_pos _)
      _ = 2 ^ 24 := by rw [← Nat.pow_add]; congr 1; omega
  have whole : nearestEven (n * unitsPerOne) (1 * Nat.pow 2 (n.log2 + 126)) =
      n * 2 ^ (23 - n.log2) := by
    rw [units, ← Nat.mul_assoc, Nat.one_mul]
    exact nearestEven_mul _ (Nat.two_pow_pos _)
  have pattern : roundMagnitude (n * unitsPerOne) 1 =
      (n.log2 + 126) * 2 ^ 23 + n * 2 ^ (23 - n.log2) := by
    simp only [roundMagnitude, log, whole, infiniteMagnitude]
    omega
  have quotient : roundMagnitude (n * unitsPerOne) 1 / 2 ^ 23 - 1 = n.log2 + 126 := by omega
  have remainder : 2 ^ 23 + roundMagnitude (n * unitsPerOne) 1 % 2 ^ 23 =
      n * 2 ^ (23 - n.log2) := by omega
  refine ⟨by rw [pattern, infiniteMagnitude]; omega, ?_⟩
  rw [unitsAt, if_neg (by omega), quotient, remainder, Nat.mul_assoc, ← units]

theorem units_ofParts (negative : Bool) {m : Nat} (small : m < 0x80000000) :
    units (ofParts negative m) = if negative then -(unitsAt m : Int) else unitsAt m := by
  rw [units, sign_ofParts, ← unitsAt_magnitude, magnitude_ofParts negative small]

/-- An integer that fits into a significand is a single. -/
theorem units_ofInt {n : Int} (small : n.natAbs < 2 ^ 24) :
    magnitude (ofInt n) < infiniteMagnitude ∧ units (ofInt n) = n * unitsPerOne := by
  obtain ⟨finite, whole⟩ := unitsAt_roundMagnitude small
  have room : roundMagnitude (n.natAbs * unitsPerOne) 1 < 0x80000000 :=
    Nat.lt_trans finite (by decide)
  rw [ofInt, ofRatio, magnitude_ofParts _ room, units_ofParts _ room, whole]
  refine ⟨finite, ?_⟩
  push_cast
  by_cases negative : n < 0
  · rw [decide_eq_true negative, if_pos rfl, abs_of_neg negative, neg_mul, neg_neg]
  · rw [decide_eq_false negative, if_neg Bool.false_ne_true, abs_of_nonneg (not_lt.mp negative)]

/-- A single whose units make whole ones is a whole number. -/
theorem value_of_units {b : Word} {n : Int} (whole : units b = n * unitsPerOne) : value b = n := by
  have one : (unitsPerOne : ℚ) ≠ 0 := Nat.cast_ne_zero.mpr unitsPerOne_pos.ne'
  rw [value_eq, whole, Int.cast_mul, Int.cast_natCast, mul_div_cancel_right₀ _ one]

end Rv32.Single
