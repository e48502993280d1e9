/-
# `Rv32.Proofs.Single.Rounding` — rounding to whole numbers

To what whole number a mode rounds is said of rational numbers (`Rounds`): the one below, above,
or towards zero, or the nearest, where of two that are equally near one mode takes the even and
the other the one farther from zero.  There is always one such number and no second.

Rounding a ratio goes by its quotient and by what the division leaves over; that this is the
number meant is `roundToInt_rounds`.
-/
import Mathlib.Algebra.Order.Round
import Mathlib.Data.Rat.Floor
import Mathlib.Tactic.Linarith
import Rv32.Single.Round

namespace Rv32.Single

/-! ## The number meant -/

/-- No whole number is nearer. -/
def Nearest (q : ℚ) (n : ℤ) : Prop := ∀ k : ℤ, |q - n| ≤ |q - k|

/-- Another whole number is as near. -/
def Tied (q : ℚ) (n : ℤ) : Prop := ∃ k : ℤ, k ≠ n ∧ |q - k| = |q - n|

/-- The whole number to which a mode rounds a number. -/
def Rounds (mode : Rounding) (q : ℚ) (n : ℤ) : Prop :=
  match mode with
  | .nearestEven | .dynamic => Nearest q n ∧ (Tied q n → Even n)
  | .towardZero => (0 ≤ q → n = ⌊q⌋) ∧ (q ≤ 0 → n = ⌈q⌉)
  | .down => n = ⌊q⌋
  | .up => n = ⌈q⌉
  | .nearestAway => Nearest q n ∧ (Tied q n → |q| < |(n : ℚ)|)

/-- Whole numbers are at least one apart. -/
theorem one_le_dist {m n : ℤ} (different : m ≠ n) : (1 : ℚ) ≤ |(m : ℚ) - n| := by
  have apart : (1 : ℤ) ≤ |m - n| := Int.one_le_abs (sub_ne_zero.mpr different)
  exact_mod_cast apart

theorem dist_le_add (q : ℚ) (m n : ℤ) : |(m : ℚ) - n| ≤ |q - m| + |q - n| := by
  rw [abs_sub_comm q m]
  exact abs_sub_le _ _ _

theorem nearest_iff {q : ℚ} {n : ℤ} : Nearest q n ↔ |q - n| ≤ 1 / 2 := by
  constructor
  · exact fun nearest => (nearest (round q)).trans (abs_sub_round q)
  · intro near k
    rcases eq_or_ne k n with rfl | other
    · exact le_rfl
    · have apart := (one_le_dist other).trans (dist_le_add q k n)
      linarith

theorem dist_of_tied {q : ℚ} {n : ℤ} (nearest : Nearest q n) (tied : Tied q n) :
    |q - n| = 1 / 2 := by
  obtain ⟨k, other, same⟩ := tied
  have apart := (one_le_dist other).trans (dist_le_add q k n)
  have near := nearest_iff.mp nearest
  linarith

/-- Between two nearest numbers there is one, in the middle. -/
theorem Nearest.eq_or_middle {q : ℚ} {m n : ℤ} (first : Nearest q m) (second : Nearest q n)
    (less : m < n) : n = m + 1 ∧ q = m + 1 / 2 ∧ Tied q m ∧ Tied q n := by
  have near := nearest_iff.mp first
  have near' := nearest_iff.mp second
  have close := dist_le_add q n m
  rw [abs_of_nonneg (sub_nonneg.mpr (Int.cast_le.mpr less.le))] at close
  have next : n = m + 1 := by
    have : (n : ℚ) ≤ (m + 1 : ℤ) := by push_cast; linarith
    have := Int.cast_le.mp this
    omega
  subst next
  rw [abs_le] at near near'
  push_cast at near'
  have middle : q = m + 1 / 2 := by linarith
  have same : |q - (m : ℚ)| = |q - ((m + 1 : ℤ) : ℚ)| := by
    rw [middle]
    push_cast
    norm_num
  exact ⟨rfl, middle, ⟨m + 1, by omega, same.symm⟩, ⟨m, by omega, same⟩⟩

/-- There is only one number to which a mode rounds. -/
theorem Rounds.unique {mode : Rounding} {q : ℚ} {m n : ℤ} (first : Rounds mode q m)
    (second : Rounds mode q n) : m = n := by
  wlog less : m < n generalizing m n
  · rcases lt_trichotomy m n with smaller | same | larger
    · exact this first second smaller
    · exact same
    · exact (this second first larger).symm
  cases mode with
  | nearestEven | dynamic =>
    obtain ⟨next, -, tied, tied'⟩ := first.1.eq_or_middle second.1 less
    have even := first.2 tied
    have even' := second.2 tied'
    grind
  | nearestAway =>
    obtain ⟨next, middle, tied, tied'⟩ := first.1.eq_or_middle second.1 less
    have away := first.2 tied
    have away' := second.2 tied'
    subst next
    push_cast at away'
    rw [middle] at away away'
    rcases le_or_gt 0 m with up | down
    · have up : (0 : ℚ) ≤ m := Int.cast_nonneg up
      rw [abs_of_nonneg (by linarith), abs_of_nonneg up] at away
      linarith
    · have down : (m : ℚ) + 1 ≤ 0 := by exact_mod_cast down
      rw [abs_of_nonpos (by linarith), abs_of_nonpos down] at away'
      linarith
  | towardZero =>
    rcases le_total 0 q with positive | negative
    · exact (first.1 positive).trans (second.1 positive).symm
    · exact (first.2 negative).trans (second.2 negative).symm
  | down | up => exact first.trans second.symm

/-! ## Quotients -/

/-- The whole number below is nearest in the lower half. -/
theorem nearest_floor {q : ℚ} (lower : Int.fract q ≤ 1 / 2) : Nearest q ⌊q⌋ := by
  rw [nearest_iff, Int.self_sub_floor, abs_of_nonneg (Int.fract_nonneg q)]
  exact lower

theorem dist_floor_add_one (q : ℚ) : |q - ((⌊q⌋ + 1 : ℤ) : ℚ)| = 1 - Int.fract q := by
  have below := Int.fract_lt_one q
  rw [Int.fract] at below ⊢
  push_cast
  rw [abs_sub_comm, abs_of_nonneg (by linarith)]
  ring

/-- The whole number above is nearest in the upper half. -/
theorem nearest_floor_add_one {q : ℚ} (upper : 1 / 2 ≤ Int.fract q) : Nearest q (⌊q⌋ + 1) := by
  rw [nearest_iff, dist_floor_add_one]
  linarith

theorem fract_of_tied_floor {q : ℚ} (lower : Int.fract q ≤ 1 / 2) (tied : Tied q ⌊q⌋) :
    Int.fract q = 1 / 2 := by
  have half := dist_of_tied (nearest_floor lower) tied
  rwa [Int.self_sub_floor, abs_of_nonneg (Int.fract_nonneg q)] at half

theorem fract_of_tied_floor_add_one {q : ℚ} (upper : 1 / 2 ≤ Int.fract q)
    (tied : Tied q (⌊q⌋ + 1)) : Int.fract q = 1 / 2 := by
  have half := dist_of_tied (nearest_floor_add_one upper) tied
  rw [dist_floor_add_one] at half
  linarith

theorem floor_eq_ceil {q : ℚ} (whole : Int.fract q = 0) : ⌊q⌋ = ⌈q⌉ := by
  obtain ⟨n, rfl⟩ := Int.fract_eq_zero_iff.mp whole
  rw [Int.floor_intCast, Int.ceil_intCast]

theorem floor_add_one_eq_ceil {q : ℚ} (between : Int.fract q ≠ 0) : ⌊q⌋ + 1 = ⌈q⌉ := by
  have ceil := Int.ceil_eq_add_one_sub_fract between
  have floor := Int.floor_add_fract q
  have same : ((⌊q⌋ + 1 : ℤ) : ℚ) = ⌈q⌉ := by
    push_cast
    linarith
  exact Int.cast_injective same

/-- A ratio is rounded to its quotient, or to the next whole number. -/
theorem roundToInt_eq_or (mode : Rounding) (num : ℤ) (den : ℕ) :
    roundToInt mode num den = num / den ∨ roundToInt mode num den = num / den + 1 := by
  cases mode with
  | down => exact .inl rfl
  | nearestEven | towardZero | up | nearestAway | dynamic =>
    unfold roundToInt
    dsimp only
    split <;> simp

theorem roundToInt_of_emod_eq_zero (mode : Rounding) {num : ℤ} {den : ℕ} (positive : 0 < den)
    (whole : num % den = 0) : roundToInt mode num den = num / den := by
  unfold roundToInt
  cases mode <;> simp [whole, positive]

/-- Rounding a ratio by its quotient and what is left over. -/
theorem roundToInt_rounds (mode : Rounding) (num : ℤ) {den : ℕ} (positive : 0 < den) :
    Rounds mode (num / den) (roundToInt mode num den) := by
  have floor : num / den = ⌊(num / den : ℚ)⌋ := (Rat.floor_intCast_div_natCast num den).symm
  have fract : Int.fract (num / den : ℚ) = ((num % den : ℤ) : ℚ) / den :=
    Int.fract_div_intCast_eq_div_intCast_mod
  have room : (0 : ℚ) < den := Nat.cast_pos.mpr positive
  have lower : 2 * (num % den) < den ↔ Int.fract (num / den : ℚ) < 1 / 2 := by
    rw [fract, div_lt_div_iff₀ room two_pos, one_mul, mul_comm]
    exact_mod_cast Iff.rfl
  have middle : 2 * (num % den) = den ↔ Int.fract (num / den : ℚ) = 1 / 2 := by
    rw [fract, div_eq_div_iff room.ne' two_ne_zero, one_mul, mul_comm]
    exact_mod_cast Iff.rfl
  have whole : num % den = 0 ↔ Int.fract (num / den : ℚ) = 0 := by
    rw [fract, div_eq_zero_iff, or_iff_left room.ne', Int.cast_eq_zero]
  have negative : num < 0 ↔ (num / den : ℚ) < 0 := by
    rw [div_lt_iff₀ room, zero_mul, Int.cast_lt_zero]
  simp only [roundToInt, floor, lower, middle, whole, negative, ne_eq]
  generalize (num / den : ℚ) = q
  have parts : (⌊q⌋ : ℚ) + Int.fract q = q := Int.floor_add_fract q
  cases mode with
  | down => exact rfl
  | up =>
    show (if Int.fract q = 0 then ⌊q⌋ else ⌊q⌋ + 1) = ⌈q⌉
    split
    case isTrue same => exact floor_eq_ceil same
    case isFalse between => exact floor_add_one_eq_ceil between
  | towardZero =>
    dsimp only
    split
    case isTrue below =>
      exact ⟨fun above => absurd below.1 (not_lt.mpr above), fun _ => floor_add_one_eq_ceil below.2⟩
    case isFalse other =>
      refine ⟨fun _ => rfl, fun below => floor_eq_ceil ?_⟩
      rcases below.lt_or_eq with less | zero
      · exact not_not.mp fun between => other ⟨less, between⟩
      · rw [zero, Int.fract_zero]
  | nearestEven | dynamic =>
    dsimp only
    split
    case isTrue below =>
      have lower : Int.fract q ≤ 1 / 2 := below.elim le_of_lt fun half => half.1.le
      refine ⟨nearest_floor lower, fun tied => ?_⟩
      have half := fract_of_tied_floor lower tied
      exact Int.even_iff.mpr (below.resolve_left half.not_lt).2
    case isFalse above =>
      have upper : 1 / 2 ≤ Int.fract q := not_lt.mp fun less => above (.inl less)
      refine ⟨nearest_floor_add_one upper, fun tied => ?_⟩
      have half := fract_of_tied_floor_add_one upper tied
      exact Int.even_add_one.mpr fun even => above (.inr ⟨half, Int.even_iff.mp even⟩)
  | nearestAway =>
    dsimp only
    split
    case isTrue below =>
      have lower : Int.fract q ≤ 1 / 2 := below.elim le_of_lt fun half => half.1.le
      refine ⟨nearest_floor lower, fun tied => ?_⟩
      have half := fract_of_tied_floor lower tied
      have negative := (below.resolve_left half.not_lt).2
      rw [abs_of_neg negative, abs_of_neg (by linarith)]
      linarith
    case isFalse above =>
      have upper : 1 / 2 ≤ Int.fract q := not_lt.mp fun less => above (.inl less)
      refine ⟨nearest_floor_add_one upper, fun tied => ?_⟩
      have half := fract_of_tied_floor_add_one upper tied
      have positive : 0 ≤ q := not_lt.mp fun less => above (.inr ⟨half, less⟩)
      push_cast
      rw [abs_of_nonneg positive, abs_of_nonneg (by linarith)]
      linarith

end Rv32.Single
