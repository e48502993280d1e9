/-
# `Rv32.Single.Round` — rounding exact values

Arithmetic is exact until its last step, which rounds a ratio of whole numbers:
to a single, to nearest with ties to even; or to a whole number, in any of the
five modes.

The pattern of a single counts upwards with its value, across binades too.  So
the pattern of a rounded value is the number of binades below it times `2 ^ 23`
plus its rounded significand; a significand that rounds up to `2 ^ 24` carries
into the exponent by itself.
-/
import Rv32.Instruction.Basic
import Rv32.Single.Basic

namespace Rv32.Single

/-- The whole number nearest to `num / den`, a tie going to the even one. -/
def nearestEven (num den : Nat) : Nat :=
  let quotient := num / den
  let twice := 2 * (num % den)
  if twice < den ∨ (twice = den ∧ quotient % 2 = 0) then quotient else quotient + 1

/-- The magnitude nearest to `num / den` units, infinite if that is too large. -/
def roundMagnitude (num den : Nat) : Nat :=
  let binades := (num / den).log2 - 23
  min (binades * 0x800000 + nearestEven num (den * Nat.pow 2 binades)) infiniteMagnitude

/-- The single of a sign nearest to `num / den` units. -/
def ofRatio (negative : Bool) (num den : Nat) : Word := ofParts negative (roundMagnitude num den)

/-- The whole number to which a mode rounds `num / den`. -/
def roundToInt (mode : Rounding) (num : Int) (den : Nat) : Int :=
  let floor := num / den
  let twice := 2 * (num % den)
  match mode with
  | .towardZero => if num < 0 ∧ num % den ≠ 0 then floor + 1 else floor
  | .down => floor
  | .up => if num % den = 0 then floor else floor + 1
  | .nearestEven | .dynamic =>
    if twice < den ∨ (twice = den ∧ floor % 2 = 0) then floor else floor + 1
  | .nearestAway =>
    if twice < den ∨ (twice = den ∧ num < 0) then floor else floor + 1

end Rv32.Single
