/-
# `Rv32.Single.Arith` — addition, multiplication, division and roots

Each operation first settles the cases that have no finite value to round: a NaN
operand or an undefined form gives the canonical NaN, and infinities follow the
signs.  What is left is an exact ratio of units, rounded once, to nearest with
ties to even.

A sum that is exactly zero has the sign of its operands if they agree and is
positive otherwise.
-/
import Rv32.Single.Round

namespace Rv32.Single

/-- The single nearest to an exact sum of two terms, `num / den` units, whose
signs are given. -/
def ofSum (negative₁ negative₂ : Bool) (num : Int) (den : Nat) : Word :=
  if num = 0 then zero (negative₁ && negative₂)
  else ofRatio (decide (num < 0)) num.natAbs den

def add (a b : Word) : Word :=
  if isNaN a || isNaN b then canonicalNaN
  else if isInfinite a then
    if isInfinite b && sign a != sign b then canonicalNaN else a
  else if isInfinite b then b
  else ofSum (sign a) (sign b) (units a + units b) 1

def sub (a b : Word) : Word :=
  if isNaN b then canonicalNaN else add a (neg b)

def mul (a b : Word) : Word :=
  let negative := sign a != sign b
  if isNaN a || isNaN b then canonicalNaN
  else if isInfinite a || isInfinite b then
    if isZero a || isZero b then canonicalNaN else infinity negative
  else ofRatio negative (magnitudeUnits a * magnitudeUnits b) unitsPerOne

def div (a b : Word) : Word :=
  let negative := sign a != sign b
  if isNaN a || isNaN b then canonicalNaN
  else if isInfinite a then
    if isInfinite b then canonicalNaN else infinity negative
  else if isInfinite b then zero negative
  else if isZero b then
    if isZero a then canonicalNaN else infinity negative
  else ofRatio negative (magnitudeUnits a * unitsPerOne) (magnitudeUnits b)

/-- The product of two singles plus a third, rounded once. -/
def fusedMulAdd (a b c : Word) : Word :=
  let negative := sign a != sign b
  if isNaN a || isNaN b || isNaN c then canonicalNaN
  else if isInfinite a || isInfinite b then
    if isZero a || isZero b then canonicalNaN
    else if isInfinite c && sign c != negative then canonicalNaN
    else infinity negative
  else if isInfinite c then c
  else ofSum negative (sign c) (units a * units b + units c * unitsPerOne) unitsPerOne

/-- A fused operation: which of product and addend change sign. -/
def fused (op : FusedOp) (a b c : Word) : Word :=
  match op with
  | .madd => fusedMulAdd a b c
  | .msub => fusedMulAdd a b (neg c)
  | .nmsub => fusedMulAdd (neg a) b c
  | .nmadd => fusedMulAdd (neg a) b (neg c)

/-! ## Square roots -/

/-- The integer root found by deciding one bit after the other, from the highest:
`root` is the part of it above bit `bits`. -/
def rootBits (n : Nat) : (bits root : Nat) → Nat
  | 0, root => root
  | bits + 1, root =>
    let next := root + Nat.pow 2 bits
    rootBits n bits (if next * next ≤ n then next else root)

/-- The greatest whole number whose square is at most `n`. -/
def floorSqrt (n : Nat) : Nat := rootBits n (n.log2 / 2 + 1) 0

/-- The square root.  In units it is the root of a number above `2 ^ 149`, far
more than a significand can hold, so it is enough to know its integer part and
whether anything is left over: half a unit stands for what is left. -/
def sqrt (a : Word) : Word :=
  if isNaN a then canonicalNaN
  else if isZero a then a
  else if sign a then canonicalNaN
  else if isInfinite a then a
  else
    let square := magnitudeUnits a * unitsPerOne
    let root := floorSqrt square
    ofRatio false (2 * root + (if root * root = square then 0 else 1)) 2

def arith (op : FloatArith) (a b : Word) : Word :=
  match op with
  | .add => add a b
  | .sub => sub a b
  | .mul => mul a b
  | .div => div a b

end Rv32.Single
