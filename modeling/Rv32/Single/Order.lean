/-
# `Rv32.Single.Order` — comparing, choosing and classifying

Two orders matter.  Comparisons are by value: both zeros are equal, and a NaN is
neither less than, equal to nor greater than anything.  The smaller and the
larger of two singles are chosen by `rank`, which tells the zeros apart, with
the negative one below.
-/
import Rv32.Instruction.Basic
import Rv32.Single.Basic

namespace Rv32.Single

/-- The place of a number among the values: the zeros share one. -/
def valueRank (b : Word) : Int := if sign b then -(magnitude b : Int) else magnitude b

/-- The place of a number among the patterns: the zeros are neighbours. -/
def rank (b : Word) : Int := if sign b then -(magnitude b : Int) - 1 else magnitude b

/-- A comparison by value, false if an operand is a NaN. -/
def compare (op : FloatCompare) (a b : Word) : Bool :=
  !isNaN a && !isNaN b &&
    match op with
    | .le => decide (valueRank a ≤ valueRank b)
    | .lt => decide (valueRank a < valueRank b)
    | .eq => decide (valueRank a = valueRank b)

/-- One of two singles, chosen by rank; a NaN is passed over unless both are. -/
def choose (first : Int → Int → Bool) (a b : Word) : Word :=
  if isNaN a then if isNaN b then canonicalNaN else b
  else if isNaN b then a
  else if first (rank a) (rank b) then a else b

def lesser (a b : Word) : Word := choose (fun x y => decide (x < y)) a b

def greater (a b : Word) : Word := choose (fun x y => decide (y < x)) a b

/-- The magnitude of `a` with a given sign bit. -/
def withSign (a : Word) (signBit : Word) : Word :=
  (a &&& 0x7FFFFFFF) ||| (signBit &&& 0x80000000)

/-- An operation that picks its result from the operands' bits. -/
def pick (op : FloatPick) (a b : Word) : Word :=
  match op with
  | .sign => withSign a b
  | .signNot => withSign a (~~~b)
  | .signXor => a ^^^ (b &&& 0x80000000)
  | .min => lesser a b
  | .max => greater a b

/-! ## Classes -/

inductive Class where
  | negativeInfinity
  | negativeNormal
  | negativeSubnormal
  | negativeZero
  | positiveZero
  | positiveSubnormal
  | positiveNormal
  | positiveInfinity
  | signalingNaN
  | quietNaN
deriving DecidableEq, Repr

/-- The class of a single.  A NaN is quiet if the top bit of its fraction is set. -/
def classOf (b : Word) : Class :=
  if exponent b = 0xFF#8 then
    if fraction b = 0 then if sign b then .negativeInfinity else .positiveInfinity
    else if (fraction b).getLsbD 22 then .quietNaN
    else .signalingNaN
  else if exponent b = 0 then
    if fraction b = 0 then if sign b then .negativeZero else .positiveZero
    else if sign b then .negativeSubnormal
    else .positiveSubnormal
  else if sign b then .negativeNormal
  else .positiveNormal

def Class.position : Class → Nat
  | .negativeInfinity => 0
  | .negativeNormal => 1
  | .negativeSubnormal => 2
  | .negativeZero => 3
  | .positiveZero => 4
  | .positiveSubnormal => 5
  | .positiveNormal => 6
  | .positiveInfinity => 7
  | .signalingNaN => 8
  | .quietNaN => 9

/-- The word that reports the class of a single: one bit set. -/
def classMask (b : Word) : Word := 1#32 <<< (classOf b).position

end Rv32.Single
