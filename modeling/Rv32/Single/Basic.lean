/-
# `Rv32.Single.Basic` — single-precision numbers as bit patterns

A single is a word: a sign bit, eight bits of exponent and twenty-three bits of
fraction.  Every finite single is a whole number of *units* of `2 ^ -149`, the
least positive single; `units` reads that number, and everything that computes
with singles computes with it exactly.
-/
import Rv32.Word

namespace Rv32.Single

/-- The NaN that operations produce. -/
def canonicalNaN : Word := 0x7FC00000

/-- The sign bit; set for negative numbers. -/
def sign (b : Word) : Bool := b.getLsbD 31

def exponent (b : Word) : BitVec 8 := b.extractLsb' 23 8

def fraction (b : Word) : BitVec 23 := b.extractLsb' 0 23

/-- The pattern without its sign.  Greater magnitudes have greater patterns. -/
def magnitude (b : Word) : Nat := (b.extractLsb' 0 31).toNat

/-- The magnitude of infinity. -/
def infiniteMagnitude : Nat := 0x7F800000

def isNaN (b : Word) : Bool := decide (infiniteMagnitude < magnitude b)

def isInfinite (b : Word) : Bool := magnitude b == infiniteMagnitude

/-- Whether a pattern is a zero, of either sign. -/
def isZero (b : Word) : Bool := magnitude b == 0

def ofParts (negative : Bool) (magnitude : Nat) : Word :=
  BitVec.ofBool negative ++ BitVec.ofNat 31 magnitude

def infinity (negative : Bool) : Word := ofParts negative infiniteMagnitude

def zero (negative : Bool) : Word := ofParts negative 0

def neg (b : Word) : Word := b ^^^ 0x80000000

/-- A pattern with every NaN replaced by the canonical one. -/
def canonical (b : Word) : Word := if isNaN b then canonicalNaN else b

/-- The number of units in one: a finite single is `units / unitsPerOne`. -/
def unitsPerOne : Nat := Nat.pow 2 149

/-- The number of units in the magnitude of a finite single.  Subnormals count
units directly; each further exponent doubles the worth of the significand. -/
def magnitudeUnits (b : Word) : Nat :=
  if exponent b = 0 then (fraction b).toNat
  else (0x800000 + (fraction b).toNat) * Nat.pow 2 ((exponent b).toNat - 1)

/-- The number of units in a finite single. -/
def units (b : Word) : Int :=
  if sign b then -(magnitudeUnits b : Int) else magnitudeUnits b

end Rv32.Single
