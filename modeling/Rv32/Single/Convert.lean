/-
# `Rv32.Single.Convert` — singles and integers

A single converts to the whole number its rounding mode gives, kept within the
integer type: what is too large becomes the greatest integer, what is too small
the least.  A NaN counts as too large.  An integer converts to the nearest
single, ties to even.
-/
import Rv32.Single.Round

namespace Rv32.Single

def leastInt : Signedness → Int
  | .signed => -0x80000000
  | .unsigned => 0

def greatestInt : Signedness → Int
  | .signed => 0x7FFFFFFF
  | .unsigned => 0xFFFFFFFF

/-- A number moved to the nearest end of a format's range, if it is outside. -/
def clamp (sign : Signedness) (n : Int) : Int :=
  if n < leastInt sign then leastInt sign
  else if greatestInt sign < n then greatestInt sign
  else n

def toInt (format : Signedness) (mode : Rounding) (b : Word) : Int :=
  if isNaN b then greatestInt format
  else if isInfinite b then if sign b then leastInt format else greatestInt format
  else clamp format (roundToInt mode (units b) unitsPerOne)

def toWord (format : Signedness) (mode : Rounding) (b : Word) : Word :=
  BitVec.ofInt 32 (toInt format mode b)

def intOfWord (format : Signedness) (w : Word) : Int :=
  match format with
  | .signed => w.toInt
  | .unsigned => w.toNat

def ofInt (n : Int) : Word := ofRatio (decide (n < 0)) (n.natAbs * unitsPerOne) 1

def ofWord (format : Signedness) (w : Word) : Word := ofInt (intOfWord format w)

end Rv32.Single
