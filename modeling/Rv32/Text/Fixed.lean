/-
# `Rv32.Text.Fixed` — decimals

A quotient of natural numbers, written with a given number of digits behind the
point.  It is rounded to the nearest such decimal, and from the middle between two
to the one with the even last digit.
-/
namespace Rv32.Fixed

/-- The nearest natural number to a quotient, the even one if there are two. -/
def roundDiv (n d : Nat) : Nat :=
  let q := n / d
  let r := n % d
  if 2 * r < d then q
  else if d < 2 * r then q + 1
  else if q % 2 = 0 then q
  else q + 1

/-- The digits of `n`, at least `width` of them. -/
def padded (width n : Nat) : String :=
  let digits := Nat.toDigits 10 n
  String.ofList (List.replicate (width - digits.length) '0' ++ digits)

/-- A quotient with a number of digits behind the point. -/
def render (places n d : Nat) : String :=
  let scaled := roundDiv (n * Nat.pow 10 places) d
  if places = 0 then toString scaled
  else toString (scaled / Nat.pow 10 places) ++ "." ++ padded places (scaled % Nat.pow 10 places)

/-- A number of `10 ^ places`-ths without needless digits behind the point. -/
def exact (places n : Nat) : String :=
  let rest := n % Nat.pow 10 places
  let digits := (padded places rest).toList.reverse.dropWhile (· = '0') |>.reverse
  let whole := toString (n / Nat.pow 10 places)
  if rest = 0 then whole else whole ++ "." ++ String.ofList digits

/-- A time in the largest unit it has one of. -/
def duration (nanoseconds : Nat) : String :=
  if 1000000000 ≤ nanoseconds then exact 9 nanoseconds ++ "s"
  else if 1000000 ≤ nanoseconds then exact 6 nanoseconds ++ "ms"
  else if 1000 ≤ nanoseconds then exact 3 nanoseconds ++ "µs"
  else exact 0 nanoseconds ++ "ns"

end Rv32.Fixed
