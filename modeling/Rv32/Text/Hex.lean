/-
# `Rv32.Text.Hex` — hexadecimal numerals

Addresses are written `0x` followed by lower-case digits.  A numeral may ask for
a least number of digits and is then filled with zeros on the left; it is never
cut.
-/
import Rv32.Word

namespace Rv32

/-- The hexadecimal digits of `n`, at least `width` of them. -/
def hexDigits (width n : Nat) : String :=
  let digits := Nat.toDigits 16 n
  String.ofList (List.replicate (width - digits.length) '0' ++ digits)

/-- The hexadecimal numeral of `n`, with at least `width` digits after `0x`. -/
def hex (width n : Nat) : String := "0x" ++ hexDigits width n

/-- A word in full: `0x` and eight digits. -/
def Word.hex (w : Word) : String := Rv32.hex 8 w.toNat

/-- A byte in full: `0x` and two digits. -/
def Byte.hex (b : Byte) : String := Rv32.hex 2 b.toNat

/-- Bytes in full: two digits each, and nothing else. -/
def Bytes.hex (bytes : List Byte) : String :=
  String.join (bytes.map fun b => hexDigits 2 b.toNat)

end Rv32
