/-
# `Rv32.Command.Numeral` — numbers as they are given on a command line

A numeral is an optional plus sign and at least one digit.  An address may be
written in base ten, or in base sixteen after `0x`; underscores may stand
anywhere behind that, and are looked through.  Numbers that are too large are
refused, however many zeros they begin with.
-/
import Rv32.Word

namespace Rv32.Numeral

/-- The value of a digit, capital or not. -/
def digit? (base : Nat) (c : Char) : Option Nat :=
  let value :=
    if '0' ≤ c ∧ c ≤ '9' then some (c.toNat - '0'.toNat)
    else if 'a' ≤ c ∧ c ≤ 'z' then some (c.toNat - 'a'.toNat + 10)
    else if 'A' ≤ c ∧ c ≤ 'Z' then some (c.toNat - 'A'.toNat + 10)
    else none
  value.filter (· < base)

/-- Why a text is no number, or not one of those asked for. -/
inductive Error where
  | empty
  /-- Something is no digit, or there is only a sign. -/
  | invalidDigit
  | tooLarge
deriving DecidableEq, Repr

def Error.message : Error → String
  | .empty => "cannot parse integer from empty string"
  | .invalidDigit => "invalid digit found in string"
  | .tooLarge => "number too large to fit in target type"

/-- The number that digits make behind others with a given value.  It has to stay below
a limit; the first thing that is wrong decides. -/
def digits (base limit value : Nat) : List Char → Except Error Nat
  | [] => .ok value
  | c :: rest =>
    match digit? base c with
    | none => .error .invalidDigit
    | some d =>
      if value * base + d < limit then digits base limit (value * base + d) rest
      else .error .tooLarge

/-- A number below a limit, which a plus sign may precede. -/
def natural (base limit : Nat) : List Char → Except Error Nat
  | [] => .error .empty
  | '+' :: c :: rest => digits base limit 0 (c :: rest)
  | cs => digits base limit 0 cs

/-- A word, given in base ten or sixteen. -/
def address (cs : List Char) : Except Error Word :=
  let value := match cs with
    | '0' :: 'x' :: rest => natural 16 0x100000000 (rest.filter (· ≠ '_'))
    | cs => natural 10 0x100000000 (cs.filter (· ≠ '_'))
  value.map (BitVec.ofNat 32)

def addressProblem (text : String) (e : Error) : String :=
  "invalid address `" ++ text ++ "`: " ++ e.message

/-- A word, given in base ten.  A minus sign is understood, so zero may have one. -/
def word (cs : List Char) : Except Error Word :=
  let value := match cs with
    | '-' :: c :: rest => digits 10 1 0 (c :: rest)
    | cs => natural 10 0x100000000 cs
  value.map (BitVec.ofNat 32)

/-- A number below `2 ^ 64`, given in base ten. -/
def count (cs : List Char) : Except Error Nat := natural 10 0x10000000000000000 cs

end Rv32.Numeral
