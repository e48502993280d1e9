/-
# `Rv32.Text.Utf8` — reading text out of arbitrary bytes

A guest may print any bytes it likes.  They are shown as UTF-8, where every
ill-formed stretch becomes one replacement character: a lead byte together with
as many of its continuation bytes as fit the shortest-form, surrogate-free
encoding, and every other stray byte on its own.

The reader is a machine with one state.  `Pending` holds what a sequence begun
earlier still waits for; a byte that does not continue it closes the stretch and
is looked at afresh.
-/
import Rv32.Word

namespace Rv32.Utf8

/-- The character shown for an ill-formed stretch of bytes. -/
def replacement : Char := '\uFFFD'

/-- A multi-byte sequence that has begun. -/
structure Pending where
  /-- The number of continuation bytes still missing, the next one included. -/
  missing : Nat
  /-- The least value the next byte may have. -/
  lowest : Nat
  /-- The greatest value the next byte may have. -/
  highest : Nat
  /-- The code point bits collected so far. -/
  bits : Nat

/-- What a byte means where a character begins: the characters it completes, and
the sequence it opens. -/
def start (b : Nat) : List Char × Option Pending :=
  if b < 0x80 then ([Char.ofNat b], none)
  else if 0xC2 ≤ b ∧ b ≤ 0xDF then ([], some ⟨1, 0x80, 0xBF, b - 0xC0⟩)
  else if b = 0xE0 then ([], some ⟨2, 0xA0, 0xBF, 0⟩)
  else if b = 0xED then ([], some ⟨2, 0x80, 0x9F, 0xD⟩)
  else if 0xE1 ≤ b ∧ b ≤ 0xEF then ([], some ⟨2, 0x80, 0xBF, b - 0xE0⟩)
  else if b = 0xF0 then ([], some ⟨3, 0x90, 0xBF, 0⟩)
  else if 0xF1 ≤ b ∧ b ≤ 0xF3 then ([], some ⟨3, 0x80, 0xBF, b - 0xF0⟩)
  else if b = 0xF4 then ([], some ⟨3, 0x80, 0x8F, 4⟩)
  else ([replacement], none)

/-- The characters of a byte sequence, given the sequence that is still open. -/
def decodeFrom : Option Pending → List Nat → List Char
  | none, [] => []
  | some _, [] => [replacement]
  | none, b :: rest => (start b).1 ++ decodeFrom (start b).2 rest
  | some p, b :: rest =>
    if p.lowest ≤ b ∧ b ≤ p.highest then
      let bits := p.bits * 64 + (b - 0x80)
      if p.missing ≤ 1 then Char.ofNat bits :: decodeFrom none rest
      else decodeFrom (some ⟨p.missing - 1, 0x80, 0xBF, bits⟩) rest
    else replacement :: ((start b).1 ++ decodeFrom (start b).2 rest)

/-- The text of a byte sequence, ill-formed stretches replaced. -/
def decodeLossy (bytes : ByteArray) : String :=
  String.ofList (decodeFrom none (bytes.toList.map UInt8.toNat))

def encode (c : Char) : ByteArray := (String.singleton c).toUTF8

/-- The character with a 16-bit code point, or the replacement character where
that is a surrogate. -/
def ofHalf (h : Half) : Char :=
  if h.toNat.isValidChar then Char.ofNat h.toNat else replacement

end Rv32.Utf8
