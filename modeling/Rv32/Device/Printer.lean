/-
# `Rv32.Device.Printer` — the debug printer

One register.  A byte written to it is printed as it is, so a guest can print any
UTF-8 text byte by byte; a wider value prints the character whose code point is
its low sixteen bits.  The register reads zero.
-/
import Rv32.Text.Utf8

namespace Rv32

structure Printer where
  start : Word
  /-- Everything printed so far. -/
  printed : ByteArray

namespace Printer

def init (start : Word) : Printer := ⟨start, .empty⟩

def output (w : Width) (value : BitVec w.bits) : ByteArray :=
  match w with
  | .byte => ⟨#[.ofBitVec (value.setWidth 8)]⟩
  | .half | .word | .dword => Utf8.encode (Utf8.ofHalf (value.setWidth 16))

def write (p : Printer) (w : Width) (address : Word) (value : BitVec w.bits) : Printer :=
  if address = p.start then { p with printed := p.printed ++ output w value } else p

end Printer
end Rv32
