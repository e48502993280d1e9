/-
# `Rv32.Access` — kinds of access and alignment

A hart touches memory to read, to write or to fetch an instruction.  An access
is naturally aligned when its address is a multiple of its size; an alignment is
kept as the exponent of that power of two, so every value of the type is one.
-/
import Rv32.Word

namespace Rv32

/-- What a hart wants of the memory it touches. -/
inductive Access where
  | read
  | write
  | execute
deriving DecidableEq, Repr

/-- A requirement that an address be a multiple of a power of two below `2 ^ 32`. -/
structure Alignment where
  exponent : Fin 32
deriving DecidableEq, Repr

namespace Alignment

def byte : Alignment := ⟨0⟩

def half : Alignment := ⟨1⟩

def word : Alignment := ⟨2⟩

def dword : Alignment := ⟨3⟩

def ofWidth : Width → Alignment
  | .byte => byte
  | .half => half
  | .word => word
  | .dword => dword

/-- The natural alignment of a unit of `size` bytes, which has to be a power of two. -/
def natural? (size : Word) : Option Alignment :=
  let exponent := size.toNat.log2
  if h : exponent < 32 then
    if Nat.pow 2 exponent = size.toNat then some ⟨⟨exponent, h⟩⟩ else none
  else none

def admits (a : Alignment) (address : Word) : Bool := address.toNat % Nat.pow 2 a.exponent.val == 0

end Alignment
end Rv32
