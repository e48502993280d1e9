/-
# `Rv32.Word` — the words a 32-bit machine computes with

Every register, address and memory cell of the machine is a fixed-width word,
and all arithmetic on them wraps.  The four sizes a memory access can have are
collected in `Width`; a value of that many bits and the bytes it occupies in
memory determine each other, lowest byte first.
-/
namespace Rv32

/-- Eight bits: one memory cell. -/
abbrev Byte := BitVec 8

/-- Sixteen bits: one instruction parcel. -/
abbrev Half := BitVec 16

/-- Thirty-two bits: an integer register, an address, a control register. -/
abbrev Word := BitVec 32

/-- Sixty-four bits: a floating-point register, a counter. -/
abbrev Dword := BitVec 64

/-! ## Access widths -/

/-- The number of bytes a memory access covers: one, two, four or eight. -/
inductive Width where
  | byte
  | half
  | word
  | dword
deriving DecidableEq, Repr

namespace Width

@[reducible] def bytes : Width → Nat
  | .byte => 1
  | .half => 2
  | .word => 4
  | .dword => 8

/-- The number of bits of an access, eight to a byte. -/
@[reducible] def bits : Width → Nat
  | .byte => 8
  | .half => 16
  | .word => 32
  | .dword => 64

end Width

/-! ## Little-endian order -/

/-- Byte `i` of a value, counted from its low end. -/
def byteOf {n : Nat} (value : BitVec n) (i : Nat) : Byte := value.extractLsb' (8 * i) 8

/-- The number written by the first `n` bytes of `cells`, lowest byte first. -/
def littleEndian : Nat → (Nat → Byte) → Nat
  | 0, _ => 0
  | n + 1, cells => (cells 0).toNat + 256 * littleEndian n (fun i => cells (i + 1))

/-- The value an access of width `w` reads from consecutive cells. -/
def Width.combine (w : Width) (cells : Nat → Byte) : BitVec w.bits :=
  BitVec.ofNat w.bits (littleEndian w.bytes cells)

/-- The bytes of a value, lowest first. -/
def Width.split (w : Width) (value : BitVec w.bits) : List Byte :=
  (List.range w.bytes).map (byteOf value)

/-! ## Halves of a double word -/

/-- The lower half of a double word. -/
def Dword.low (d : Dword) : Word := d.setWidth 32

/-- The upper half of a double word. -/
def Dword.high (d : Dword) : Word := (d >>> 32).setWidth 32

/-- The double word with the given halves. -/
def Dword.ofHalves (high low : Word) : Dword := high ++ low

/-- `d` with its lower half replaced. -/
def Dword.setLow (d : Dword) (low : Word) : Dword := Dword.ofHalves (Dword.high d) low

/-- `d` with its upper half replaced. -/
def Dword.setHigh (d : Dword) (high : Word) : Dword := Dword.ofHalves high (Dword.low d)

end Rv32
