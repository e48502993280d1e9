/-
# `Rv32.Program.Elf` — executable files in the executable and linkable format

Of such a file two things are kept: where execution starts, and which parts of the
file belong where in memory.  Both word sizes and both byte orders are understood.

A file is refused if it has another format, or if a part that its header, its
sections or its dynamic table refer to is not in it.  Where the segments' contents
lie is not checked here.
-/
import Rv32.Program.Elf.Dynamic

namespace Rv32

structure Elf where
  entry : Nat
  segments : List Elf.Segment
deriving DecidableEq, Repr

namespace Elf

/-- The first four bytes of every file. -/
def magic : List Byte := [0x7F, 0x45, 0x4C, 0x46]

/-- Whether a file begins as it has to.  Sixteen bytes tell what kind of file it is. -/
def identified (file : ByteArray) : Bool :=
  decide (16 ≤ file.size) && (List.range 4).map (Bytes.get file) == magic

def wide? (file : ByteArray) : Except Error Bool :=
  match (Bytes.get file 4).toNat with
  | 1 => .ok false
  | 2 => .ok true
  | _ => .error .unknownClass

def order? (file : ByteArray) : Except Error Order :=
  match (Bytes.get file 5).toNat with
  | 1 => .ok .little
  | 2 => .ok .big
  | _ => .error .unknownOrder

/-- A file that numbers can be read from, and that has a whole header. -/
def source? (file : ByteArray) : Except Error Source := do
  if !identified file then throw .notElf
  let s : Source := ⟨file, ← wide? file, ← order? file⟩
  s.demand 0 (s.either 52 64)
  return s

def parse (file : ByteArray) : Except Error Elf := do
  let s ← source? file
  let entry ← s.address 24
  let segments ← s.segments
  s.checkSections
  s.checkDynamic segments
  return ⟨entry, segments⟩

end Elf
end Rv32
