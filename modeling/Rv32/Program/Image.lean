/-
# `Rv32.Program.Image` — what a program puts into memory

A program brings a read-only image, parts to be written to memory before it
starts, and the address it starts at.

A flat program is its own read-only image.  Of an executable file the segments
that may not be written and begin in the range kept for read-only memory make up
that image; they are laid over each other in the order of the file, and where
none of them is, there are zeros.  All other segments are parts.

A segment may ask for more bytes than the host can keep in one piece.  Nothing is
made of such a file: asking the host for so many ends the command.
-/
import Rv32.Attempt
import Rv32.Journal
import Rv32.Program.Elf

namespace Rv32

/-- A part of a program: bytes with the address of the first. -/
structure Part where
  address : Word
  data : List Byte
deriving DecidableEq, Repr

structure Image where
  /-- The contents of read-only memory. -/
  rom : List Byte
  /-- What is written to memory before the program starts, in order. -/
  parts : List Part
  entry : Word
deriving DecidableEq, Repr

namespace Image

/-- Why a file has no image. -/
inductive Failure where
  | malformed (error : Elf.Error)
  /-- It asks for more bytes than can be kept in one piece. -/
  | overflow
deriving DecidableEq

/-- The greatest number of bytes that the host keeps in one piece. -/
def capacity : Nat := 0x7FFFFFFFFFFFFFFF

/-- A flat program, which read-only memory at a given address holds. -/
def flat (romBase : Word) (data : List Byte) : Image := ⟨data, [], romBase⟩

/-! ## Segments -/

/-- Whether the contents of a segment lie in a file. -/
def inFile (file : ByteArray) (s : Elf.Segment) : Bool :=
  decide (s.offset + s.fileSize ≤ file.size)

/-- What a segment puts into memory: its bytes of the file, as many as fit, and then
zeros. -/
def contents (file : ByteArray) (s : Elf.Segment) : List Byte :=
  (List.range s.memorySize).map fun i =>
    if i < s.fileSize then Bytes.get file (s.offset + i) else 0

def part (file : ByteArray) (s : Elf.Segment) : Except Failure Part :=
  if inFile file s then
    if s.memorySize ≤ capacity then .ok ⟨s.start, contents file s⟩ else .error .overflow
  else .error (.malformed (.segmentOutside s.start))

/-- Whether a segment belongs into the read-only memory between two addresses. -/
def inRom (romBase romEnd : Word) (s : Elf.Segment) : Bool :=
  decide (romBase ≤ s.start ∧ s.start < romEnd) && !s.writable

/-! ## Laying out segments -/

/-- Bytes with others laid over them, from an offset on.  Between the end of the bytes
and the offset there are zeros. -/
def overlay (bytes : List Byte) (offset : Nat) (data : List Byte) : List Byte :=
  (bytes.take offset).rightpad offset 0 ++ data ++ bytes.drop (offset + data.length)

/-- Read-only memory grows if it does not reach as far as what is laid over it. -/
def place (romBase romEnd : Word) (image : Image) (s : Elf.Segment) (p : Part) :
    Except Failure Image :=
  if inRom romBase romEnd s then
    let offset := (p.address - romBase).toNat
    let finish := offset + p.data.length
    if image.rom.length < finish ∧ capacity < finish then .error .overflow
    else .ok { image with rom := overlay image.rom offset p.data }
  else .ok { image with parts := image.parts ++ [p] }

/-- Lays out a segment, which is reported before it gets its place. -/
def layOut (file : ByteArray) (romBase romEnd : Word) (image : Image) (s : Elf.Segment) :
    Attempt Failure Journal Image := do
  let p ← part file s
  modify (·.record (.segment p.address p.data.length))
  place romBase romEnd image s p

/-- The image of an executable file, with read-only memory between two addresses. -/
def ofElf (file : ByteArray) (elf : Elf) (romBase romEnd : Word) :
    Attempt Failure Journal Image :=
  (elf.segments.filter (·.loadable)).foldlM (layOut file romBase romEnd)
    ⟨[], [], BitVec.ofNat 32 elf.entry⟩

end Image
end Rv32
