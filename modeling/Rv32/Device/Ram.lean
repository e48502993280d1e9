/-
# `Rv32.Device.Ram` — main memory

Bytes that read back what was written to them.  An access of any width and
alignment reaches the memory if all of its bytes lie inside; otherwise a read
gives zero and a write does nothing.

The size can change while a machine runs.  What is cut off is lost: if the memory
grows again, the new part is zero.

Others want to know the size too, and do not have the memory at hand.  For them it is
kept a second time, in a cell that they share with the memory.
-/
import Rv32.Memory.Cells
import Rv32.Text.Hex

namespace Rv32

/-- What memories tell others of their sizes: a word for each memory that was ever made. -/
structure Lengths where
  words : Array Word

namespace Lengths

def none : Lengths := ⟨#[]⟩

/-- The number of the next word. -/
def next (l : Lengths) : Nat := l.words.size

def get (l : Lengths) (handle : Nat) : Word := l.words.getD handle 0

def set (l : Lengths) (handle : Nat) (length : Word) : Lengths :=
  ⟨l.words.setIfInBounds handle length⟩

def push (l : Lengths) (length : Word) : Lengths := ⟨l.words.push length⟩

end Lengths

structure Ram where
  start : Word
  /-- The number of bytes there are. -/
  length : Word
  /-- The contents, by offset from the first address; zero from `length` on. -/
  cells : Cells
  /-- The number of the word that tells others the length. -/
  handle : Nat

namespace Ram

/-- Whether a memory of that many bytes, of which there has to be one, ends before
the address space does. -/
def fits (start length : Word) : Bool :=
  decide (0 < length.toNat ∧ start.toNat + (length.toNat - 1) < 0x100000000)

/-- New memory of a given size, all zero, with a new word that tells the size. -/
def create (start length : Word) (lengths : Lengths) : Option Ram × Lengths :=
  if fits start length then
    (some ⟨start, length, .zero, lengths.next⟩, lengths.push length)
  else (none, lengths)

/-- The offset of an address that is not below the memory. -/
def offset? (r : Ram) (address : Word) : Option Nat :=
  if r.start.toNat ≤ address.toNat then some (address.toNat - r.start.toNat) else none

/-- The offset of an access that lies inside. -/
def locate? (r : Ram) (w : Width) (address : Word) : Option Nat :=
  (r.offset? address).filter fun offset => decide (offset + w.bytes ≤ r.length.toNat)

def read (r : Ram) (w : Width) (address : Word) : BitVec w.bits :=
  match r.locate? w address with
  | some offset => w.combine fun i => r.cells.get (offset + i)
  | none => 0

def write (r : Ram) (w : Width) (address : Word) (value : BitVec w.bits) : Ram :=
  match r.locate? w address with
  | some offset => { r with cells := r.cells.setAll offset (w.split value) }
  | none => r

/-- Copies bytes into the memory from an address on, as far as there is room.  An
address below the memory copies nothing. -/
def load (r : Ram) (address : Word) (bytes : List Byte) : Ram :=
  match r.offset? address with
  | some offset =>
    { r with cells := r.cells.setAll offset (bytes.take (r.length.toNat - offset)) }
  | none => r

/-- Gives the memory another size, if that fits, and tells it; answers whether it does. -/
def resize (r : Ram) (length : Word) (lengths : Lengths) : Bool × Ram × Lengths :=
  if fits r.start length then
    (true, { r with length, cells := r.cells.truncate length.toNat },
      lengths.set r.handle length)
  else (false, r, lengths)

def toList (r : Ram) : List Byte := (List.range r.length.toNat).map r.cells.get

end Ram
end Rv32
