/-
# `Rv32.Memory.Cells` — bytes that are zero until they are written

The contents of a memory of any size: a map from offsets to bytes, zero almost
everywhere.  It is kept in blocks of 4096 bytes, of which only those up to the
last one ever written exist, so a large memory costs no more than its used part.

`get` is the view through which everything else is stated.
-/
import Rv32.Word

namespace Rv32

/-- 4096 bytes. -/
structure Block where
  bytes : ByteArray
  size_eq : bytes.size = 4096

namespace Block

def zero : Block := ⟨⟨Array.replicate 4096 0⟩, Array.size_replicate⟩

def get (b : Block) (i : Fin 4096) : Byte :=
  (b.bytes.get i.val (by rw [b.size_eq]; exact i.isLt)).toBitVec

def set (b : Block) (i : Fin 4096) (value : Byte) : Block :=
  ⟨b.bytes.set i.val (.ofBitVec value) (by rw [b.size_eq]; exact i.isLt),
    Array.size_set _ |>.trans b.size_eq⟩

/-- A block with every byte from `n` on zero. -/
def truncate (b : Block) (n : Nat) : Block :=
  (List.finRange 4096).foldl (fun b i => if n ≤ i.val then b.set i 0 else b) b

end Block

/-- A map from offsets to bytes that is zero almost everywhere. -/
structure Cells where
  blocks : Array Block

namespace Cells

def block (offset : Nat) : Nat := offset / 4096

def place (offset : Nat) : Fin 4096 := ⟨offset % 4096, Nat.mod_lt _ (by decide)⟩

def zero : Cells := ⟨#[]⟩

def get (c : Cells) (offset : Nat) : Byte :=
  match c.blocks[block offset]? with
  | some b => b.get (place offset)
  | none => 0

/-- The same bytes, with at least `n` blocks. -/
def reach (c : Cells) (n : Nat) : Cells :=
  ⟨c.blocks ++ Array.replicate (n - c.blocks.size) Block.zero⟩

def set (c : Cells) (offset : Nat) (value : Byte) : Cells :=
  let grown := if block offset < c.blocks.size then c else c.reach (block offset + 1)
  ⟨grown.blocks.modify (block offset) (·.set (place offset) value)⟩

/-- Replaces consecutive bytes, from an offset on. -/
def setAll (c : Cells) (offset : Nat) : List Byte → Cells
  | [] => c
  | b :: rest => (c.set offset b).setAll (offset + 1) rest

/-- The bytes with every one from offset `n` on zero. -/
def truncate (c : Cells) (n : Nat) : Cells :=
  ⟨(c.blocks.extract 0 (block n + 1)).modify (block n) (·.truncate (n % 4096))⟩

end Cells
end Rv32
