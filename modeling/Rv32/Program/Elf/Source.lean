/-
# `Rv32.Program.Elf.Source` — numbers in executable files

Executable files come with two word sizes and two byte orders.  A `Source` is a
file of which both are known, so that numbers can be read from it.  Fields have
the same sizes in the same table for either word size, except that those of the
size of an address grow with it; hence their places are given for both.

Whatever a file refers to by offset and size has to lie in it.  Of nothing at all
a string table may also begin at the end of the file, while most other tables
have to begin before it; `demand` and `demandBegun` are the two rules.
-/
import Rv32.Bytes
import Rv32.Text.Hex

namespace Rv32.Elf

inductive Order where
  /-- The lowest byte first. -/
  | little
  /-- The highest byte first. -/
  | big
deriving DecidableEq, Repr

/-- Why a file cannot be used. -/
inductive Error where
  /-- It does not begin as such files do. -/
  | notElf
  /-- It has no known word size. -/
  | unknownClass
  | unknownOrder
  /-- Something it has to contain reaches past its end. -/
  | truncated
  | notText
  /-- A section reaches past the end of all addresses. -/
  | sectionWraps
  /-- A table to look up symbols has no buckets, no first symbol or no filter. -/
  | emptyHash
  /-- The contents of the segment with this address reach past its end. -/
  | segmentOutside (address : Word)
deriving DecidableEq, Repr

def Error.reason : Error → String
  | .notElf => "not an ELF file"
  | .unknownClass => "unknown ELF class"
  | .unknownOrder => "unknown ELF byte order"
  | .truncated => "the file is truncated"
  | .notText => "a string table is not text"
  | .sectionWraps => "a section leaves the address space"
  | .emptyHash => "a symbol hash table is empty"
  | .segmentOutside address => "segment at " ++ address.hex ++ " lies outside the file"

def Error.message (e : Error) : String := "Malformed entity: " ++ e.reason

/-- A file, and how its numbers are written. -/
structure Source where
  file : ByteArray
  /-- Whether addresses have 64 bits; otherwise they have 32. -/
  wide : Bool
  order : Order

namespace Source

/-! ## What lies in a file -/

/-- Demands that bytes lie in the file. -/
def demand (s : Source) (offset size : Nat) : Except Error Unit :=
  if offset + size ≤ s.file.size then .ok () else .error .truncated

/-- Demands that bytes lie in the file, and begin before its end even if there are none. -/
def demandBegun (s : Source) (offset size : Nat) : Except Error Unit :=
  if offset < s.file.size then s.demand offset size else .error .truncated

/-- Demands that bytes, if there are any, lie in the file. -/
def demandAny (s : Source) (offset size : Nat) : Except Error Unit :=
  if size = 0 then .ok () else s.demand offset size

/-- Demands that bytes lie in the file and are text. -/
def demandText (s : Source) (offset size : Nat) : Except Error Unit := do
  s.demand offset size
  if (s.file.extract offset (offset + size)).validateUTF8 then return else throw .notText

/-! ## Numbers -/

/-- The number that some bytes make. -/
def number (s : Source) (offset size : Nat) : Except Error Nat := do
  s.demand offset size
  return littleEndian size fun i =>
    match s.order with
    | .little => Bytes.get s.file (offset + i)
    | .big => Bytes.get s.file (offset + (size - 1 - i))

def half (s : Source) (offset : Nat) : Except Error Nat := s.number offset 2

def word (s : Source) (offset : Nat) : Except Error Nat := s.number offset 4

/-- One of two numbers, the first for addresses of 32 bits, the second for addresses of 64. -/
def either (s : Source) (narrow wide : Nat) : Nat := if s.wide then wide else narrow

def addressSize (s : Source) : Nat := s.either 4 8

def address (s : Source) (offset : Nat) : Except Error Nat := s.number offset s.addressSize

/-- Reads the entries of a table, all of one size. -/
def table {α : Type} (s : Source) (read : Nat → Except Error α) (offset count size : Nat) :
    Except Error (List α) := do
  s.demand offset (count * size)
  (List.range count).mapM fun i => read (offset + i * size)

end Source
end Rv32.Elf
