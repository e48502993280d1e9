/-
# `Rv32.Instruction.Parcel` — instructions of two lengths

Instructions come in parcels of 16 bits, and the lowest two bits of the first tell
whether there is a second.  A word holds an instruction in either case: all of it
is the instruction, or its low half is.
-/
import Rv32.Instruction.Compressed.Decode
import Rv32.Instruction.Decode

namespace Rv32.Instruction

def length (first : Half) : Length :=
  if first.extractLsb' 0 2 = 0b11#2 then .full else .compressed

def ofWord (w : Word) : Except DecodeError Instruction :=
  match length (w.setWidth 16) with
  | .full => decode w
  | .compressed => decodeCompressed (w.setWidth 16)

end Rv32.Instruction
