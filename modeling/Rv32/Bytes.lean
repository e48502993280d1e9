/-
# `Rv32.Bytes` — sequences of bytes, packed and as lists

What is stored is packed; what is computed with is a list.  The two ways of
writing a sequence determine each other.
-/
import Rv32.Word

namespace Rv32.Bytes

def pack (bytes : List Byte) : ByteArray := ⟨(bytes.map UInt8.ofBitVec).toArray⟩

def unpack (data : ByteArray) : List Byte := data.data.toList.map UInt8.toBitVec

/-- The byte at an offset; zero from the end on. -/
def get (data : ByteArray) (offset : Nat) : Byte :=
  if h : offset < data.size then (data.get offset h).toBitVec else 0

end Rv32.Bytes
