/-
# `Rv32.Csr.File` — storage of the control registers

One word for each of the 4096 numbers.  Which registers are more than storage is
not decided here.
-/
import Rv32.Csr.Number
import Rv32.Csr.Status

namespace Rv32

/-- The stored words of all control registers. -/
structure CsrFile where
  words : Vector Word 4096
deriving DecidableEq

namespace CsrFile

/-- All words zero. -/
def init : CsrFile := ⟨Vector.replicate 4096 0⟩

def get (f : CsrFile) (c : Csr) : Word := f.words.get c.toFin

def set (f : CsrFile) (c : Csr) (value : Word) : CsrFile := ⟨f.words.set c.toFin value c.isLt⟩

def setMasked (f : CsrFile) (c : Csr) (value mask : Word) : CsrFile :=
  f.set c ((f.get c &&& ~~~mask) ||| (value &&& mask))

def status (f : CsrFile) : Status := ⟨f.get Csr.mstatus⟩

def setStatus (f : CsrFile) (s : Status) : CsrFile := f.set Csr.mstatus s.bits

/-- The file with the given words, of which there have to be 4096. -/
def ofWords? (words : Array Word) : Option CsrFile :=
  if h : words.size = 4096 then some ⟨⟨words, h⟩⟩ else none

end CsrFile
end Rv32
