/-
# `Rv32.Device.Fifo` — a channel between guest and host

Three registers.  At offset 0 the guest reads the bytes the host has sent, one at
a time, and appends to its own message; offset 1 says whether a byte can be read;
at offset 2 the guest marks its message as ready, and the host then takes it.
Accesses of any width count as an access of their low byte.
-/
import Rv32.Word

namespace Rv32

/-- A channel between guest and host. -/
structure Fifo where
  start : Word
  /-- The bytes the guest has yet to read. -/
  incoming : List Byte
  /-- The guest's message so far. -/
  outgoing : Array Byte
  ready : Bool

namespace Fifo

def init (start : Word) : Fifo := ⟨start, [], #[], false⟩

/-! ## The guest's side -/

/-- The byte read at an address. -/
def byte (f : Fifo) (address : Word) : Byte :=
  if address - f.start = 0 then f.incoming.headD 0
  else if address - f.start = 1 then BitVec.ofBool (!f.incoming.isEmpty) |>.setWidth 8
  else if address - f.start = 2 then BitVec.ofBool f.ready |>.setWidth 8
  else 0

def read (f : Fifo) (w : Width) (address : Word) : BitVec w.bits :=
  (f.byte address).setWidth w.bits

/-- The channel after a read: the byte read is gone. -/
def afterRead (f : Fifo) (address : Word) : Fifo :=
  if address - f.start = 0 then { f with incoming := f.incoming.tail } else f

/-- The channel after a byte is written. -/
def writeByte (f : Fifo) (address : Word) (value : Byte) : Fifo :=
  if address - f.start = 0 then { f with outgoing := f.outgoing.push value }
  else if address - f.start = 2 then { f with ready := value != 0 }
  else f

def write (f : Fifo) (w : Width) (address : Word) (value : BitVec w.bits) : Fifo :=
  f.writeByte address (value.setWidth 8)

/-! ## The host's side -/

/-- Replaces the bytes the guest will read. -/
def send (f : Fifo) (bytes : List Byte) : Fifo := { f with incoming := bytes }

/-- The guest's message, if it is ready. -/
def message? (f : Fifo) : Option (Array Byte) := if f.ready then some f.outgoing else none

/-- The channel after the host took the message, if it was ready. -/
def afterTake (f : Fifo) : Fifo :=
  if f.ready then { f with outgoing := #[], ready := false } else f

end Fifo
end Rv32
