/-
# `Rv32.Device.Basic` — everything that can be mapped into the address space

A device occupies a range of addresses and answers accesses to it.  An access
belongs to the device that its first byte lies in, so a wide access may run past
the end of a device; each kind says what it makes of that.

A device may keep a state of its own; two kinds also look outside themselves: the
window of the core-local interruptor shows registers that harts share, and the
size register a word that it shares with a memory.
-/
import Rv32.Device.Clint
import Rv32.Device.Fifo
import Rv32.Device.Printer
import Rv32.Device.RamSize
import Rv32.Device.Rom

namespace Rv32

/-- A device. -/
inductive Device where
  | ram (ram : Ram)
  | rom (rom : Rom)
  | printer (printer : Printer)
  | fifo (fifo : Fifo)
  | ramSize (register : RamSize)
  /-- A window on the core-local interruptor. -/
  | clint (start : Word)

namespace Device

/-! ## Place and name -/

def start : Device → Word
  | .ram r => r.start
  | .rom r => r.start
  | .printer p => p.start
  | .fifo f => f.start
  | .ramSize s => s.start
  | .clint start => start

def length : Device → Word
  | .ram r => r.length
  | .rom r => r.length
  | .printer _ => 1
  | .fifo _ => 3
  | .ramSize _ => 4
  | .clint _ => Clint.windowLength

def range (d : Device) : Except Address.InvalidBounds Address.Range :=
  Address.Range.ofLength d.start d.length

def name : Device → String
  | .ram _ => "ram"
  | .rom _ => "rom"
  | .printer _ => "debug_fifo"
  | .fifo _ => "component_fifo"
  | .ramSize _ => "ram_size"
  | .clint _ => "clint"

def description : Device → String
  | .ram _ => "Main memory"
  | .rom _ => "Firmware ROM"
  | .printer _ => "Debug print FIFO"
  | .fifo _ => "Component interface FIFO"
  | .ramSize _ => "RAM size"
  | .clint _ => "Core local interruptor"

/-! ## Effects on the device itself -/

/-- A device after it was read: a channel has handed out a byte. -/
def afterRead (d : Device) (address : Word) : Device :=
  match d with
  | .fifo f => .fifo (f.afterRead address)
  | .ram _ | .rom _ | .printer _ | .ramSize _ | .clint _ => d

def afterWrite (d : Device) (w : Width) (address : Word) (value : BitVec w.bits) : Device :=
  match d with
  | .ram r => .ram (r.write w address value)
  | .printer p => .printer (p.write w address value)
  | .fifo f => .fifo (f.write w address value)
  | .rom _ | .ramSize _ | .clint _ => d

/-- Gives a device another length, and answers whether it has it.  Only main memory can
change its length. -/
def resize (d : Device) (length : Word) (lengths : Lengths) : Bool × Device × Lengths :=
  match d with
  | .ram r => let (done, r, lengths) := r.resize length lengths; (done, .ram r, lengths)
  | .rom _ | .printer _ | .fifo _ | .ramSize _ | .clint _ => (false, d, lengths)

/-! ## Reports -/

def readEvents (d : Device) (w : Width) (address : Word) : List Event :=
  match d with
  | .clint _ => Clint.events .read w address
  | .ram _ | .rom _ | .printer _ | .fifo _ | .ramSize _ => []

def writeEvents (d : Device) (w : Width) (address : Word) (value : BitVec w.bits) : List Event :=
  match d with
  | .clint _ => Clint.events .write w address
  | .rom _ => Rom.writeEvents w address value
  | .ram _ | .printer _ | .fifo _ | .ramSize _ => []

end Device
end Rv32
