/-
# `Rv32.Device.Clint` — the core-local interruptor

For each hart a software interrupt bit and a timer comparator, and for all of
them one clock.  The registers are shared: harts read them to learn which
interrupts are pending, and a window of the address space shows them to guests.  The
clock goes on by itself; setting it moves its offset.

In the window every register is made of words.  A double word is two of them, the
lower one first; accesses of less than a word are refused and reported.
-/
import Rv32.Device.TimeBase
import Rv32.Journal

namespace Rv32

structure HartTimer where
  software : Bool
  /-- The time from which on a timer interrupt is pending. -/
  compare : Dword
deriving DecidableEq, Repr

/-- The core-local interruptor. -/
structure Clint where
  harts : Array HartTimer
  clock : TimeBase
deriving DecidableEq, Repr

namespace Clint

/-- A timer that is not set: no software interrupt, and a comparator so late that
no clock will reach it. -/
def unset : HartTimer := ⟨false, 0x7FFFFFFFFFFFFFFF⟩

def init (harts : Nat) : Clint := ⟨Array.replicate harts unset, .start⟩

/-! ## Registers -/

/-- Whether a hart's software interrupt is pending; false for a hart that is not
there. -/
def software (c : Clint) (hart : Nat) : Bool :=
  match c.harts[hart]? with
  | some t => t.software
  | none => false

/-- A hart's comparator; the greatest number for a hart that is not there. -/
def compare (c : Clint) (hart : Nat) : Dword :=
  match c.harts[hart]? with
  | some t => t.compare
  | none => 0xFFFFFFFFFFFFFFFF

/-- Sets the software interrupt bit of a hart, if it is there. -/
def setSoftware (c : Clint) (hart : Nat) (value : Bool) : Clint :=
  { c with harts := c.harts.modify hart fun t => { t with software := value } }

/-- Sets the comparator of a hart, if it is there. -/
def setCompare (c : Clint) (hart : Nat) (value : Dword) : Clint :=
  { c with harts := c.harts.modify hart fun t => { t with compare := value } }

/-- The time, in microseconds. -/
def time (c : Clint) : Dword := c.clock.now

def setTime (c : Clint) (value : Dword) : Clint := { c with clock := c.clock.set value }

/-- The registers some time later. -/
def later (c : Clint) (microseconds : Nat) : Clint :=
  { c with clock := c.clock.later microseconds }

/-! ## The window -/

def windowLength : Word := 0x10000

inductive Place where
  | software (hart : Nat)
  | compareLow (hart : Nat)
  | compareHigh (hart : Nat)
  | timeLow
  | timeHigh
  | unused
deriving DecidableEq, Repr

/-- The word an offset lies in.  The interrupt bits take a word for each hart, the
comparators two; the clock has exactly two offsets. -/
def place (offset : Word) : Place :=
  let o := offset.toNat
  if o < 0x4000 then .software (o / 4)
  else if o < 0xBFF8 then
    if o % 8 = 4 then .compareHigh ((o - 0x4000) / 8) else .compareLow ((o - 0x4000) / 8)
  else if o = 0xBFF8 then .timeLow
  else if o = 0xBFFC then .timeHigh
  else .unused

def readWord (c : Clint) (offset : Word) : Word :=
  match place offset with
  | .software hart => if c.software hart then 1 else 0
  | .compareLow hart => if hart < c.harts.size then Dword.low (c.compare hart) else 0
  | .compareHigh hart => if hart < c.harts.size then Dword.high (c.compare hart) else 0
  | .timeLow => Dword.low c.time
  | .timeHigh => Dword.high c.time
  | .unused => 0

/-- The registers after a word is written at an offset. -/
def writeWord (c : Clint) (offset value : Word) : Clint :=
  match place offset with
  | .software hart => c.setSoftware hart (value.getLsbD 0)
  | .compareLow hart => c.setCompare hart (Dword.setLow (c.compare hart) value)
  | .compareHigh hart => c.setCompare hart (Dword.setHigh (c.compare hart) value)
  | .timeLow => c.setTime (Dword.setLow c.time value)
  | .timeHigh => c.setTime (Dword.setHigh c.time value)
  | .unused => c

def read (c : Clint) (w : Width) (offset : Word) : BitVec w.bits :=
  match w with
  | .byte | .half => 0
  | .word => c.readWord offset
  | .dword => Dword.ofHalves (c.readWord (offset + 4)) (c.readWord offset)

/-- The registers after a write at an offset. -/
def write (c : Clint) (w : Width) (offset : Word) (value : BitVec w.bits) : Clint :=
  match w, value with
  | .byte, _ | .half, _ => c
  | .word, value => c.writeWord offset value
  | .dword, value => (c.writeWord offset (Dword.low value)).writeWord (offset + 4) (Dword.high value)

def events (access : Access) (w : Width) (address : Word) : List Event :=
  match w with
  | .byte | .half => [.narrowAccess access w address]
  | .word | .dword => []

end Clint
end Rv32
