/-
# `Rv32.Memory.Access` — reading and writing physical addresses

An access goes to the device its first byte lies in.  If there is none, it fails
and nothing happens.  Otherwise it succeeds; a write then disturbs reservations,
and either may change the device or the registers it shows.
-/
import Rv32.Memory.Basic

namespace Rv32

/-- No device has the first address of an access. -/
structure Unmapped where
  address : Word
deriving DecidableEq, Repr

def Unmapped.message (e : Unmapped) : String :=
  "no device mapped at physical address " ++ e.address.hex

namespace Memory

/-! ## One device -/

def value (m : Memory) (d : Device) (w : Width) (address : Word) : BitVec w.bits :=
  match d with
  | .ram r => r.read w address
  | .rom r => r.read w address
  | .printer _ => 0
  | .fifo f => f.read w address
  | .ramSize s => s.read w address m.lengths
  | .clint start => m.clint.read w (address - start)

/-- The registers of the core-local interruptor after a device was written. -/
def clintAfterWrite (m : Memory) (d : Device) (w : Width) (address : Word)
    (value : BitVec w.bits) : Clint :=
  match d with
  | .clint start => m.clint.write w (address - start) value
  | .ram _ | .rom _ | .printer _ | .fifo _ | .ramSize _ => m.clint

def readDevice (m : Memory) (index : Nat) (w : Width) (address : Word) :
    BitVec w.bits × Memory :=
  match m.devices[index]? with
  | none => (0, m)
  | some d =>
    (m.value d w address,
      { m with
        devices := m.devices.modify index (·.afterRead address)
        journal := m.journal.recordAll (d.readEvents w address) })

def writeDevice (m : Memory) (index : Nat) (w : Width) (address : Word)
    (value : BitVec w.bits) : Memory :=
  match m.devices[index]? with
  | none => m
  | some d =>
    -- The device is used before it is changed, so that it can be changed in place.
    let clint := m.clintAfterWrite d w address value
    let journal := m.journal.recordAll (d.writeEvents w address value)
    { m with devices := m.devices.modify index (·.afterWrite w address value), clint, journal }

/-! ## The address space -/

def route (m : Memory) (address : Word) : Option Nat := (m.map.get? address).map (·.2)

def read (m : Memory) (w : Width) (address : Word) :
    Except Unmapped (BitVec w.bits) × Memory :=
  match m.route address with
  | none => (.error ⟨address⟩, m)
  | some index => let (value, m) := m.readDevice index w address; (.ok value, m)

def write (m : Memory) (w : Width) (address : Word) (value : BitVec w.bits) :
    Except Unmapped Unit × Memory :=
  match m.route address with
  | none => (.error ⟨address⟩, m)
  | some index =>
    let m := m.writeDevice index w address value
    (.ok (), { m with reservations := m.reservations.disturb w address })

/-- Writes bytes one after the other, up to the first that has no device. -/
def load (m : Memory) (address : Word) : List Byte → Except Unmapped Unit × Memory
  | [] => (.ok (), m)
  | b :: rest =>
    match m.write .byte address b with
    | (.ok (), m) => m.load (address + 1) rest
    | (.error e, m) => (.error e, m)

/-- Reads bytes one after the other, up to the first that has no device. -/
def dump (m : Memory) (address : Word) : Nat → Except Unmapped (List Byte) × Memory
  | 0 => (.ok [], m)
  | n + 1 =>
    match m.read .byte address with
    | (.error e, m) => (.error e, m)
    | (.ok b, m) =>
      let (rest, m) := m.dump (address + 1) n
      (rest.map (b :: ·), m)

/-! ## Reservations -/

def reserve (m : Memory) (hart : Nat) (address : Word) : Memory :=
  { m with reservations := m.reservations.reserve hart address }

/-- Ends a hart's reservation, and tells whether it was on the block of an address. -/
def takeReservation (m : Memory) (hart : Nat) (address : Word) : Bool × Memory :=
  (m.reservations.holds hart address, { m with reservations := m.reservations.drop hart })

end Memory
end Rv32
