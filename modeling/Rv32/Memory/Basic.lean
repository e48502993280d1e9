/-
# `Rv32.Memory.Basic` — the physical address space

Devices, the map that says which addresses belong to which of them, the
reservations on what they hold, and what devices and harts share: the core-local
interruptor, the sizes that memories tell, and the journal.

Devices are named by the order in which they were added.  No two of them have an
address in common; a device that cannot be given its place is not added, and a
device that cannot keep its place is not resized.
-/
import Rv32.Address.Map
import Rv32.Device.Basic
import Rv32.Memory.Reservation

namespace Rv32

/-- The physical address space. -/
structure Memory where
  devices : Array Device
  map : Address.Map Nat
  reservations : Reservations
  clint : Clint
  lengths : Lengths
  journal : Journal

/-- Why a device has no place. -/
inductive MapError where
  /-- It has no addresses, or too many for where it starts. -/
  | invalidBounds (name : String) (source : Address.InvalidBounds)
  /-- It would meet another device. -/
  | overlap (source : Address.Overlap)
  | fixedSize (name : String)
  | unknownDevice (index : Nat)

def MapError.message : MapError → String
  | .invalidBounds name _ => "device " ++ name ++ " does not occupy a valid address range"
  | .overlap source => source.message
  | .fixedSize name => "device " ++ name ++ " cannot be resized"
  | .unknownDevice index => s!"no device with index {index}"

namespace Memory

/-- An address space without devices. -/
def empty (clint : Clint) (journal : Journal) : Memory :=
  ⟨#[], Address.Map.empty, Reservations.none, clint, .none, journal⟩

def record (m : Memory) (e : Event) : Memory := { m with journal := m.journal.record e }

def device? (m : Memory) (index : Nat) : Option Device := m.devices[index]?

/-- The address space with a device replaced by one that occupies the same addresses. -/
def setDevice (m : Memory) (index : Nat) (d : Device) : Memory :=
  { m with devices := m.devices.set! index d }

/-- Makes main memory.  It is not in the address space yet. -/
def makeRam (m : Memory) (start length : Word) : Option Ram × Memory :=
  let (made, lengths) := Ram.create start length m.lengths
  (made, { m with lengths })

/-! ## Placing devices -/

def rangeOf (d : Device) : Except MapError Address.Range :=
  d.range.mapError (.invalidBounds d.name)

/-- Gives a device its place in a map. -/
def place (map : Address.Map Nat) (d : Device) (index : Nat) :
    Except MapError Unit × Address.Map Nat :=
  match rangeOf d with
  | .error e => (.error e, map)
  | .ok range => let (result, map) := map.insert range index; (result.mapError .overlap, map)

/-- Adds a device, and gives its index. -/
def add (m : Memory) (d : Device) : Except MapError Nat × Memory :=
  match rangeOf d with
  | .error e => (.error e, m)
  | .ok range =>
    let index := m.devices.size
    match m.map.insert range index with
    | (.error e, map) => (.error (.overlap e), { m with map })
    | (.ok (), map) =>
      let m := { m with map }.record (.mapped d.name d.description range)
      (.ok index, { m with devices := m.devices.push d })

/-- Gives devices their places in a map, the first of which has a given index. -/
def placeAll (map : Address.Map Nat) :
    List Device → Nat → Except MapError Unit × Address.Map Nat
  | [], _ => (.ok (), map)
  | d :: rest, index =>
    match place map d index with
    | (.ok (), map) => placeAll map rest (index + 1)
    | (.error e, map) => (.error e, map)

/-- Gives a device another length, and answers whether it has it.  The map does not know. -/
def resizeDevice (m : Memory) (index : Nat) (length : Word) : Bool × Memory :=
  match m.devices[index]? with
  | none => (false, m)
  | some d =>
    let (done, d, lengths) := d.resize length m.lengths
    (done, { m with devices := m.devices.set! index d, lengths })

/-- Gives a device another length, and all devices their places anew.  A device that would
meet another gets its length back. -/
def resizeInPlace (m : Memory) (index : Nat) (length : Word) : Except MapError Unit × Memory :=
  match m.devices[index]? with
  | none => (.error (.unknownDevice index), m)
  | some d =>
    match m.resizeDevice index length with
    | (false, m) => (.error (.fixedSize d.name), m)
    | (true, m) =>
      match placeAll Address.Map.empty m.devices.toList 0 with
      | (.ok (), map) => (.ok (), { m with map })
      | (.error e, _) => (.error e, (m.resizeDevice index d.length).2)

end Memory
end Rv32
