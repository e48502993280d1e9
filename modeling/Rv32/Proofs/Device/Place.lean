/-
# `Rv32.Proofs.Device.Place` — where devices are

A device has the addresses from its start on, as many as it is long (`Device.Has`).  It can be
given them if there is one and the address space does not end before (`Device.Fits`), and two
devices can both be there if they have no address in common (`Device.Apart`).

Being read and written moves no device, leaves main memory without a byte beyond its length,
and does not change what it tells of this.  Only main memory can change its length.
-/
import Rv32.Device.Basic
import Rv32.Proofs.Address.Map
import Rv32.Proofs.Device.Ram

namespace Rv32.Device

open Address (Range)

variable {d d' : Device}

/-! ## Addresses -/

/-- A device has an address. -/
def Has (d : Device) (address : Word) : Prop :=
  d.start.toNat ≤ address.toNat ∧ address.toNat < d.start.toNat + d.length.toNat

instance (d : Device) (address : Word) : Decidable (d.Has address) :=
  inferInstanceAs (Decidable (_ ∧ _))

/-- A device has an address at all, and none beyond the end of the address space. -/
def Fits (d : Device) : Prop :=
  0 < d.length.toNat ∧ d.start.toNat + d.length.toNat ≤ 0x100000000

/-- Two devices have no address in common. -/
def Apart (d d' : Device) : Prop := ∀ address, ¬(d.Has address ∧ d'.Has address)

theorem Apart.symm (h : d.Apart d') : d'.Apart d := fun address hboth => h address hboth.symm

theorem Fits.has_start (h : d.Fits) : d.Has d.start := by
  have := h.1
  unfold Has
  omega

/-- A range is that of a device. -/
def Occupies (d : Device) (range : Range) : Prop :=
  range.first = d.start ∧ range.last.toNat + 1 = d.start.toNat + d.length.toNat

theorem range_eq_ok_iff {range : Range} : d.range = .ok range ↔ d.Fits ∧ d.Occupies range :=
  Range.ofLength_eq_ok_iff

theorem Fits.exists_range (h : d.Fits) : ∃ range, d.range = .ok range :=
  Range.exists_ofLength h.1 h.2

/-- A range contains the addresses of the device it is of. -/
theorem Occupies.contains_iff {range : Range} (h : d.Occupies range) {address : Word} :
    range.contains address = true ↔ d.Has address := by
  obtain ⟨hfirst, hlast⟩ := h
  rw [Range.contains_iff, hfirst, Has]
  omega

theorem Occupies.overlaps_iff {range range' : Range} (h : d.Occupies range)
    (h' : d'.Occupies range') : range.overlaps range' = true ↔ ¬d.Apart d' := by
  simp only [Range.overlaps_iff, h.contains_iff, h'.contains_iff, Apart, not_forall, not_not]

/-! ## Devices that stay where they are -/

/-- A device is where another is. -/
def SamePlace (d d' : Device) : Prop := d'.start = d.start ∧ d'.length = d.length

theorem SamePlace.range_eq (h : SamePlace d d') : d'.range = d.range := by
  rw [range, range, h.1, h.2]

theorem samePlace_afterRead (d : Device) (address : Word) :
    SamePlace d (d.afterRead address) := by
  cases d with
  | fifo f =>
      unfold SamePlace
      simp only [afterRead, Fifo.afterRead]
      split <;> exact ⟨rfl, rfl⟩
  | ram | rom | printer | ramSize | clint => exact ⟨rfl, rfl⟩

theorem samePlace_afterWrite (d : Device) (w : Width) (address : Word) (value : BitVec w.bits) :
    SamePlace d (d.afterWrite w address value) := by
  cases d with
  | ram r => exact ⟨r.write_start w address value, r.write_length w address value⟩
  | printer p =>
      unfold SamePlace
      simp only [afterWrite, Printer.write]
      split <;> exact ⟨rfl, rfl⟩
  | fifo f =>
      unfold SamePlace
      simp only [afterWrite, Fifo.write, Fifo.writeByte]
      split
      · exact ⟨rfl, rfl⟩
      · split <;> exact ⟨rfl, rfl⟩
  | rom | ramSize | clint => exact ⟨rfl, rfl⟩

/-! ## Devices with nothing beyond their length -/

/-- A device is not a main memory that keeps bytes beyond its length. -/
def Trim (d : Device) : Prop := ∀ r, d = .ram r → r.Trim

theorem trim_ram {r : Ram} : (Device.ram r).Trim ↔ r.Trim := by
  constructor
  · exact fun h => h r rfl
  · rintro h _ ⟨⟩
    exact h

theorem Trim.afterRead (h : d.Trim) (address : Word) : (d.afterRead address).Trim := by
  intro r hr
  cases d with
  | ram r => exact h _ hr
  | fifo | rom | printer | ramSize | clint => cases hr

theorem Trim.afterWrite (h : d.Trim) (w : Width) (address : Word) (value : BitVec w.bits) :
    (d.afterWrite w address value).Trim := by
  intro r hr
  cases d with
  | ram r' =>
      cases hr
      exact (h r' rfl).write w address value
  | fifo | rom | printer | ramSize | clint => cases hr

/-! ## What is told of a length -/

/-- The length of a main memory, and the handle under which it is told. -/
def told? (d : Device) : Option (Nat × Word) :=
  match d with
  | .ram r => some (r.handle, r.length)
  | .rom _ | .printer _ | .fifo _ | .ramSize _ | .clint _ => none

theorem told?_eq_some_iff {handle : Nat} {length : Word} :
    d.told? = some (handle, length) ↔ ∃ r, d = .ram r ∧ r.handle = handle ∧ r.length = length := by
  cases d with
  | ram r =>
      rw [told?, Option.some.injEq, Prod.mk.injEq]
      constructor
      · exact fun h => ⟨r, rfl, h⟩
      · rintro ⟨_, ⟨⟩, h⟩
        exact h
  | rom | printer | fifo | ramSize | clint =>
      refine iff_of_false nofun ?_
      rintro ⟨_, hd, -⟩
      cases hd

theorem told?_afterRead (d : Device) (address : Word) : (d.afterRead address).told? = d.told? := by
  cases d <;> rfl

theorem told?_afterWrite (d : Device) (w : Width) (address : Word) (value : BitVec w.bits) :
    (d.afterWrite w address value).told? = d.told? := by
  cases d with
  | ram r => simp only [afterWrite, told?, r.write_handle, r.write_length]
  | rom | printer | fifo | ramSize | clint => rfl

/-! ## Another length -/

theorem fits_resized {r : Ram} {length : Word} :
    (Device.ram (r.resized length)).Fits ↔ Ram.fits r.start length = true := Ram.fits_iff.symm

/-- Either a device is main memory and can have the length, or nothing has changed. -/
theorem resize_cases (d : Device) (length : Word) (lengths : Lengths) :
    (∃ r, d = .ram r ∧ (Device.ram (r.resized length)).Fits ∧
      d.resize length lengths =
        (true, .ram (r.resized length), lengths.set r.handle length)) ∨
    d.resize length lengths = (false, d, lengths) ∧
      ∀ r, d = .ram r → ¬(Device.ram (r.resized length)).Fits := by
  simp only [fits_resized]
  cases d with
  | ram r =>
      by_cases ends : Ram.fits r.start length = true
      · exact .inl ⟨r, rfl, ends, by rw [resize, Ram.resize_of_fits ends]⟩
      · refine .inr ⟨by rw [resize, Ram.resize_of_not_fits ends], ?_⟩
        rintro _ ⟨⟩
        exact ends
  | rom | printer | fifo | ramSize | clint => exact .inr ⟨rfl, nofun⟩

end Rv32.Device
