/-
# `Rv32.Proofs.Memory.Contents` — the bytes of main memory and the reservations

What harts have in common is main memory, byte by byte, and the reservations on it.
`ramByte?` is the byte a device has at an address, if the device is main memory and has
the address.

Reading changes neither (`Undisturbed`), whatever is read; so a translation does not
either, because all it does to memory is to read it.  A write changes bytes of the two
blocks of sixteen bytes in which it begins and ends, and no other.
-/
import Rv32.Proofs.Memory.Access
import Rv32.Proofs.Mmu.Basic

namespace Rv32

/-! ## Blocks of sixteen bytes -/

theorem toNat_granuleOf (address : Word) : (granuleOf address).toNat = address.toNat / 16 := by
  have h := address.isLt
  simp only [granuleOf, BitVec.extractLsb'_toNat, Nat.shiftRight_eq_div_pow]
  omega

/-- Whether an access begins or ends in a block.  An access is shorter than a block, so
none of its bytes is in a third one. -/
def Width.meets (w : Width) (address : Word) (g : Granule) : Prop :=
  granuleOf address = g ∨ granuleOf (address + BitVec.ofNat 32 (w.bytes - 1)) = g

instance (w : Width) (address : Word) (g : Granule) : Decidable (w.meets address g) :=
  inferInstanceAs (Decidable (_ ∨ _))

theorem Width.meets_of_byte (w : Width) (address : Word) {i : Nat} (hi : i < w.bytes) :
    w.meets address (granuleOf (address + BitVec.ofNat 32 i)) := by
  have hbytes : w.bytes ≤ 8 := by cases w <;> decide
  have hcases : address.toNat / 16 = ((address.toNat + i) % 2 ^ 32) / 16 ∨
      ((address.toNat + (w.bytes - 1)) % 2 ^ 32) / 16 = ((address.toNat + i) % 2 ^ 32) / 16 := by
    have h := address.isLt
    omega
  refine hcases.imp (fun h => BitVec.eq_of_toNat_eq ?_) (fun h => BitVec.eq_of_toNat_eq ?_)
  · rw [toNat_granuleOf, toNat_granuleOf, BitVec.toNat_add, BitVec.toNat_ofNat, Nat.add_mod_mod]
    exact h
  · rw [toNat_granuleOf, toNat_granuleOf, BitVec.toNat_add, BitVec.toNat_add, BitVec.toNat_ofNat,
      BitVec.toNat_ofNat, Nat.add_mod_mod, Nat.add_mod_mod]
    exact h

/-! ## The bytes of main memory -/

namespace Device

/-- The byte at an address, if the device is main memory and has the address. -/
def ramByte? (d : Device) (address : Word) : Option Byte :=
  match d with
  | .ram r => r.byteAt? address
  | .rom _ | .printer _ | .fifo _ | .ramSize _ | .clint _ => none

theorem ramByte?_afterRead (d : Device) (read address : Word) :
    (d.afterRead read).ramByte? address = d.ramByte? address := by
  cases d <;> rfl

theorem ramByte?_afterWrite (d : Device) {w : Width} {written : Word} (value : BitVec w.bits)
    {address : Word} (out : ¬w.meets written (granuleOf address)) :
    (d.afterWrite w written value).ramByte? address = d.ramByte? address := by
  cases d with
  | ram r =>
      refine r.byteAt?_write_ne value fun i hi heq => out ?_
      rw [heq]
      exact w.meets_of_byte written hi
  | rom r => rfl
  | printer p => rfl
  | fifo f => rfl
  | ramSize s => rfl
  | clint start => rfl

end Device

namespace Memory

/-- The byte a device has at an address, if it is main memory and has the address. -/
def ramByte? (m : Memory) (index : Nat) (address : Word) : Option Byte :=
  m.devices[index]?.bind (·.ramByte? address)

theorem ramByte?_of_modify {m m' : Memory} {changed : Nat} {f : Device → Device}
    (devices : m'.devices = m.devices.modify changed f) {address : Word}
    (same : ∀ d, (f d).ramByte? address = d.ramByte? address) (index : Nat) :
    m'.ramByte? index address = m.ramByte? index address := by
  simp only [ramByte?, devices, Array.getElem?_modify]
  split
  · cases m.devices[index]? with
    | none => rfl
    | some d => exact same d
  · rfl

/-- A write changes bytes only of the blocks in which it begins and ends. -/
theorem ramByte?_write (m : Memory) {w : Width} {written : Word} (value : BitVec w.bits)
    {address : Word} (out : ¬w.meets written (granuleOf address)) (index : Nat) :
    (m.write w written value).2.ramByte? index address = m.ramByte? index address := by
  rw [write_eq]
  cases m.route written with
  | none => rfl
  | some routed =>
      dsimp only [writeDevice]
      cases m.devices[routed]? with
      | none => rfl
      | some d => exact ramByte?_of_modify rfl (fun d => d.ramByte?_afterWrite value out) index

/-- Whether a device has an address. -/
def mapped (m : Memory) (address : Word) : Bool := (m.route address).isSome

section
variable {m : Memory} {w : Width} {address : Word} {value : BitVec w.bits}

/-- A write that fails does nothing. -/
theorem write_unmapped (h : m.mapped address = false) :
    m.write w address value = (.error ⟨address⟩, m) := by
  have hroute : m.route address = none := by simpa [mapped] using h
  rw [write_eq, hroute]

theorem write_mapped (h : m.mapped address = true) : (m.write w address value).1 = .ok () := by
  obtain ⟨index, hindex⟩ := Option.isSome_iff_exists.mp h
  rw [write_eq, hindex]

/-- A write ends the reservations it meets, and no other. -/
theorem write_reservations (h : m.mapped address = true) :
    (m.write w address value).2.reservations = m.reservations.disturb w address := by
  obtain ⟨index, hindex⟩ := Option.isSome_iff_exists.mp h
  rw [write_eq, hindex]
  dsimp only [writeDevice]
  cases m.devices[index]? <;> rfl

end

theorem map_write (m : Memory) (w : Width) (address : Word) (value : BitVec w.bits) :
    (m.write w address value).2.map = m.map := by
  rw [write_eq]
  cases m.route address with
  | none => rfl
  | some index =>
      dsimp only [writeDevice]
      split <;> rfl

/-- Which addresses have a device depends on the map alone. -/
theorem mapped_congr {m m' : Memory} (map : m'.map = m.map) : m'.mapped = m.mapped := by
  funext address
  simp only [mapped, route, map]

/-! ## What reading leaves as it was -/

/-- No byte of main memory differs, and no reservation; and the devices are where they
were. -/
structure Undisturbed (m m' : Memory) : Prop where
  map : m'.map = m.map
  ram : ∀ index address, m'.ramByte? index address = m.ramByte? index address
  reservations : m'.reservations = m.reservations

namespace Undisturbed

variable {m m' m'' : Memory}

theorem refl (m : Memory) : Undisturbed m m := ⟨rfl, fun _ _ => rfl, rfl⟩

theorem trans (h : Undisturbed m m') (h' : Undisturbed m' m'') : Undisturbed m m'' :=
  ⟨h'.map.trans h.map, fun index address => (h'.ram index address).trans (h.ram index address),
    h'.reservations.trans h.reservations⟩

theorem read (m : Memory) (w : Width) (address : Word) : Undisturbed m (m.read w address).2 := by
  rw [read_eq]
  cases m.route address with
  | none => exact .refl m
  | some index =>
      dsimp only [readDevice]
      cases m.devices[index]? with
      | none => exact .refl m
      | some d =>
          refine ⟨rfl, fun i b => ?_, rfl⟩
          exact ramByte?_of_modify rfl (fun d => d.ramByte?_afterRead address b) i

theorem record (m : Memory) (e : Event) : Undisturbed m (m.record e) :=
  ⟨rfl, fun _ _ => rfl, rfl⟩

end Undisturbed
end Memory

/-! ## Memory behind the memory management unit -/

open Attempt Memory

/-- A write succeeds if a device has the address. -/
theorem Mmu.physicalWrite_run (w : Width) (address : Word) (value : BitVec w.bits) (mmu : Mmu) :
    physically (·.write w address value) mmu =
      (if mmu.memory.mapped address then .ok () else .error .access,
        ⟨(mmu.memory.write w address value).2, mmu.cache⟩) := by
  rw [physically_run]
  cases h : mmu.memory.mapped address with
  | false =>
      rw [write_unmapped h]
      rfl
  | true =>
      rw [write_mapped h]
      rfl

theorem Paging.readEntry_undisturbed {m₀ m : Memory} (h : Undisturbed m₀ m) (address : Word) :
    Yields (Paging.readEntry address) m (fun _ m' => Undisturbed m₀ m')
      fun _ m' => Undisturbed m₀ m' := by
  have hread := h.trans (.read m .word address)
  rw [Yields.state]
  unfold Paging.readEntry
  split
  · rename_i run
    rw [run] at hread
    exact hread
  · rename_i run
    rw [run] at hread
    exact hread

/-- A walk reads entries and does nothing else, whether or not it finds a page. -/
theorem Paging.walk_undisturbed (c : AccessContext) (address : Word) (access : Access)
    (m : Memory) :
    Yields (Paging.walk c address access) m (fun _ m' => Undisturbed m m')
      fun _ m' => Undisturbed m m' := by
  refine Yields.bind (readEntry_undisturbed (.refl m) _) fun first m' h' => ?_
  split
  case isTrue => exact .throw h'
  case isFalse =>
    split
    case isTrue =>
      split
      · exact .throw h'
      · exact .pure h'
    case isFalse =>
      refine Yields.bind (readEntry_undisturbed h' _) fun second m'' h'' => ?_
      split
      · exact .throw h''
      · exact .pure h''

theorem Mmu.translate_undisturbed {m₀ : Memory} {mmu : Mmu} (h : Undisturbed m₀ mmu.memory)
    (c : AccessContext) (address : Word) (access : Access) :
    Yields (translate c address access) mmu (fun _ mmu' => Undisturbed m₀ mmu'.memory)
      fun _ mmu' => Undisturbed m₀ mmu'.memory := by
  rw [Yields.state, translate_run]
  by_cases hp : c.paging = true
  · rw [if_pos hp]
    cases mmu.cache.find? c address access with
    | some physical => exact h
    | none =>
        have hwalk := Paging.walk_undisturbed c address access mmu.memory
        simp only [walk_run]
        rcases hw : Paging.walk c address access mmu.memory with ⟨fault | physical, m⟩
        · exact h.trans (hwalk.error hw)
        · exact h.trans ((hwalk.ok hw).trans (.record m _))
  · rw [if_neg hp]
    exact h

end Rv32
