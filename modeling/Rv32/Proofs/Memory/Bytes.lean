/-
# `Rv32.Proofs.Memory.Bytes` — main memory as an array of bytes

Where all bytes of an access inside a page are in one device, and the device is main memory,
the access is what its bytes are.  A read gives them put together and changes nothing; a write
replaces these bytes and no others.

`Holds` says so of the bytes.  It is the only thing that what follows knows about devices: how
wide an access is makes no difference any more.
-/
import Mathlib.Algebra.Group.Nat.Defs
import Rv32.Proofs.Memory.Contents

namespace Rv32

theorem Width.getD_split (w : Width) (value : BitVec w.bits) {i : Nat} (hi : i < w.bytes) :
    (w.split value).getD i 0 = byteOf value i := by
  have inside : i < (w.split value).length := by rwa [length_split]
  rw [List.getD_eq_getElem?_getD, List.getElem?_eq_getElem inside, Option.getD_some]
  simp only [split, List.getElem_map, List.getElem_range]

theorem Width.bytes_pos (w : Width) : 0 < w.bytes := by cases w <;> decide

theorem littleEndian_byteOf {k : Nat} (value : BitVec k) (n : Nat) :
    littleEndian n (byteOf value) = value.toNat % 256 ^ n := by
  induction n generalizing value with
  | zero => exact (Nat.mod_one _).symm
  | succ n ih =>
    have first : (byteOf value 0).toNat = value.toNat % 256 := by
      simp only [byteOf, BitVec.extractLsb'_toNat, Nat.mul_zero, Nat.shiftRight_zero]
    have others : (fun i => byteOf value (i + 1)) = byteOf (value >>> 8) := by
      funext i
      apply BitVec.eq_of_toNat_eq
      simp only [byteOf, BitVec.extractLsb'_toNat, BitVec.toNat_ushiftRight, ← Nat.shiftRight_add]
      rw [Nat.mul_succ, Nat.add_comm]
    rw [littleEndian, first, others, ih, BitVec.toNat_ushiftRight, Nat.shiftRight_eq_div_pow]
    exact (Nat.pow_succ' ▸ Nat.mod_mul).symm

/-- A value is its bytes put together. -/
theorem Width.combine_byteOf (w : Width) (value : BitVec w.bits) :
    w.combine (byteOf value) = value := by
  have size : 256 ^ w.bytes = 2 ^ w.bits := by cases w <;> rfl
  rw [combine, littleEndian_byteOf, size]
  apply BitVec.eq_of_toNat_eq
  rw [BitVec.toNat_ofNat, Nat.mod_mod, Nat.mod_eq_of_lt value.isLt]

/-! ## In the device -/

namespace Ram

variable {r : Ram} {w : Width} {address : Word}

theorem locate?_of_byteAt? (fits : InPage w address)
    (bytes : ∀ i < w.bytes, (r.byteAt? (address + BitVec.ofNat 32 i)).isSome = true) :
    ∃ offset, r.locate? w address = some offset := by
  have inside (i : Nat) (hi : i < w.bytes) : r.start.toNat ≤ address.toNat + i ∧
      address.toNat + i - r.start.toNat + 1 ≤ r.length.toNat := by
    have byte := bytes i hi
    rw [byteAt?, Option.isSome_map] at byte
    obtain ⟨offset, located⟩ := Option.isSome_iff_exists.mp byte
    obtain ⟨above, rfl, below⟩ := locate?_eq_some.mp located
    rw [(fits.add hi).1] at above below
    exact ⟨above, below⟩
  -- The first byte is not below the memory, and the last one not above.
  have positive := w.bytes_pos
  obtain ⟨above, -⟩ := inside 0 positive
  obtain ⟨-, below⟩ := inside (w.bytes - 1) (by omega)
  exact ⟨_, locate?_eq_some.mpr ⟨above, rfl, by omega⟩⟩

theorem locate?_byte (fits : InPage w address) {offset : Nat}
    (located : r.locate? w address = some offset) {i : Nat} (hi : i < w.bytes) :
    r.locate? .byte (address + BitVec.ofNat 32 i) = some (offset + i) := by
  obtain ⟨above, rfl, below⟩ := locate?_eq_some.mp located
  rw [locate?_eq_some, (fits.add hi).1]
  simp only [Width.bytes]
  omega

/-- A byte that was written reads back. -/
theorem byteAt?_write_self (fits : InPage w address) {offset : Nat}
    (located : r.locate? w address = some offset) (value : BitVec w.bits) {i : Nat}
    (hi : i < w.bytes) :
    (r.write w address value).byteAt? (address + BitVec.ofNat 32 i) = some (byteOf value i) := by
  have written : offset ≤ offset + i ∧ offset + i < offset + w.bytes := by omega
  rw [byteAt?_write, located]
  simp only [locate?_byte fits located hi, Option.map_some, if_pos written,
    Nat.add_sub_cancel_left, w.getD_split value hi]

end Ram

/-! ## In the address space -/

namespace Memory

variable {m : Memory} {w : Width} {address : Word} {index : Nat} {cells : Nat → Byte}

theorem exists_ram {byte : Byte} (held : m.ramByte? index address = some byte) :
    ∃ r, m.devices[index]? = some (.ram r) ∧ r.byteAt? address = some byte := by
  obtain ⟨d, device, held⟩ := Option.bind_eq_some_iff.mp held
  cases d with
  | ram r => exact ⟨r, device, held⟩
  | rom | printer | fifo | ramSize | clint => cases held

/-- The bytes of an access are in main memory, all in the device that the access is for. -/
structure Holds (m : Memory) (w : Width) (address : Word) (index : Nat) (cells : Nat → Byte) :
    Prop where
  fits : InPage w address
  route : m.route address = some index
  bytes : ∀ i < w.bytes, m.ramByte? index (address + BitVec.ofNat 32 i) = some (cells i)

theorem Holds.exists_ram (h : m.Holds w address index cells) :
    ∃ r offset, m.devices[index]? = some (.ram r) ∧ r.locate? w address = some offset ∧
      ∀ i < w.bytes, r.cells.get (offset + i) = cells i := by
  obtain ⟨r, device, -⟩ := Memory.exists_ram (h.bytes 0 w.bytes_pos)
  have bytes : ∀ i < w.bytes, r.byteAt? (address + BitVec.ofNat 32 i) = some (cells i) := by
    intro i hi
    have byte := h.bytes i hi
    rwa [ramByte?, device] at byte
  obtain ⟨offset, located⟩ := Ram.locate?_of_byteAt? h.fits fun i hi => by rw [bytes i hi]; rfl
  refine ⟨r, offset, device, located, fun i hi => ?_⟩
  exact Option.some.inj ((Ram.byteAt?_add h.fits located hi).symm.trans (bytes i hi))

theorem Holds.read (h : m.Holds w address index cells) :
    m.read w address = (.ok (w.combine cells), m) := by
  obtain ⟨r, offset, device, located, held⟩ := h.exists_ram
  have unchanged : (m.read w address).2 = m :=
    read_steady (steadyAt_of_route h.route device rfl)
  have value : m.value (.ram r) w address = w.combine cells := by
    simp only [Memory.value, Ram.read, located]
    exact w.combine_congr held
  refine Prod.ext ?_ unchanged
  rw [read_eq, h.route]
  simp only [readDevice, device, value]

/-- What a write leaves of a byte: only the device of its first address changes. -/
theorem ramByte?_write_eq (m : Memory) (w : Width) (address : Word) (value : BitVec w.bits)
    (i : Nat) (q : Word) :
    (m.write w address value).2.ramByte? i q =
      if m.route address = some i then
        m.devices[i]?.bind fun d => (d.afterWrite w address value).ramByte? q
      else m.ramByte? i q := by
  rw [write_eq]
  cases route : m.route address with
  | none => simp only [reduceCtorEq, if_false]
  | some index =>
    simp only [Option.some.injEq, ramByte?, writeDevice]
    cases device : m.devices[index]? with
    | none =>
      dsimp only
      split
      case isTrue same => rw [← same, device]; rfl
      case isFalse => rfl
    | some d =>
      simp only [Array.getElem?_modify]
      split
      case isTrue same => rw [← same, device]; rfl
      case isFalse => rfl

/-- A write replaces the bytes of the access. -/
theorem Holds.ramByte?_write (h : m.Holds w address index cells) (value : BitVec w.bits) {i : Nat}
    (hi : i < w.bytes) :
    (m.write w address value).2.ramByte? index (address + BitVec.ofNat 32 i) =
      some (byteOf value i) := by
  obtain ⟨r, offset, device, located, -⟩ := h.exists_ram
  rw [ramByte?_write_eq, if_pos h.route, device]
  exact Ram.byteAt?_write_self h.fits located value hi

/-- A write replaces no other bytes. -/
theorem ramByte?_write_out {value : BitVec w.bits} {i : Nat} {q : Word}
    (out : m.route address = some i → ∀ k < w.bytes, q ≠ address + BitVec.ofNat 32 k) :
    (m.write w address value).2.ramByte? i q = m.ramByte? i q := by
  rw [ramByte?_write_eq]
  split
  case isFalse => rfl
  case isTrue routed =>
    rw [ramByte?]
    congr 1
    funext d
    cases d with
    | ram r => exact r.byteAt?_write_ne value (out routed)
    | rom | printer | fifo | ramSize | clint => rfl

/-- Where the devices are does not change, and so neither does what an address is routed to. -/
theorem route_write (m : Memory) (w : Width) (address : Word) (value : BitVec w.bits) :
    (m.write w address value).2.route = m.route := by
  funext q
  simp only [route, map_write]

theorem mapped_of_route (route : m.route address = some index) : m.mapped address = true := by
  rw [mapped, route]
  rfl

theorem Holds.congr {m' : Memory} (h : m.Holds w address index cells) (route : m'.route = m.route)
    (bytes : ∀ i < w.bytes, m'.ramByte? index (address + BitVec.ofNat 32 i) =
      m.ramByte? index (address + BitVec.ofNat 32 i)) : m'.Holds w address index cells where
  fits := h.fits
  route := route ▸ h.route
  bytes := fun i hi => (bytes i hi).trans (h.bytes i hi)

/-- After a write the bytes are those of the value. -/
theorem Holds.write (h : m.Holds w address index cells) (value : BitVec w.bits) :
    (m.write w address value).2.Holds w address index (byteOf value) where
  fits := h.fits
  route := route_write m w address value ▸ h.route
  bytes := fun _ hi => h.ramByte?_write value hi

/-! ## Bytes and their addresses -/

/-- The byte of main memory that an access to an address is for. -/
def mainByte? (m : Memory) (address : Word) : Option Byte :=
  (m.route address).bind (m.ramByte? · address)

theorem mapped_of_mainByte? (main : (m.mainByte? address).isSome = true) :
    m.mapped address = true := by
  obtain ⟨byte, main⟩ := Option.isSome_iff_exists.mp main
  obtain ⟨index, route, -⟩ := Option.bind_eq_some_iff.mp main
  exact mapped_of_route route

theorem Undisturbed.route {m' : Memory} (u : Undisturbed m m') : m'.route = m.route := by
  funext q
  simp only [Memory.route, u.map]

theorem Undisturbed.mainByte? {m' : Memory} (u : Undisturbed m m') :
    m'.mainByte? = m.mainByte? := by
  funext q
  simp only [Memory.mainByte?, u.route, u.ram]

theorem Holds.of_mainByte? (fits : InPage w address)
    (bytes : ∀ i < w.bytes, m.mainByte? (address + BitVec.ofNat 32 i) = some (cells i))
    (one : ∀ i < w.bytes, m.route (address + BitVec.ofNat 32 i) = m.route address) :
    ∃ index, m.Holds w address index cells := by
  have first := bytes 0 w.bytes_pos
  rw [BitVec.add_zero] at first
  obtain ⟨index, route, -⟩ := Option.bind_eq_some_iff.mp first
  refine ⟨index, fits, route, fun i hi => ?_⟩
  have byte := bytes i hi
  rwa [Memory.mainByte?, one i hi, route] at byte

theorem Holds.of_byte {byte : Byte} (main : m.mainByte? address = some byte) :
    ∃ index, m.Holds .byte address index fun _ => byte := by
  refine Holds.of_mainByte? (inPage_byte address) ?_ ?_
  · rintro (_ | i) hi
    · rwa [BitVec.add_zero]
    · exact absurd hi (by simp)
  · rintro (_ | i) hi
    · rw [BitVec.add_zero]
    · exact absurd hi (by simp)

/-- Main memory after bytes were written, each to an address of its own: these are new, and all
others are as they were. -/
structure Stored (m m' : Memory) (ps : List Word) (bytes : Nat → Byte) : Prop where
  route : m'.route = m.route
  new : ∀ (i : Nat) (hi : i < ps.length), m'.mainByte? ps[i] = some (bytes i)
  old : ∀ index q, (q ∈ ps → m.route q ≠ some index) →
    m'.ramByte? index q = m.ramByte? index q

theorem Holds.stored (h : m.Holds w address index cells) (value : BitVec w.bits)
    {ps : List Word} (length : ps.length = w.bytes)
    (place : ∀ (i : Nat) (hi : i < ps.length), ps[i] = address + BitVec.ofNat 32 i)
    (one : ∀ p ∈ ps, m.route p = some index) :
    Stored m (m.write w address value).2 ps (byteOf value) where
  route := route_write m w address value
  new := by
    intro i hi
    rw [mainByte?, route_write, one _ (List.getElem_mem hi), place i hi]
    exact h.ramByte?_write value (length ▸ hi)
  old := by
    intro i q out
    refine ramByte?_write_out fun routed k hk same => ?_
    have inside : k < ps.length := length ▸ hk
    have written : q ∈ ps := List.mem_of_getElem (h := inside) ((place k inside).trans same.symm)
    refine out written (?_ : m.route q = some i)
    rw [one q written, ← h.route, routed]

/-- A byte is stored by a write of one byte. -/
theorem stored_byte {old : Byte} (main : m.mainByte? address = some old) (byte : Byte) :
    Stored m (m.write .byte address byte).2 [address] fun _ => byte := by
  obtain ⟨index, holds⟩ := Holds.of_byte main
  have stored : Stored m (m.write .byte address byte).2 [address] (byteOf byte) := by
    refine holds.stored byte rfl ?_ ?_
    · rintro (_ | i) hi
      · rw [BitVec.add_zero]
        rfl
      · exact absurd hi (by simp)
    · intro p hp
      rw [List.mem_singleton.mp hp]
      exact holds.route
  refine ⟨stored.route, ?_, stored.old⟩
  rintro (_ | i) hi
  · have whole : byteOf byte 0 = byte := BitVec.extractLsb'_eq_self
    exact (stored.new 0 hi).trans (congrArg some whole)
  · exact absurd hi (by simp)

namespace Stored

variable {m' m'' : Memory} {ps : List Word} {bytes : Nat → Byte}

theorem mainByte?_out (s : Stored m m' ps bytes) {q : Word} (out : q ∉ ps) :
    m'.mainByte? q = m.mainByte? q := by
  rw [mainByte?, mainByte?, s.route]
  congr 1
  funext index
  exact s.old index q fun written => absurd written out

/-- The bytes there are now: those that were written, and the others of before. -/
theorem mainByte?_eq (s : Stored m m' ps bytes) {q : Word} {byte : Byte}
    (written : ∀ (i : Nat) (hi : i < ps.length), ps[i] = q → bytes i = byte)
    (kept : q ∉ ps → m.mainByte? q = some byte) : m'.mainByte? q = some byte := by
  by_cases inside : q ∈ ps
  case pos =>
    obtain ⟨i, hi, same⟩ := List.mem_iff_getElem.mp inside
    rw [← written i hi same, ← same]
    exact s.new i hi
  case neg => rw [s.mainByte?_out inside, kept inside]

theorem of_undisturbed (u : Undisturbed m m') (s : Stored m' m'' ps bytes) :
    Stored m m'' ps bytes where
  route := s.route.trans u.route
  new := s.new
  old := by
    intro index q out
    rw [s.old index q (u.route ▸ out), u.ram]

theorem congr (s : Stored m m' ps bytes) {bytes' : Nat → Byte}
    (same : ∀ i < ps.length, bytes i = bytes' i) : Stored m m' ps bytes' :=
  ⟨s.route, fun i hi => (s.new i hi).trans (congrArg some (same i hi)), s.old⟩

/-- One byte and then others. -/
theorem cons {p : Word} {byte : Byte} (first : Stored m m' [p] fun _ => byte)
    (rest : Stored m' m'' ps bytes) (apart : p ∉ ps) :
    Stored m m'' (p :: ps) (fun i => if i = 0 then byte else bytes (i - 1)) where
  route := rest.route.trans first.route
  new := by
    rintro (_ | i) hi
    · rw [if_pos rfl, List.getElem_cons_zero, rest.mainByte?_out apart]
      exact first.new 0 Nat.one_pos
    · rw [if_neg (Nat.succ_ne_zero i), List.getElem_cons_succ, Nat.add_sub_cancel]
      exact rest.new i (Nat.lt_of_succ_lt_succ hi)
  old := by
    intro index q out
    rw [rest.old index q, first.old index q]
    · exact fun written => out (List.mem_cons.mpr (.inl (List.mem_singleton.mp written)))
    · intro written
      rw [first.route]
      exact out (List.mem_cons_of_mem _ written)

end Stored
end Memory
end Rv32
