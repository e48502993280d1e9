/-
# `Rv32.Proofs.Checked.Memory` — finding a device and using it

An address is looked up in the map, which gives the place of an entry, which gives the
number of a device.  The device computes the offset of the access, and main memory and
read-only memory cut as many bytes as the access has out of theirs; the core-local
interruptor subtracts where its registers begin.

What this rests on is that every entry of the map numbers a device that is there
(`Memory.Routable`).  It is so in an empty address space, adding a device keeps it, and so
does every access.
-/
import Rv32.Proofs.Address.Map
import Rv32.Proofs.Checked.Basic
import Rv32.Proofs.Memory.Placement

namespace Rv32

/-! ## Numbers of devices -/

namespace Memory

/-- Every entry of the map numbers a device that is there. -/
def Routable (m : Memory) : Prop := ∀ e ∈ m.map.entries, e.2 < m.devices.size

variable {m m' : Memory}

theorem routable_empty (clint : Clint) (journal : Journal) : (empty clint journal).Routable := by
  intro e he
  simp [empty, Address.Map.empty] at he

/-- Only the map and the number of devices matter. -/
theorem Routable.congr (h : m.Routable) (map : m'.map = m.map)
    (size : m'.devices.size = m.devices.size) : m'.Routable := by
  intro e he
  rw [map] at he
  rw [size]
  exact h e he

/-- A device that is added has the next number. -/
theorem Routable.add (h : m.Routable) (d : Device) : (m.add d).2.Routable := by
  cases hadd : (m.add d).1 with
  | error e =>
      rw [add_error hadd]
      exact h
  | ok index =>
      obtain ⟨-, range, map, -, hplace, hm'⟩ := add_ok hadd
      obtain ⟨range, -, hinsert⟩ := place_eq_ok_iff.mp hplace
      rw [hm']
      intro e he
      rw [Array.size_push]
      have hmem := (Address.Map.perm_insert hinsert).mem_iff.mp (Array.mem_toList_iff.mpr he)
      rcases List.mem_cons.mp hmem with rfl | hold
      · exact Nat.lt_succ_self _
      · exact Nat.lt_succ_of_lt (h e (Array.mem_toList_iff.mp hold))

theorem Routable.read (h : m.Routable) (w : Width) (address : Word) :
    (m.read w address).2.Routable := by
  rw [read_eq]
  cases m.route address with
  | none => exact h
  | some index =>
      dsimp only [readDevice]
      cases m.devices[index]? with
      | none => exact h
      | some d => exact h.congr rfl Array.size_modify

theorem Routable.write (h : m.Routable) (w : Width) (address : Word) (value : BitVec w.bits) :
    (m.write w address value).2.Routable := by
  rw [write_eq]
  cases m.route address with
  | none => exact h
  | some index =>
      dsimp only [writeDevice]
      cases m.devices[index]? with
      | none => exact h
      | some d => exact h.congr rfl Array.size_modify

/-- The device that has an address. -/
theorem Routable.find? (h : m.Routable) {address : Word} {i : Nat}
    (found : m.map.find? address = some i) :
    ∃ e d, m.map.entries[i]? = some e ∧ m.devices[e.2]? = some d := by
  obtain ⟨e, he, -⟩ := Address.Map.find?_entry found
  exact ⟨e, _, he, Array.getElem?_eq_getElem (h e (Array.mem_of_getElem? he))⟩

end Memory

namespace Checked

/-! ## Using a device -/

/-- Copies bytes from an offset on, if there are so many. -/
def stretch (size offset bytes : Nat) : Checked Unit := do
  let finish ← sum 64 offset bytes
  if finish ≤ size then copy bytes (finish - offset) else return

/-- Uses a word of the core-local interruptor.  The registers that lie in the second half of a
double word are shifted there. -/
def clintWord (offset : Word) : Checked Unit := do
  if offset.toNat < 0x4000 then discard (difference offset.toNat 0)
  else if offset.toNat < 0xBFF8 then discard (difference offset.toNat 0x4000)
  discard (amount 64 32)

def clintAccess (w : Width) (offset : Word) : Checked Unit :=
  match w with
  | .byte | .half => return
  | .word => clintWord offset
  | .dword => do
    clintWord offset
    clintWord (offset + 4)

def readDevice (d : Device) (w : Width) (address : Word) : Checked Unit :=
  match d with
  | .ram r =>
    match r.offset? address with
    | some offset => stretch r.length.toNat offset w.bytes
    | none => return
  | .rom r => stretch r.data.size (address - r.start).toNat w.bytes
  | .clint start => clintAccess w (address - start)
  | .printer _ | .fifo _ | .ramSize _ => return

/-- Encodes what is printed, in room for four bytes. -/
def encode (output : ByteArray) : Checked Unit :=
  if output.size ≤ 4 then .ok () else .error (.lengths 4 output.size)

/-- Read-only memory reports a write byte by byte, after halving it. -/
def halve : Width → Checked Unit
  | .byte | .half => return
  | .word => discard (amount 32 16)
  | .dword => do
    discard (amount 64 32)
    discard (amount 32 16)

def writeDevice (d : Device) (w : Width) (address : Word) (value : BitVec w.bits) :
    Checked Unit :=
  match d with
  | .ram r =>
    match r.offset? address with
    | some offset => stretch r.length.toNat offset w.bytes
    | none => return
  | .rom _ => halve w
  | .printer _ => encode (Printer.output w value)
  | .clint start => clintAccess w (address - start)
  | .fifo _ | .ramSize _ => return

theorem stretch_eq {offset : Nat} (size : Nat) (h : offset < 2 ^ 32) (w : Width) :
    stretch size offset w.bytes = .ok () := by
  have hbytes : w.bytes ≤ 8 := by cases w <;> decide
  rw [stretch, sum_eq (by omega), ok_bind]
  split
  · rw [Nat.add_sub_cancel_left, copy_self]
  · rfl

theorem clintWord_eq (offset : Word) : clintWord offset = .ok () := by
  unfold clintWord
  split
  · rw [difference_eq (Nat.zero_le _)]
    rfl
  · split
    · rw [difference_eq (by omega)]
      rfl
    · rfl

theorem clintAccess_eq (w : Width) (offset : Word) : clintAccess w offset = .ok () := by
  cases w with
  | byte | half => rfl
  | word => exact clintWord_eq offset
  | dword => rw [clintAccess, clintWord_eq, ok_bind, clintWord_eq]

theorem ram_offset_lt {r : Ram} {address : Word} {offset : Nat}
    (h : r.offset? address = some offset) : offset < 2 ^ 32 := by
  rw [Ram.offset?] at h
  split at h
  · cases h
    exact Nat.lt_of_le_of_lt (Nat.sub_le _ _) address.isLt
  · cases h

theorem readDevice_eq (d : Device) (w : Width) (address : Word) :
    readDevice d w address = .ok () := by
  cases d with
  | ram r =>
      rw [readDevice]
      cases h : r.offset? address with
      | none => rfl
      | some offset => exact stretch_eq _ (ram_offset_lt h) w
  | rom r => exact stretch_eq _ (address - r.start).isLt w
  | clint start => exact clintAccess_eq w _
  | printer | fifo | ramSize => rfl

/-- A character from sixteen bits takes three bytes at most. -/
theorem encode_output (w : Width) (value : BitVec w.bits) :
    encode (Printer.output w value) = .ok () := by
  have hchar (c : Char) : encode (Utf8.encode c) = .ok () :=
    if_pos (Nat.le_trans (Nat.le_of_eq String.utf8ByteSize_singleton) c.utf8Size_le_four)
  cases w with
  | byte => rfl
  | half | word | dword => exact hchar _

theorem writeDevice_eq (d : Device) (w : Width) (address : Word) (value : BitVec w.bits) :
    writeDevice d w address value = .ok () := by
  cases d with
  | ram r =>
      rw [writeDevice]
      cases h : r.offset? address with
      | none => rfl
      | some offset => exact stretch_eq _ (ram_offset_lt h) w
  | rom r => cases w <;> rfl
  | printer p => exact encode_output w value
  | clint start => exact clintAccess_eq w _
  | fifo | ramSize => rfl

/-! ## The address space -/

/-- The device that has an address. -/
def route (m : Memory) (address : Word) : Checked (Option Device) :=
  match m.map.find? address with
  | none => return none
  | some i => do
    let entry ← element m.map.entries i
    return some (← element m.devices entry.2)

def read (m : Memory) (w : Width) (address : Word) :
    Checked (Except Unmapped (BitVec w.bits) × Memory) := do
  match ← route m address with
  | none => return (.error ⟨address⟩, m)
  | some d =>
    readDevice d w address
    return m.read w address

/-- A write ends reservations up to the block of its last byte. -/
def write (m : Memory) (w : Width) (address : Word) (value : BitVec w.bits) :
    Checked (Except Unmapped Unit × Memory) := do
  match ← route m address with
  | none => return (.error ⟨address⟩, m)
  | some d =>
    writeDevice d w address value
    discard (difference w.bytes 1)
    return m.write w address value

/-- Ends a hart's reservation, which is removed from its place in a list. -/
def takeReservation (m : Memory) (hart : Nat) (address : Word) : Checked (Bool × Memory) := do
  let entries := m.reservations.entries
  match entries.findIdx? (·.1 == hart) with
  | none => return m.takeReservation hart address
  | some i =>
    discard (index entries.length i)
    return m.takeReservation hart address

/-- Adds a device; its range is inserted at a place in a list. -/
def add (m : Memory) (d : Device) : Checked (Except MapError Nat × Memory) :=
  match d.range with
  | .error _ => return m.add d
  | .ok range => do
    discard (index (m.map.size + 1) (m.map.place range.first))
    return m.add d

variable {m : Memory}

/-- There is a device for an address that has one. -/
theorem route_cases (h : m.Routable) (address : Word) :
    route m address = .ok none ∧ m.route address = none ∨
      ∃ d, route m address = .ok (some d) := by
  rw [route]
  cases hfind : m.map.find? address with
  | none =>
      refine .inl ⟨rfl, ?_⟩
      rw [Memory.route, Address.Map.get?, hfind]
      rfl
  | some i =>
      obtain ⟨e, d, he, hd⟩ := h.find? hfind
      refine .inr ⟨d, ?_⟩
      simp only [element_eq he, element_eq hd, ok_bind]
      rfl

theorem read_eq (h : m.Routable) (w : Width) (address : Word) :
    read m w address = .ok (m.read w address) := by
  rcases route_cases h address with ⟨hroute, hnone⟩ | ⟨d, hroute⟩
  · rw [read, hroute, Memory.read, hnone]
    rfl
  · simp only [read, hroute, ok_bind, readDevice_eq]
    rfl

/-- Reading panics where the map numbers a device that is not there. -/
example :
    let range : Address.Range := ⟨0, 0xFFF, by decide⟩
    read { Memory.empty (.init 1) (.empty 0) with map := ⟨#[(range, 0)]⟩ } .byte 0x10 =
      .error (.index 0 0) := rfl

theorem write_eq (h : m.Routable) (w : Width) (address : Word) (value : BitVec w.bits) :
    write m w address value = .ok (m.write w address value) := by
  rcases route_cases h address with ⟨hroute, hnone⟩ | ⟨d, hroute⟩
  · rw [write, hroute, Memory.write, hnone]
    rfl
  · have hbytes : 1 ≤ w.bytes := by cases w <;> decide
    simp only [write, hroute, ok_bind, writeDevice_eq, difference_eq hbytes]
    rfl

theorem takeReservation_eq (m : Memory) (hart : Nat) (address : Word) :
    takeReservation m hart address = .ok (m.takeReservation hart address) := by
  simp only [takeReservation]
  cases h : m.reservations.entries.findIdx? (·.1 == hart) with
  | none => rfl
  | some i =>
      simp only [index_eq (List.findIdx?_eq_some_iff_findIdx_eq.mp h).1]
      rfl

theorem add_eq (m : Memory) (d : Device) : add m d = .ok (m.add d) := by
  rw [add]
  cases d.range with
  | error e => rfl
  | ok range =>
      have hplace : m.map.place range.first < m.map.size + 1 :=
        Nat.lt_succ_of_le (m.map.place_le range.first)
      simp only [index_eq hplace]
      rfl

end Checked
end Rv32
