/-
# `Rv32.Proofs.Memory.Orderly` — adding, resizing, reading and writing devices

Whatever is done with an address space, every device is in the map at its own addresses, and
no two devices have an address in common; an access is an access to the one device that has
its first byte; what is refused changes nothing; and a size register reads how long its memory
is (`Memory.Orderly`).

A main memory is made before it is added, and may be filled and resized in between.  Whoever
made it can also have a size register look at it, which may be in the address space first.
So the uses are those of a workbench: an address space, and the memories that were made and
have not been given away.  A memory leaves the workbench for the address space, whether it is
added there or refused, so no two uses ever have the same one.
-/
import Mathlib.Data.List.GetD
import Rv32.Proofs.Memory.Consistent

namespace Rv32

/-! ## Handles of other memories -/

namespace Memory

variable {m m' : Memory} {d : Device}

/-- What goes on in an address space leaves alone who is not there: no handle is new, no
memory takes one, and those of no memory tell what they did. -/
structure Aside (m m' : Memory) : Prop where
  next : m'.lengths.next = m.lengths.next
  told : ∀ i handle length, m'.told? i = some (handle, length) →
    ∃ j old, m.told? j = some (handle, old)
  others : ∀ handle length, (∀ i old, m.told? i ≠ some (handle, old)) →
    m.lengths.Tells handle length → m'.lengths.Tells handle length

theorem Aside.refl (m : Memory) : Aside m m :=
  ⟨rfl, fun i _ length ht => ⟨i, length, ht⟩, fun _ _ _ => id⟩

theorem aside_of_told? (lengths : m'.lengths = m.lengths) (told : ∀ i, m'.told? i = m.told? i) :
    Aside m m' where
  next := by rw [lengths]
  told i handle length ht := ⟨i, length, told i ▸ ht⟩
  others handle length _ tells := by rwa [lengths]

theorem Consistent.aside_read (h : m.Consistent) (w : Width) (address : Word) :
    Aside m (m.read w address).2 := by
  cases hroute : m.route address with
  | none =>
      rw [Memory.read_eq, hroute]
      exact .refl m
  | some i =>
      obtain ⟨d, hd, has⟩ := h.route_iff.mp hroute
      rw [h.read_eq hd has]
      exact aside_of_told? rfl (told?_set hd (d.told?_afterRead address) rfl)

theorem Consistent.aside_write (h : m.Consistent) (w : Width) (address : Word)
    (value : BitVec w.bits) : Aside m (m.write w address value).2 := by
  cases hroute : m.route address with
  | none =>
      rw [Memory.write_eq, hroute]
      exact .refl m
  | some i =>
      obtain ⟨d, hd, has⟩ := h.route_iff.mp hroute
      rw [h.write_eq hd has]
      exact aside_of_told? rfl (told?_set hd (d.told?_afterWrite w address value) rfl)

theorem Consistent.aside_resizeInPlace (h : m.Consistent) (index : Nat) (length : Word) :
    Aside m (m.resizeInPlace index length).2 := by
  rcases h.resizeInPlace_cases index length with ⟨r, map, hr, -, hok⟩ | ⟨⟨e, he⟩, -⟩
  · rw [hok]
    refine ⟨Lengths.next_set .., fun i handle a ht => ?_, fun handle a nobody tells => ?_⟩
    · rw [told?, getElem?_resizedAt hr] at ht
      split at ht
      case isTrue =>
        cases ht
        exact ⟨index, r.length, told?_ram (r := r) hr⟩
      case isFalse => exact ⟨i, a, ht⟩
    · exact tells.set_ne (fun hsame => nobody index r.length (hsame ▸ told?_ram hr)) length
  · rw [he]
    exact .refl m

theorem lengths_add (m : Memory) (d : Device) : (m.add d).2.lengths = m.lengths := by
  cases hadd : (m.add d).1 with
  | error e => rw [add_error hadd]
  | ok index =>
      obtain ⟨-, range, map, -, -, hm'⟩ := add_ok hadd
      rw [hm']
      rfl

theorem told?_add {i : Nat} {t : Nat × Word} (ht : (m.add d).2.told? i = some t) :
    d.told? = some t ∨ m.told? i = some t := by
  cases hadd : (m.add d).1 with
  | error e =>
      rw [add_error hadd] at ht
      exact .inr ht
  | ok index =>
      obtain ⟨-, range, map, -, -, hm'⟩ := add_ok hadd
      rw [hm'] at ht
      exact (told?_push ht).imp_left And.right

theorem aside_add (other : ∀ r, d ≠ .ram r) : Aside m (m.add d).2 where
  next := by rw [lengths_add]
  told i handle length ht := by
    rcases told?_add ht with hnew | hold
    · obtain ⟨r, hr, -⟩ := Device.told?_eq_some_iff.mp hnew
      exact absurd hr (other r)
    · exact ⟨i, length, hold⟩
  others handle length _ tells := by rwa [lengths_add]

end Memory

/-! ## Whatever is done with an address space -/

/-- An address space, and the memories that were made for it: each under its handle, until
it is given away. -/
structure Workbench where
  memory : Memory
  made : List (Option Ram)

namespace Workbench

/-- What is done with an address space and with the memories that are made for it. -/
inductive Use where
  | make (start length : Word)
  /-- Bytes are copied into a memory that was made. -/
  | fill (handle : Nat) (address : Word) (bytes : List Byte)
  /-- A memory that was made gets another length. -/
  | stretch (handle : Nat) (length : Word)
  /-- A memory that was made is added. -/
  | mount (handle : Nat)
  /-- A device that is not main memory is added. -/
  | add (d : Device) (other : ∀ r, d ≠ .ram r)
  | resize (index : Nat) (length : Word)
  | read (w : Width) (address : Word)
  | write (w : Width) (address : Word) (value : BitVec w.bits)

def start (clint : Clint) (journal : Journal) : Workbench := ⟨.empty clint journal, []⟩

/-- The memory with a handle, if it was made and has not been given away. -/
def spare? (b : Workbench) (handle : Nat) : Option Ram := b.made.getD handle none

def use (b : Workbench) : Use → Workbench
  | .make start length =>
    match b.memory.makeRam start length with
    | (some r, memory) => ⟨memory, b.made ++ [some r]⟩
    | (none, memory) => ⟨memory, b.made⟩
  | .fill handle address bytes =>
    match b.spare? handle with
    | some r => { b with made := b.made.set handle (some (r.load address bytes)) }
    | none => b
  | .stretch handle length =>
    match b.spare? handle with
    | some r =>
      let (_, r, lengths) := r.resize length b.memory.lengths
      ⟨{ b.memory with lengths }, b.made.set handle (some r)⟩
    | none => b
  | .mount handle =>
    match b.spare? handle with
    | some r => ⟨(b.memory.add (.ram r)).2, b.made.set handle none⟩
    | none => b
  | .add d _ => { b with memory := (b.memory.add d).2 }
  | .resize index length => { b with memory := (b.memory.resizeInPlace index length).2 }
  | .read w address => { b with memory := (b.memory.read w address).2 }
  | .write w address value => { b with memory := (b.memory.write w address value).2 }

/-! ## What every use keeps -/

/-- The memories that were made have different handles, wherever they are. -/
structure Consistent (b : Workbench) : Prop where
  memory : b.memory.Consistent
  next : b.memory.lengths.next = b.made.length
  spare : ∀ handle r, b.spare? handle = some r →
    r.handle = handle ∧ r.Trim ∧ r.Tells b.memory.lengths
  /-- What has been added has been given away. -/
  given : ∀ i handle length, b.memory.told? i = some (handle, length) → b.spare? handle = none

variable {b : Workbench}

theorem consistent_start (clint : Clint) (journal : Journal) :
    (start clint journal).Consistent where
  memory := Memory.consistent_empty clint journal
  next := rfl
  spare handle r hr := by simp [start, spare?] at hr
  given _ _ _ _ := rfl

/-- What is made is not in the address space. -/
theorem Consistent.told?_ne (h : b.Consistent) {handle : Nat} {r : Ram}
    (hr : b.spare? handle = some r) (i : Nat) (length : Word) :
    b.memory.told? i ≠ some (handle, length) := by
  intro ht
  rw [h.given i handle length ht] at hr
  cases hr

/-- The memories that were made do not notice what goes on in the address space. -/
theorem Consistent.withMemory (h : b.Consistent) {m : Memory} (memory : m.Consistent)
    (aside : b.memory.Aside m) : Consistent { b with memory := m } where
  memory := memory
  next := aside.next.trans h.next
  spare handle r hr := by
    obtain ⟨hhandle, trim, tells⟩ := h.spare handle r hr
    exact ⟨hhandle, trim, aside.others _ _ (hhandle ▸ h.told?_ne hr) tells⟩
  given i handle length ht := by
    obtain ⟨j, old, ht'⟩ := aside.told i handle length ht
    exact h.given j handle old ht'

/-- What was made, when the memory with a handle is replaced or given away. -/
theorem spare?_set {handle : Nat} {r : Ram} (hr : b.spare? handle = some r) (m : Memory)
    (new : Option Ram) (k : Nat) :
    (Workbench.mk m (b.made.set handle new)).spare? k =
      if handle = k then new else b.spare? k := by
  have hlt : handle < b.made.length := by
    refine Nat.lt_of_not_le fun hle => ?_
    rw [spare?, List.getD_eq_default _ _ hle] at hr
    cases hr
  rw [spare?, spare?, List.getD_eq_getElem?_getD, List.getD_eq_getElem?_getD, List.getElem?_set,
    if_pos hlt]
  split
  · rfl
  · rfl

/-- A memory that was made may change, and what is told of it. -/
theorem Consistent.replace (h : b.Consistent) {handle : Nat} {r r' : Ram} {lengths : Lengths}
    (hr : b.spare? handle = some r) (same : r'.handle = r.handle) (trim : r'.Trim)
    (tells : r'.Tells lengths) (next : lengths.next = b.memory.lengths.next)
    (others : ∀ other length, other ≠ handle → b.memory.lengths.Tells other length →
      lengths.Tells other length) :
    Consistent ⟨{ b.memory with lengths }, b.made.set handle (some r')⟩ where
  memory := h.memory.withLengths fun i other length ht =>
    others other length (fun heq => h.told?_ne hr i length (heq ▸ ht))
      (h.memory.told i other length ht)
  next := by
    rw [List.length_set]
    exact next.trans h.next
  spare k q hq := by
    rw [spare?_set hr] at hq
    split at hq
    case isTrue hk =>
      cases hq
      exact ⟨same.trans ((h.spare handle r hr).1.trans hk), trim, tells⟩
    case isFalse hk =>
      obtain ⟨hhandle, htrim, htells⟩ := h.spare k q hq
      exact ⟨hhandle, htrim, others _ _ (hhandle ▸ Ne.symm hk) htells⟩
  given i k length ht := by
    rw [spare?_set hr]
    split
    case isTrue hk => exact absurd ht (hk ▸ h.told?_ne hr i length)
    case isFalse => exact h.given i k length ht

theorem Consistent.make (h : b.Consistent) (start length : Word) :
    (b.use (.make start length)).Consistent := by
  rw [use, Memory.makeRam]
  rcases hmade : Ram.create start length b.memory.lengths with ⟨_ | r, lengths⟩
  · obtain rfl := Ram.eq_of_create_none hmade
    exact h
  · obtain ⟨rfl, rfl⟩ := Ram.eq_of_create hmade
    dsimp only
    have hold {k : Nat} (hk : k < b.made.length) (new : Option Ram) :
        (b.made ++ [new]).getD k none = b.made.getD k none := by
      rw [List.getD_append _ _ _ _ hk]
    refine ⟨h.memory.withLengths fun i handle a ht => (h.memory.told i handle a ht).push length,
      ?_, fun k r hr => ?_, fun i handle a ht => ?_⟩
    · rw [List.length_append, List.length_singleton, ← h.next]
      exact Lengths.next_push ..
    · rcases Nat.lt_trichotomy k b.made.length with hlt | rfl | hgt
      · rw [spare?, hold hlt] at hr
        obtain ⟨hhandle, trim, tells⟩ := h.spare k r hr
        exact ⟨hhandle, trim, tells.push length⟩
      · rw [spare?, List.getD_append_right _ _ _ _ (Nat.le_refl _), Nat.sub_self] at hr
        cases hr
        exact ⟨h.next, Ram.trim_zero _ _ _, Lengths.tells_push _ length⟩
      · rw [spare?, List.getD_eq_default _ _ (by rw [List.length_append]; exact hgt)] at hr
        cases hr
    · have hlt : handle < b.made.length := h.next ▸ (h.memory.told i handle a ht).lt
      rw [spare?, hold hlt]
      exact h.given i handle a ht

theorem Consistent.fill (h : b.Consistent) (handle : Nat) (address : Word) (bytes : List Byte) :
    (b.use (.fill handle address bytes)).Consistent := by
  rw [use]
  cases hr : b.spare? handle with
  | none => exact h
  | some r =>
      obtain ⟨-, trim, tells⟩ := h.spare handle r hr
      refine h.replace hr (r.load_handle address bytes) (trim.load address bytes) ?_ rfl
        fun _ _ _ => id
      rw [Ram.Tells, r.load_handle, r.load_length]
      exact tells

theorem Consistent.stretch (h : b.Consistent) (handle : Nat) (length : Word) :
    (b.use (.stretch handle length)).Consistent := by
  rw [use]
  cases hr : b.spare? handle with
  | none => exact h
  | some r =>
      obtain ⟨rfl, trim, tells⟩ := h.spare handle r hr
      by_cases fits : Ram.fits r.start length = true
      · simp only [Ram.resize_of_fits fits]
        exact h.replace hr rfl (r.trim_resized length) (tells.set length)
          (Lengths.next_set ..) fun other a ne ht => ht.set_ne (Ne.symm ne) length
      · simp only [Ram.resize_of_not_fits fits]
        exact h.replace hr rfl trim tells rfl fun _ _ _ => id

theorem Consistent.mount (h : b.Consistent) (handle : Nat) :
    (b.use (.mount handle)).Consistent := by
  rw [use]
  cases hr : b.spare? handle with
  | none => exact h
  | some r =>
      obtain ⟨rfl, trim, tells⟩ := h.spare handle r hr
      have admits : b.memory.Admits (.ram r) := by
        refine ⟨Device.trim_ram.mpr trim, ?_, ?_⟩
        · rintro _ _ ⟨⟩
          exact tells
        · rintro _ _ ⟨⟩
          exact h.told?_ne hr
      refine ⟨h.memory.add admits, ?_, fun k q hq => ?_, fun i k a ht => ?_⟩
      · rw [Memory.lengths_add, List.length_set]
        exact h.next
      · rw [spare?_set hr] at hq
        split at hq
        case isTrue => cases hq
        case isFalse =>
          rw [Memory.lengths_add]
          exact h.spare k q hq
      · rw [spare?_set hr]
        split
        case isTrue => rfl
        case isFalse hk =>
          rcases Memory.told?_add ht with hnew | hold
          · cases hnew
            exact absurd rfl hk
          · exact h.given i k a hold

theorem Consistent.use (h : b.Consistent) (u : Use) : (b.use u).Consistent := by
  cases u with
  | make start length => exact h.make start length
  | fill handle address bytes => exact h.fill handle address bytes
  | stretch handle length => exact h.stretch handle length
  | mount handle => exact h.mount handle
  | add d other =>
      exact h.withMemory (h.memory.add (Memory.admits_of_not_ram other)) (Memory.aside_add other)
  | resize index length =>
      exact h.withMemory (h.memory.resizeInPlace index length)
        (h.memory.aside_resizeInPlace index length)
  | read w address => exact h.withMemory (h.memory.read w address) (h.memory.aside_read w address)
  | write w address value =>
      exact h.withMemory (h.memory.write w address value) (h.memory.aside_write w address value)

theorem Consistent.uses (h : b.Consistent) (uses : List Use) :
    (uses.foldl Workbench.use b).Consistent := by
  induction uses generalizing b with
  | nil => exact h
  | cons u rest ih => exact ih (h.use u)

end Workbench

/-! ## What this comes to -/

namespace Memory

variable {m : Memory} {d : Device}

/-- What holds devices and addresses together. -/
structure Orderly (m : Memory) : Prop where
  /-- The map has one entry for each device, -/
  numbers : (m.map.toList.map (·.2)).Perm (List.range m.devices.size)
  /-- in which are the addresses from its start on, as many as it is long. -/
  ranges : ∀ e ∈ m.map.toList, ∃ d, m.device? e.2 = some d ∧
    e.1.first = d.start ∧ e.1.last.toNat + 1 = d.start.toNat + d.length.toNat
  apart : ∀ i j d d', i ≠ j → m.device? i = some d → m.device? j = some d' →
    ∀ address, ¬(d.Has address ∧ d'.Has address)
  unmapped : ∀ address, (∀ d ∈ m.devices, ¬d.Has address) → ∀ w,
    m.read w address = (.error ⟨address⟩, m) ∧
      ∀ value, m.write w address value = (.error ⟨address⟩, m)
  /-- The device that has an address is read there, and no other device is changed. -/
  read : ∀ i d address, m.device? i = some d → d.Has address → ∀ w,
    (m.read w address).1 = .ok (m.value d w address) ∧
      (m.read w address).2.devices = m.devices.set! i (d.afterRead address) ∧
      (m.read w address).2.clint = m.clint
  /-- It is written there, and no other device is changed, but that all windows on the
  core-local interruptor show the same registers. -/
  write : ∀ i d address, m.device? i = some d → d.Has address → ∀ w value,
    (m.write w address value).1 = .ok () ∧
      (m.write w address value).2.devices = m.devices.set! i (d.afterWrite w address value) ∧
      ((∀ start, d ≠ .clint start) → (m.write w address value).2.clint = m.clint)
  refused_iff : ∀ d, (∃ e, (m.add d).1 = .error e) ↔
    d.length = 0 ∨ 0x100000000 < d.start.toNat + d.length.toNat ∨
      ∃ e ∈ m.map.toList, ∃ address, e.1.contains address = true ∧ d.Has address
  refused : ∀ d e, (m.add d).1 = .error e → (m.add d).2 = m
  added : ∀ d i, (m.add d).1 = .ok i →
    i = m.devices.size ∧ (m.add d).2.devices = m.devices.push d
  resized_iff : ∀ index length, (m.resizeInPlace index length).1 = .ok () ↔
    ∃ r, m.device? index = some (.ram r) ∧ (Device.ram { r with length }).Fits ∧
      ∀ j d, j ≠ index → m.device? j = some d → (Device.ram { r with length }).Apart d
  unresized : ∀ index length e, (m.resizeInPlace index length).1 = .error e →
    (m.resizeInPlace index length).2 = m
  /-- A memory that is resized keeps its bytes, and what is new reads zero. -/
  resized : ∀ index length m', m.resizeInPlace index length = (.ok (), m') →
    ∃ r r', m.device? index = some (.ram r) ∧ r'.start = r.start ∧ r'.length = length ∧
      m'.devices = m.devices.set! index (.ram r') ∧
      ∀ address, (Device.ram r').Has address → (m'.read .byte address).1 =
        if (Device.ram r).Has address then (m.read .byte address).1 else .ok 0
  /-- Under its handle a memory tells how long it is, -/
  told : ∀ i r, m.device? i = some (.ram r) → m.lengths.get r.handle = r.length
  /-- and a size register that looks there reads it. -/
  size : ∀ i j r s, m.device? i = some (.ram r) → m.device? j = some (.ramSize s) →
    s.handle = r.handle → ∀ w, (m.read w s.start).1 = .ok (r.length.setWidth w.bits)
  /-- It reads the new length of a memory that is resized. -/
  resized_size : ∀ index length m', m.resizeInPlace index length = (.ok (), m') →
    ∀ r j s, m.device? index = some (.ram r) → m.device? j = some (.ramSize s) →
      s.handle = r.handle → ∀ w, (m'.read w s.start).1 = .ok (length.setWidth w.bits)

/-- A device has an address of another one that is mapped, if it has one of an entry. -/
theorem Consistent.meets_iff (h : m.Consistent) :
    (∃ e ∈ m.map.toList, ∃ address, e.1.contains address = true ∧ d.Has address) ↔
      ∃ d' ∈ m.devices, ¬d.Apart d' := by
  simp only [Device.Apart, not_forall, not_not]
  constructor
  · rintro ⟨e, he, address, hcontains, has⟩
    obtain ⟨d', hd', hrange⟩ := h.placed.ranges e he
    refine ⟨d', Array.mem_toList_iff.mp (List.mem_of_getElem? hd'), address, has, ?_⟩
    exact (Device.range_eq_ok_iff.mp hrange).2.contains_iff.mp hcontains
  · rintro ⟨d', hd', address, has, has'⟩
    obtain ⟨j, hj⟩ := List.mem_iff_getElem?.mp (Array.mem_toList_iff.mpr hd')
    obtain ⟨range, he, hrange⟩ := h.placed.exists_entry hj
    exact ⟨_, he, address, (Device.range_eq_ok_iff.mp hrange).2.contains_iff.mpr has', has⟩

theorem Consistent.refused_iff (h : m.Consistent) :
    (∃ e, (m.add d).1 = .error e) ↔
      d.length = 0 ∨ 0x100000000 < d.start.toNat + d.length.toNat ∨
        ∃ e ∈ m.map.toList, ∃ address, e.1.contains address = true ∧ d.Has address := by
  have hsome : (∃ e, (m.add d).1 = .error e) ↔ ¬∃ index, (m.add d).1 = .ok index := by
    cases (m.add d).1 <;> simp
  have hempty : d.length = 0 ↔ ¬0 < d.length.toNat := by
    rw [Nat.pos_iff_ne_zero, not_not]
    exact BitVec.toNat_inj.symm
  rw [hsome, h.add_iff, h.meets_iff, Device.Fits, hempty]
  simp only [not_and_or, not_forall, exists_prop, or_assoc, Nat.not_le]

theorem Consistent.orderly (h : m.Consistent) : m.Orderly where
  numbers := h.placed.numbers
  ranges e he := by
    obtain ⟨d, hd, hrange⟩ := h.placed.ranges e he
    exact ⟨d, by rwa [Array.getElem?_toList] at hd, (Device.range_eq_ok_iff.mp hrange).2⟩
  apart _ _ _ _ hij hd hd' := h.apart hij hd hd'
  unmapped address hnone w := by
    have hroute := h.route_eq_none hnone
    exact ⟨by rw [Memory.read_eq, hroute], fun value => by rw [Memory.write_eq, hroute]⟩
  read i d address hd has w := by
    rw [h.read_eq hd has]
    exact ⟨rfl, rfl, rfl⟩
  write i d address hd has w value := by
    rw [h.write_eq hd has]
    refine ⟨rfl, rfl, fun hclint => ?_⟩
    cases d with
    | clint start => exact absurd rfl (hclint start)
    | ram | rom | printer | fifo | ramSize => rfl
  refused_iff d := h.refused_iff
  refused d e he := add_error he
  added d i hi := by
    obtain ⟨hsize, range, map, -, -, hm'⟩ := add_ok hi
    exact ⟨hsize, by rw [hm']⟩
  resized_iff index length := h.resized_iff
  unresized index length e := h.resized_error
  resized index length m' hresized := by
    obtain ⟨r, hr, hdevices, -, h'⟩ := h.resized_ok hresized
    have hnew : m'.devices[index]? = some (.ram (r.resized length)) := by
      rw [hdevices, getElem?_set hr, if_pos rfl]
    exact ⟨r, r.resized length, hr, rfl, rfl, hdevices,
      fun address has => h.read_resized h' hr hnew has⟩
  told i r hr := (h.tells hr).get
  size i j r s hr hs same w := h.read_ramSize hs (same ▸ h.tells hr) w
  resized_size index length m' hresized r j s hr hs same w := by
    obtain ⟨r', hr', hdevices, -, h'⟩ := h.resized_ok hresized
    cases hr.symm.trans hr'
    have hne : index ≠ j := by
      rintro rfl
      cases hr.symm.trans hs
    have hs' : m'.devices[j]? = some (.ramSize s) := by
      rw [hdevices, getElem?_set hr, if_neg hne]
      exact hs
    have hnew : m'.devices[index]? = some (.ram (r.resized length)) := by
      rw [hdevices, getElem?_set hr, if_pos rfl]
    exact h'.read_ramSize hs' (same ▸ h'.tells hnew) w

end Memory

namespace Workbench

/-- What holds an address space together, and what the memories tell that are not in it. -/
structure Orderly (b : Workbench) : Prop extends b.memory.Orderly where
  spare_told : ∀ handle r, b.spare? handle = some r → b.memory.lengths.get handle = r.length
  /-- A size register may be there before its memory. -/
  spare_size : ∀ handle j r s, b.spare? handle = some r →
    b.memory.device? j = some (.ramSize s) → s.handle = handle →
      ∀ w, (b.memory.read w s.start).1 = .ok (r.length.setWidth w.bits)

theorem Consistent.orderly {b : Workbench} (h : b.Consistent) : b.Orderly where
  toOrderly := h.memory.orderly
  spare_told handle r hr := by
    obtain ⟨rfl, -, tells⟩ := h.spare handle r hr
    exact tells.get
  spare_size handle j r s hr hs same w := by
    obtain ⟨rfl, -, tells⟩ := h.spare handle r hr
    exact h.memory.read_ramSize hs (same ▸ tells) w

/-- Devices, addresses and lengths are held together, whatever is done with an address space. -/
theorem uses_orderly (clint : Clint) (journal : Journal) (uses : List Use) :
    (uses.foldl use (start clint journal)).Orderly :=
  ((consistent_start clint journal).uses uses).orderly

/-- Main memory with its size register below and a printer above.  A channel that begins inside
the memory is refused, and so is to make the memory reach the printer; then the memory is made
smaller. -/
example :
    let uses : List Use :=
      [.make 0x80000000 0x1000, .add (.ramSize ⟨0x7FFF0000, 0⟩) nofun, .mount 0,
        .add (.printer ⟨0x80001800, .empty⟩) nofun, .write .word 0x80000FFC 0x12345678,
        .add (.fifo (.init 0x80000FFF)) nofun, .resize 0 0x2000, .resize 1 0x2000,
        .read .word 0x80000FFC, .resize 1 0x800]
    let m := (uses.foldl use (start (.init 1) (.empty 0))).memory
    m.devices.size = 3 ∧ (m.read .word 0x7FFF0000).1.toOption = some 0x800 ∧
      [0x80000FFF, 0x800007FF, 0x80001800].map m.route = [none, some 1, some 2] := by
  decide +kernel

end Workbench
end Rv32
