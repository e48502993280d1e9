/-
# `Rv32.Proofs.Memory.Consistent` — devices, their addresses and their lengths

What is kept of a device in several places stays the same in all of them
(`Memory.Consistent`).  The map has its addresses; a main memory keeps no byte beyond its
length; and under its handle, which no other memory has, others are told that length.

Each use of an address space keeps this.  The only one for which it is not plain is to resize
a device: it changes the device and what is told first, looks afterwards whether all devices
still have room, and if not changes both back.  All that this can come to is said once, in
`Consistent.resizeInPlace_cases`.
-/
import Rv32.Proofs.Memory.Placement

namespace Rv32.Memory

/-! ## What is kept -/

/-- The length of the main memory with a number, and the handle under which it is told. -/
def told? (m : Memory) (i : Nat) : Option (Nat × Word) := m.devices[i]?.bind (·.told?)

/-- Devices have their map, keep nothing beyond their lengths, and tell these. -/
structure Consistent (m : Memory) : Prop where
  placed : Placed m.map m.devices.toList
  trim : ∀ (i : Nat) (d : Device), m.devices[i]? = some d → d.Trim
  told : ∀ i handle length, m.told? i = some (handle, length) → m.lengths.Tells handle length
  /-- No two memories have a handle in common. -/
  own : ∀ i j handle a b, m.told? i = some (handle, a) → m.told? j = some (handle, b) → i = j

variable {m m' : Memory} {d : Device} {r : Ram} {i index : Nat} {w : Width} {address length : Word}

theorem told?_ram (hr : m.devices[i]? = some (.ram r)) : m.told? i = some (r.handle, r.length) := by
  rw [told?, hr]
  rfl

theorem Consistent.tells (h : m.Consistent) (hr : m.devices[i]? = some (.ram r)) :
    r.Tells m.lengths := h.told i r.handle r.length (told?_ram hr)

theorem consistent_empty (clint : Clint) (journal : Journal) :
    (empty clint journal).Consistent where
  placed := .empty
  trim i d hd := by simp [empty] at hd
  told i handle length ht := by simp [empty, told?] at ht
  own i j handle a b ht := by simp [empty, told?] at ht

section
variable {devices : Array Device}

/-- Devices, when the one with a number is replaced. -/
theorem getElem?_set (hd : devices[i]? = some d) (d' : Device) (j : Nat) :
    (devices.set! i d')[j]? = if i = j then some d' else devices[j]? := by
  have hlt : i < devices.size := (Array.getElem?_eq_some_iff.mp hd).1
  rw [Array.set!_eq_setIfInBounds, Array.getElem?_setIfInBounds, if_pos hlt]

theorem modify_eq_set {f : Device → Device} (hd : devices[i]? = some d) :
    devices.modify i f = devices.set! i (f d) := by
  refine Array.ext_getElem? fun j => ?_
  rw [Array.getElem?_modify, getElem?_set hd]
  by_cases hij : i = j
  · rw [if_pos hij, if_pos hij, ← hij, hd, Option.map_some]
  · rw [if_neg hij, if_neg hij]

theorem set_self (hd : devices[i]? = some d) : devices.set! i d = devices := by
  refine Array.ext_getElem? fun j => ?_
  rw [getElem?_set hd]
  by_cases hij : i = j
  · rw [if_pos hij, ← hij, hd]
  · rw [if_neg hij]

/-- A device that is put back makes up for its replacement. -/
theorem set_set_self (hd : devices[i]? = some d) (d' : Device) :
    (devices.set! i d').set! i d = devices := by
  refine Array.ext_getElem? fun j => ?_
  rw [getElem?_set ((getElem?_set hd d' i).trans (if_pos rfl)), getElem?_set hd]
  by_cases hij : i = j
  · rw [if_pos hij, ← hij, hd]
  · rw [if_neg hij, if_neg hij]

end

/-- A device that is replaced by one of its length. -/
theorem told?_set {d' : Device} (hd : m.devices[i]? = some d) (told : d'.told? = d.told?)
    (devices : m'.devices = m.devices.set! i d') (j : Nat) : m'.told? j = m.told? j := by
  rw [told?, devices, getElem?_set hd]
  split
  case isTrue hij => rw [told?, ← hij, hd, Option.bind_some, told, Option.bind_some]
  case isFalse => rfl

/-- A device may change if it stays where it is and keeps its length. -/
theorem Consistent.set (h : m.Consistent) {d' : Device} (hd : m.devices[i]? = some d)
    (place : d.SamePlace d') (trim : d'.Trim) (told : d'.told? = d.told?) (map : m'.map = m.map)
    (lengths : m'.lengths = m.lengths) (devices : m'.devices = m.devices.set! i d') :
    m'.Consistent := by
  have htold := told?_set hd told devices
  refine ⟨?_, fun j e he => ?_, fun j handle length ht => ?_, fun j k handle a b hj hk => ?_⟩
  · have hlength : m'.devices.toList.length = m.devices.toList.length := by
      rw [devices, Array.set!_eq_setIfInBounds, Array.toList_setIfInBounds, List.length_set]
    rw [map]
    refine h.placed.congr hlength fun j e he => ?_
    rw [Array.getElem?_toList] at he
    rw [Array.getElem?_toList, devices, getElem?_set hd]
    by_cases hij : i = j
    · rw [← hij, hd] at he
      cases he
      exact ⟨d', if_pos hij, place⟩
    · exact ⟨e, (if_neg hij).trans he, rfl, rfl⟩
  · rw [devices, getElem?_set hd] at he
    split at he
    · cases he
      exact trim
    · exact h.trim j e he
  · rw [lengths]
    exact h.told j handle length (htold j ▸ ht)
  · exact h.own j k handle a b (htold j ▸ hj) (htold k ▸ hk)

/-- Only what devices tell has to be told. -/
theorem Consistent.withLengths (h : m.Consistent) {lengths : Lengths}
    (tells : ∀ i handle length, m.told? i = some (handle, length) → lengths.Tells handle length) :
    Consistent { m with lengths } :=
  ⟨h.placed, h.trim, tells, h.own⟩

/-! ## Accesses -/

theorem Consistent.route_iff (h : m.Consistent) :
    m.route address = some i ↔ ∃ d, m.devices[i]? = some d ∧ d.Has address := by
  simp only [← Array.getElem?_toList]
  exact h.placed.route_iff

theorem Consistent.apart (h : m.Consistent) {j : Nat} {d' : Device} (hij : i ≠ j)
    (hd : m.devices[i]? = some d) (hd' : m.devices[j]? = some d') : d.Apart d' := by
  rw [← Array.getElem?_toList] at hd hd'
  exact h.placed.compatible.apart i j d d' hij hd hd'

theorem Consistent.route_eq_none (h : m.Consistent) (unmapped : ∀ d ∈ m.devices, ¬d.Has address) :
    m.route address = none := by
  cases hroute : m.route address with
  | none => rfl
  | some i =>
      obtain ⟨d, hd, has⟩ := h.route_iff.mp hroute
      exact absurd has (unmapped d (Array.mem_of_getElem? hd))

/-- A read is one of the device that has the address. -/
theorem Consistent.read_eq (h : m.Consistent) (hd : m.devices[i]? = some d)
    (has : d.Has address) (w : Width) :
    m.read w address = (.ok (m.value d w address),
      { m with
        devices := m.devices.set! i (d.afterRead address)
        journal := m.journal.recordAll (d.readEvents w address) }) := by
  rw [Memory.read_eq, h.route_iff.mpr ⟨d, hd, has⟩]
  simp only [readDevice, hd, modify_eq_set hd]

/-- A write is one of the device that has the address. -/
theorem Consistent.write_eq (h : m.Consistent) (hd : m.devices[i]? = some d)
    (has : d.Has address) (value : BitVec w.bits) :
    m.write w address value = (.ok (),
      { m with
        devices := m.devices.set! i (d.afterWrite w address value)
        clint := m.clintAfterWrite d w address value
        journal := m.journal.recordAll (d.writeEvents w address value)
        reservations := m.reservations.disturb w address }) := by
  rw [Memory.write_eq, h.route_iff.mpr ⟨d, hd, has⟩]
  simp only [writeDevice, hd, modify_eq_set hd]

theorem Consistent.read (h : m.Consistent) (w : Width) (address : Word) :
    (m.read w address).2.Consistent := by
  cases hroute : m.route address with
  | none =>
      rw [Memory.read_eq, hroute]
      exact h
  | some i =>
      obtain ⟨d, hd, has⟩ := h.route_iff.mp hroute
      rw [h.read_eq hd has]
      exact h.set hd (d.samePlace_afterRead address) ((h.trim i d hd).afterRead address)
        (d.told?_afterRead address) rfl rfl rfl

theorem Consistent.write (h : m.Consistent) (w : Width) (address : Word) (value : BitVec w.bits) :
    (m.write w address value).2.Consistent := by
  cases hroute : m.route address with
  | none =>
      rw [Memory.write_eq, hroute]
      exact h
  | some i =>
      obtain ⟨d, hd, has⟩ := h.route_iff.mp hroute
      rw [h.write_eq hd has]
      exact h.set hd (d.samePlace_afterWrite w address value)
        ((h.trim i d hd).afterWrite w address value) (d.told?_afterWrite w address value)
        rfl rfl rfl

/-- A size register reads what is told under its handle. -/
theorem Consistent.read_ramSize (h : m.Consistent) {j : Nat} {s : RamSize}
    (hs : m.devices[j]? = some (.ramSize s)) (told : m.lengths.Tells s.handle length) (w : Width) :
    (m.read w s.start).1 = .ok (length.setWidth w.bits) := by
  have hfits : (Device.ramSize s).Fits := by
    rw [← Array.getElem?_toList] at hs
    exact h.placed.compatible.fits _ (List.mem_of_getElem? hs)
  have hread := h.read_eq hs hfits.has_start w
  rw [Device.start] at hread
  rw [hread]
  simp only [value, RamSize.read, if_true, told.get]

/-! ## Adding a device -/

/-- A device can be added without anything coming apart: it keeps nothing beyond its length,
and tells this under a handle that no memory has. -/
structure Admits (m : Memory) (d : Device) : Prop where
  trim : d.Trim
  told : ∀ handle length, d.told? = some (handle, length) → m.lengths.Tells handle length
  own : ∀ handle length, d.told? = some (handle, length) → ∀ i a, m.told? i ≠ some (handle, a)

/-- What is not main memory keeps and tells nothing. -/
theorem admits_of_not_ram (other : ∀ r, d ≠ .ram r) : m.Admits d where
  trim r hr := absurd hr (other r)
  told handle length ht := by
    obtain ⟨r, hr, -⟩ := Device.told?_eq_some_iff.mp ht
    exact absurd hr (other r)
  own handle length ht := by
    obtain ⟨r, hr, -⟩ := Device.told?_eq_some_iff.mp ht
    exact absurd hr (other r)

/-- What is told is told by a new device or by one that was there. -/
theorem told?_push {j : Nat} {t : Nat × Word}
    (ht : (m.devices.push d)[j]?.bind (·.told?) = some t) :
    j = m.devices.size ∧ d.told? = some t ∨ m.told? j = some t := by
  rw [Array.getElem?_push] at ht
  split at ht
  case isTrue hj => exact .inl ⟨hj, ht⟩
  case isFalse => exact .inr ht

theorem Consistent.add (h : m.Consistent) (admits : m.Admits d) : (m.add d).2.Consistent := by
  cases hadd : (m.add d).1 with
  | error e =>
      rw [add_error hadd]
      exact h
  | ok index =>
      obtain ⟨-, range, map, -, hplace, hm'⟩ := add_ok hadd
      rw [hm']
      have hget (j : Nat) :
          (m.devices.push d)[j]? = if j = m.devices.size then some d else m.devices[j]? :=
        Array.getElem?_push
      refine ⟨?_, fun j e he => ?_, fun j handle length ht => ?_, fun j k handle a b hj hk => ?_⟩
      · rw [Array.toList_push]
        exact h.placed.place_ok hplace
      · rw [hget] at he
        split at he
        · cases he
          exact admits.trim
        · exact h.trim j e he
      · rcases told?_push ht with ⟨-, hnew⟩ | hold
        · exact admits.told handle length hnew
        · exact h.told j handle length hold
      · rcases told?_push hj with ⟨hj, hnew⟩ | hold
        · rcases told?_push hk with ⟨hk, -⟩ | hold'
          · exact hj.trans hk.symm
          · exact absurd hold' (admits.own handle a hnew k b)
        · rcases told?_push hk with ⟨-, hnew'⟩ | hold'
          · exact absurd hold (admits.own handle b hnew' j a)
          · exact h.own j k handle a b hold hold'

/-- A device is added if it can be there with the others. -/
theorem Consistent.add_iff (h : m.Consistent) :
    (∃ index, (m.add d).1 = .ok index) ↔ d.Fits ∧ ∀ d' ∈ m.devices, d.Apart d' := by
  have hplace : (∃ map, place m.map d m.devices.size = (.ok (), map)) ↔ _ := h.placed.place_iff
  simp only [compatible_concat_iff h.placed.compatible, Array.mem_toList_iff] at hplace
  rw [← hplace]
  constructor
  · rintro ⟨index, hadd⟩
    obtain ⟨-, range, map, -, hmap, -⟩ := add_ok hadd
    exact ⟨map, hmap⟩
  · rintro ⟨map, hmap⟩
    obtain ⟨range, hrange⟩ := (hplace.mp ⟨map, hmap⟩).1.exists_range
    exact ⟨_, congrArg Prod.fst (add_eq_ok_iff.mpr ⟨rfl, range, map, hrange, hmap, rfl⟩)⟩

/-! ## Resizing a device -/

/-- An address space in which a main memory has another length, and tells it. -/
def resizedAt (m : Memory) (index : Nat) (r : Ram) (length : Word) : Memory :=
  { m with
    devices := m.devices.set! index (.ram (r.resized length))
    lengths := m.lengths.set r.handle length }

theorem resizeDevice_ram (hr : m.devices[index]? = some (.ram r))
    (fits : (Device.ram (r.resized length)).Fits) :
    m.resizeDevice index length = (true, m.resizedAt index r length) := by
  rw [resizeDevice, hr]
  simp only [Device.resize, Ram.resize_of_fits (Device.fits_resized.mp fits)]
  rfl

/-- The devices after a memory has been given another length. -/
theorem toList_resizedAt (m : Memory) (index : Nat) (r : Ram) (length : Word) :
    (m.resizedAt index r length).devices.toList =
      m.devices.toList.set index (.ram (r.resized length)) := by
  rw [resizedAt, Array.set!_eq_setIfInBounds, Array.toList_setIfInBounds]

theorem getElem?_resizedAt (hr : m.devices[index]? = some (.ram r)) (length : Word) (j : Nat) :
    (m.resizedAt index r length).devices[j]? =
      if index = j then some (.ram (r.resized length)) else m.devices[j]? := getElem?_set hr _ j

/-- A memory that grew is as it was after it has been cut off again, and so is what it tells. -/
theorem Consistent.resizedAt_back (h : m.Consistent) (hr : m.devices[index]? = some (.ram r))
    (grown : r.length.toNat ≤ length.toNat) :
    (m.resizedAt index r length).resizeDevice index r.length = (true, m) := by
  have hback : (r.resized length).resized r.length = r :=
    (h.trim index _ hr r rfl).resized_back grown
  have hfits : (Device.ram ((r.resized length).resized r.length)).Fits := by
    rw [hback]
    exact h.placed.compatible.fits _ (Array.mem_toList_iff.mpr (Array.mem_of_getElem? hr))
  have htells : (m.lengths.set r.handle length).set r.handle r.length = m.lengths :=
    (h.tells hr).set_set length
  rw [resizeDevice_ram ((getElem?_resizedAt hr length index).trans (if_pos rfl)) hfits]
  unfold resizedAt
  dsimp only
  rw [hback, set_set_self hr]
  exact congrArg (fun lengths => (true, { m with lengths })) htells

/-- A memory that shrinks can stay where it is. -/
theorem Consistent.compatible_of_shrunk (h : m.Consistent)
    (hr : m.devices[index]? = some (.ram r)) (fits : (Device.ram (r.resized length)).Fits)
    (shrunk : length.toNat ≤ r.length.toNat) :
    Compatible (m.devices.toList.set index (.ram (r.resized length))) := by
  have hlt : index < m.devices.toList.length := (Array.getElem?_eq_some_iff.mp hr).1
  refine (compatible_set_iff h.placed.compatible hlt).mpr ⟨fits, fun j d hj hd a => ?_⟩
  rw [Array.getElem?_toList] at hd
  have hapart := h.apart hj.symm hr hd a
  rintro ⟨hin, hhas⟩
  refine hapart ⟨⟨hin.1, ?_⟩, hhas⟩
  exact Nat.lt_of_lt_of_le hin.2 (Nat.add_le_add_left shrunk _)

/-- A memory that cannot stay where it is has grown, and shrinks to what it was. -/
theorem Consistent.resizeInPlace_refused (h : m.Consistent) {map : Address.Map Nat} {e : MapError}
    (hr : m.devices[index]? = some (.ram r)) (fits : (Device.ram (r.resized length)).Fits)
    (refused : placeAll Address.Map.empty (m.devices.toList.set index (.ram (r.resized length))) 0 =
      (.error e, map)) : m.resizeInPlace index length = (.error e, m) := by
  have hgrown : r.length.toNat ≤ length.toNat := by
    refine Nat.le_of_not_le fun hshrunk => ?_
    obtain ⟨map', hmap⟩ := Placed.empty.placeAll_iff.mpr (h.compatible_of_shrunk hr fits hshrunk)
    cases refused.symm.trans hmap
  simp only [resizeInPlace, hr, resizeDevice_ram hr fits, toList_resizedAt, refused, Device.length,
    h.resizedAt_back hr hgrown]

/-- All that resizing a device can come to.  Either it is main memory, can have the length
and stay with the others, and then has it and tells it; or nothing has changed. -/
theorem Consistent.resizeInPlace_cases (h : m.Consistent) (index : Nat) (length : Word) :
    (∃ r map, m.devices[index]? = some (.ram r) ∧
      Placed map (m.devices.toList.set index (.ram (r.resized length))) ∧
      m.resizeInPlace index length = (.ok (), { m.resizedAt index r length with map })) ∨
    (∃ e, m.resizeInPlace index length = (.error e, m)) ∧
      ∀ r, m.devices[index]? = some (.ram r) →
        ¬Compatible (m.devices.toList.set index (.ram (r.resized length))) := by
  cases hd : m.devices[index]? with
  | none =>
      refine .inr ⟨⟨_, by rw [resizeInPlace, hd]⟩, ?_⟩
      exact fun r hr => nomatch hr
  | some d =>
      have hlt : index < m.devices.toList.length := (Array.getElem?_eq_some_iff.mp hd).1
      rcases d.resize_cases length m.lengths with ⟨r, rfl, fits, -⟩ | ⟨hresize, hnot⟩
      · rcases hmap : placeAll Address.Map.empty
            (m.devices.toList.set index (.ram (r.resized length))) 0 with ⟨e | _, map⟩
        · refine .inr ⟨⟨e, h.resizeInPlace_refused hd fits hmap⟩, ?_⟩
          rintro _ ⟨⟩ hall
          obtain ⟨map', hok⟩ := Placed.empty.placeAll_iff.mpr hall
          cases hmap.symm.trans hok
        · refine .inl ⟨r, map, rfl, Placed.empty.placeAll_ok hmap, ?_⟩
          simp only [resizeInPlace, hd, resizeDevice_ram hd fits, toList_resizedAt, hmap]
      · have hsame : m.resizeDevice index length = (false, m) := by
          rw [resizeDevice, hd]
          simp only [hresize, set_self hd]
        refine .inr ⟨⟨.fixedSize d.name, by simp only [resizeInPlace, hd, hsame]⟩, ?_⟩
        rintro r ⟨⟩ hall
        exact hnot r rfl (hall.fits _ (List.mem_of_getElem? (List.getElem?_set_self hlt)))

/-- A device has another length if it is main memory that has it and can be there with the
others. -/
theorem Consistent.resized_iff (h : m.Consistent) :
    (m.resizeInPlace index length).1 = .ok () ↔
      ∃ r, m.device? index = some (.ram r) ∧ (Device.ram { r with length }).Fits ∧
        ∀ j d, j ≠ index → m.device? j = some d → (Device.ram { r with length }).Apart d := by
  -- A new length decides where a device can be; the bytes have no say in it.
  have hset {r : Ram} (hr : m.devices[index]? = some (.ram r)) :
      Compatible (m.devices.toList.set index (.ram (r.resized length))) ↔
        (Device.ram { r with length }).Fits ∧
          ∀ j d, j ≠ index → m.device? j = some d → (Device.ram { r with length }).Apart d := by
    have hlt : index < m.devices.toList.length := (Array.getElem?_eq_some_iff.mp hr).1
    simp only [device?, ← Array.getElem?_toList]
    exact compatible_set_iff h.placed.compatible hlt
  rcases h.resizeInPlace_cases index length with ⟨r, map, hr, hplaced, hok⟩ | ⟨⟨e, herror⟩, hnot⟩
  · rw [hok]
    exact iff_of_true rfl ⟨r, hr, (hset hr).mp hplaced.compatible⟩
  · rw [herror]
    refine iff_of_false nofun ?_
    rintro ⟨r, hr, hall⟩
    exact hnot r hr ((hset hr).mpr hall)

theorem Consistent.resized_error (h : m.Consistent) {e : MapError}
    (failed : (m.resizeInPlace index length).1 = .error e) :
    (m.resizeInPlace index length).2 = m := by
  rcases h.resizeInPlace_cases index length with ⟨r, map, hr, hplaced, hok⟩ | ⟨⟨e, he⟩, -⟩
  · rw [hok] at failed
    cases failed
  · rw [he]

/-- What is told after a memory has been given another length: its own handle tells this, and
the others what they did. -/
theorem Consistent.resizedAt (h : m.Consistent) (hr : m.devices[index]? = some (.ram r))
    {map : Address.Map Nat}
    (placed : Placed map (m.devices.toList.set index (.ram (r.resized length)))) :
    Consistent { m.resizedAt index r length with map } := by
  have hold := told?_ram hr
  have htold {j handle : Nat} {a : Word}
      (ht : (m.resizedAt index r length).told? j = some (handle, a)) :
      index = j ∧ handle = r.handle ∧ a = length ∨ index ≠ j ∧ m.told? j = some (handle, a) := by
    rw [told?, getElem?_resizedAt hr] at ht
    split at ht
    case isTrue hj =>
      cases ht
      exact .inl ⟨hj, rfl, rfl⟩
    case isFalse hj => exact .inr ⟨hj, ht⟩
  refine ⟨?_, fun j e he => ?_, fun j handle a ht => ?_, fun j k handle a b hj hk => ?_⟩
  · dsimp only
    rw [toList_resizedAt]
    exact placed
  · rw [getElem?_resizedAt hr] at he
    split at he
    · cases he
      exact Device.trim_ram.mpr (r.trim_resized length)
    · exact h.trim j e he
  · rcases htold ht with ⟨-, rfl, rfl⟩ | ⟨hj, ht⟩
    · exact (h.tells hr).set a
    · refine (h.told j handle a ht).set_ne (fun hsame => hj ?_) length
      exact h.own index j handle _ a (hsame ▸ hold) ht
  · rcases htold hj with ⟨rfl, rfl, -⟩ | ⟨hj', hj⟩
    · rcases htold hk with ⟨rfl, -⟩ | ⟨hk', hk⟩
      · rfl
      · exact absurd (h.own index k r.handle _ b hold hk) hk'
    · rcases htold hk with ⟨rfl, rfl, -⟩ | ⟨hk', hk⟩
      · exact absurd (h.own index j r.handle _ a hold hj) hj'
      · exact h.own j k handle a b hj hk

theorem Consistent.resized_ok (h : m.Consistent)
    (resized : m.resizeInPlace index length = (.ok (), m')) :
    ∃ r, m.devices[index]? = some (.ram r) ∧
      m'.devices = m.devices.set! index (.ram (r.resized length)) ∧
      m'.lengths = m.lengths.set r.handle length ∧ m'.Consistent := by
  rcases h.resizeInPlace_cases index length with ⟨r, map, hr, hplaced, hok⟩ | ⟨⟨e, he⟩, -⟩
  · rw [hok] at resized
    cases resized
    exact ⟨r, hr, rfl, rfl, h.resizedAt hr hplaced⟩
  · rw [he] at resized
    cases resized

theorem Consistent.resizeInPlace (h : m.Consistent) (index : Nat) (length : Word) :
    (m.resizeInPlace index length).2.Consistent := by
  cases hresize : (m.resizeInPlace index length).1 with
  | error e =>
      rw [h.resized_error hresize]
      exact h
  | ok _ =>
      obtain ⟨-, -, -, -, hafter⟩ := h.resized_ok (Prod.ext hresize rfl)
      exact hafter

/-- A resized memory has the bytes it had, as far as it had any, and else zeros. -/
theorem Consistent.read_resized (h : m.Consistent) (h' : m'.Consistent)
    (hr : m.devices[index]? = some (.ram r))
    (new : m'.devices[index]? = some (.ram (r.resized length)))
    (has : (Device.ram (r.resized length)).Has address) :
    (m'.read .byte address).1 =
      if (Device.ram r).Has address then (m.read .byte address).1 else .ok 0 := by
  have hinside : r.start.toNat ≤ address.toNat ∧
    address.toNat < r.start.toNat + length.toNat := has
  obtain ⟨hle, hlt⟩ := hinside
  obtain ⟨offset, hoffset⟩ := Nat.exists_eq_add_of_le hle
  have hin : offset < length.toNat := by omega
  have hnew : (r.resized length).read .byte address = r.cells.get offset :=
    (Ram.read_byte (r := r.resized length) hoffset hin).trans (Ram.get_resized hin)
  rw [h'.read_eq new has]
  simp only [value, hnew]
  split
  case isTrue hhad =>
    have hinside : offset < r.length.toNat := by
      have := hhad.2
      simp only [Device.start, Device.length] at this
      omega
    rw [h.read_eq hr hhad]
    simp only [value, Ram.read_byte hoffset hinside]
  case isFalse hnot =>
    have houtside : r.length.toNat ≤ offset := by
      refine Nat.le_of_not_lt fun hinside => hnot ⟨hle, ?_⟩
      simp only [Device.start, Device.length]
      omega
    rw [(h.trim index _ hr r rfl).blank offset houtside]

end Rv32.Memory
