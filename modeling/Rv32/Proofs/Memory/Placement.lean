/-
# `Rv32.Proofs.Memory.Placement` — devices and the map of their addresses

The map of addresses and the list of devices are kept apart, and a device that is resized
has changed before it is known whether it may.  What holds them together is `Placed`: the map
has one entry for each device, and in it the addresses of the device.

Devices have a map like this just if each has addresses and no two have one in common
(`Placed.placeAll_iff`).  So a device that shrinks is never refused, and one that is refused
has grown; to cut it off again changes nothing, because it had nothing beyond its length
before (`Consistent.resizeInPlace_refused`).
-/
import Rv32.Proofs.Device.Place
import Rv32.Proofs.Memory.Access

namespace Rv32.Memory

open Address (Range)

/-! ## Devices that can all be there -/

/-- Each of some devices has addresses, and no two have one in common. -/
structure Compatible (devices : List Device) : Prop where
  fits : ∀ d ∈ devices, d.Fits
  apart : ∀ (i j : Nat) (d d' : Device), i ≠ j → devices[i]? = some d → devices[j]? = some d' →
    d.Apart d'

section
variable {devices : List Device} {d : Device}

theorem getElem?_append {rest : List Device} {i : Nat} (h : devices[i]? = some d) :
    (devices ++ rest)[i]? = some d := by
  rwa [List.getElem?_append_left (List.getElem?_eq_some_iff.mp h).1]

/-- A device is one of the first, or the last. -/
theorem getElem?_concat {d' : Device} {i : Nat} (h : (devices ++ [d])[i]? = some d') :
    devices[i]? = some d' ∨ i = devices.length ∧ d' = d := by
  rw [List.getElem?_append] at h
  split at h
  case isTrue => exact .inl h
  case isFalse hi =>
    obtain ⟨hlt, hd⟩ := List.getElem?_eq_some_iff.mp h
    rw [List.length_singleton] at hlt
    exact .inr ⟨by omega, hd.symm.trans (List.getElem_singleton _)⟩

theorem Compatible.init {rest : List Device} (h : Compatible (devices ++ rest)) :
    Compatible devices where
  fits d hd := h.fits d (List.mem_append_left rest hd)
  apart i j d d' hij hd hd' :=
    h.apart i j d d' hij (getElem?_append hd) (getElem?_append hd')

/-- One more device can be there if none of the others has an address of it. -/
theorem compatible_concat_iff (h : Compatible devices) :
    Compatible (devices ++ [d]) ↔ d.Fits ∧ ∀ d' ∈ devices, d.Apart d' := by
  constructor
  · intro hall
    refine ⟨hall.fits d (by simp), fun d' hd' => ?_⟩
    obtain ⟨i, hi⟩ := List.mem_iff_getElem?.mp hd'
    have hlt : i < devices.length := (List.getElem?_eq_some_iff.mp hi).1
    refine hall.apart devices.length i d d' (Nat.ne_of_gt hlt) ?_ (getElem?_append hi)
    exact List.getElem?_concat_length
  · rintro ⟨hfits, hapart⟩
    refine ⟨fun d' hd' => ?_, fun i j a b hij ha hb => ?_⟩
    · rcases List.mem_append.mp hd' with hold | hnew
      · exact h.fits d' hold
      · rw [List.mem_singleton.mp hnew]
        exact hfits
    · rcases getElem?_concat ha with holdA | ⟨hi, rfl⟩
      · rcases getElem?_concat hb with holdB | ⟨-, rfl⟩
        · exact h.apart i j a b hij holdA holdB
        · exact (hapart a (List.mem_of_getElem? holdA)).symm
      · rcases getElem?_concat hb with holdB | ⟨hj, -⟩
        · exact hapart b (List.mem_of_getElem? holdB)
        · exact absurd (hi.trans hj.symm) hij

/-- A device can be replaced by one that none of the others has an address of. -/
theorem compatible_set_iff (h : Compatible devices) {index : Nat} (lt : index < devices.length) :
    Compatible (devices.set index d) ↔
      d.Fits ∧ ∀ j d', j ≠ index → devices[j]? = some d' → d.Apart d' := by
  have hnew : (devices.set index d)[index]? = some d := List.getElem?_set_self lt
  constructor
  · intro hall
    refine ⟨hall.fits d (List.mem_of_getElem? hnew), fun j d' hj hd' => ?_⟩
    exact hall.apart index j d d' hj.symm hnew (by rwa [List.getElem?_set_ne hj.symm])
  · rintro ⟨hfits, hapart⟩
    refine ⟨fun d' hd' => ?_, fun i j a b hij ha hb => ?_⟩
    · rcases List.mem_or_eq_of_mem_set hd' with hold | rfl
      · exact h.fits d' hold
      · exact hfits
    · by_cases hi : index = i
      · subst hi
        rw [hnew] at ha
        cases ha
        rw [List.getElem?_set_ne hij] at hb
        exact hapart j b hij.symm hb
      · rw [List.getElem?_set_ne hi] at ha
        by_cases hj : index = j
        · subst hj
          rw [hnew] at hb
          cases hb
          exact (hapart i a hij ha).symm
        · rw [List.getElem?_set_ne hj] at hb
          exact h.apart i j a b hij ha hb

end

/-! ## Placing a device -/

/-- A device has a place if it has addresses and they are free. -/
theorem place_eq_ok_iff {map map' : Address.Map Nat} {d : Device} {index : Nat} :
    place map d index = (.ok (), map') ↔
      ∃ range, d.range = .ok range ∧ map.insert range index = (.ok (), map') := by
  unfold place rangeOf
  cases hrange : d.range with
  | error e => simp [Except.mapError]
  | ok range =>
      rcases hinsert : map.insert range index with ⟨e | _, inserted⟩
      · simp [hinsert, Except.mapError]
      · simp [hinsert, Except.mapError]

theorem add_eq_ok_iff {m m' : Memory} {d : Device} {index : Nat} :
    m.add d = (.ok index, m') ↔ index = m.devices.size ∧ ∃ range map, d.range = .ok range ∧
      place m.map d m.devices.size = (.ok (), map) ∧
      m' = { m.record (.mapped d.name d.description range) with
        devices := m.devices.push d, map } := by
  unfold add place rangeOf
  cases hrange : d.range with
  | error e => simp [Except.mapError]
  | ok range =>
      rcases hinsert : m.map.insert range m.devices.size with ⟨e | _, map⟩
      · simp [hinsert, Except.mapError]
      · simp only [hinsert, Except.mapError, Except.ok.injEq, Prod.mk.injEq, true_and]
        constructor
        · rintro ⟨rfl, rfl⟩
          exact ⟨rfl, range, map, rfl, rfl, rfl⟩
        · rintro ⟨rfl, _, _, rfl, rfl, rfl⟩
          exact ⟨rfl, rfl⟩

theorem add_ok {m : Memory} {d : Device} {index : Nat} (added : (m.add d).1 = .ok index) :
    index = m.devices.size ∧ ∃ range map, d.range = .ok range ∧
      place m.map d m.devices.size = (.ok (), map) ∧
      (m.add d).2 = { m.record (.mapped d.name d.description range) with
        devices := m.devices.push d, map } := add_eq_ok_iff.mp (Prod.ext added rfl)

/-- A device that is refused is refused before anything else is changed. -/
theorem add_error {m : Memory} {d : Device} {e : MapError} (refused : (m.add d).1 = .error e) :
    (m.add d).2 = m := by
  unfold add at refused ⊢
  cases hrange : rangeOf d with
  | error e => rfl
  | ok range =>
      simp only [hrange] at refused ⊢
      rcases hinsert : m.map.insert range m.devices.size with ⟨e | _, map⟩
      · obtain ⟨-, hmap⟩ := Address.Map.insert_error (congrArg Prod.fst hinsert)
        rw [hinsert] at hmap
        simp only at hmap
        rw [hmap]
      · rw [hinsert] at refused
        cases refused

/-! ## The map of a list of devices -/

/-- A map has one entry for each device, with the addresses of the device. -/
structure Placed (map : Address.Map Nat) (devices : List Device) : Prop where
  ordered : map.Ordered
  numbers : (map.toList.map (·.2)).Perm (List.range devices.length)
  ranges : ∀ e ∈ map.toList, ∃ d, devices[e.2]? = some d ∧ d.range = .ok e.1

namespace Placed

variable {map : Address.Map Nat} {devices : List Device} {d : Device}

theorem empty : Placed Address.Map.empty [] where
  ordered := Address.Map.ordered_empty
  numbers := .refl _
  ranges _ he := absurd he List.not_mem_nil

/-- A device has an entry. -/
theorem exists_entry (h : Placed map devices) {i : Nat} (hd : devices[i]? = some d) :
    ∃ range, (range, i) ∈ map.toList ∧ d.range = .ok range := by
  have hlt : i < devices.length := (List.getElem?_eq_some_iff.mp hd).1
  have hi := h.numbers.mem_iff.mpr (List.mem_range.mpr hlt)
  obtain ⟨⟨range, j⟩, he, rfl⟩ := List.mem_map.mp hi
  obtain ⟨d', hd', hrange⟩ := h.ranges _ he
  rw [hd] at hd'
  cases hd'
  exact ⟨range, he, hrange⟩

theorem compatible (h : Placed map devices) : Compatible devices where
  fits d hd := by
    obtain ⟨i, hi⟩ := List.mem_iff_getElem?.mp hd
    obtain ⟨range, -, hrange⟩ := h.exists_entry hi
    exact (Device.range_eq_ok_iff.mp hrange).1
  apart i j d d' hij hd hd' address := by
    obtain ⟨range, he, hrange⟩ := h.exists_entry hd
    obtain ⟨range', he', hrange'⟩ := h.exists_entry hd'
    rw [← (Device.range_eq_ok_iff.mp hrange).2.contains_iff,
      ← (Device.range_eq_ok_iff.mp hrange').2.contains_iff]
    rintro ⟨hcontains, hcontains'⟩
    obtain ⟨k, hk⟩ := Address.Map.mem_toList.mp he
    obtain ⟨k', hk'⟩ := Address.Map.mem_toList.mp he'
    have hsame := h.ordered.unique hk hk' hcontains hcontains'
    rw [hsame, hk'] at hk
    cases hk
    exact hij rfl

/-- Looking an address up gives the device that has it. -/
theorem route_iff (h : Placed map devices) {address : Word} {i : Nat} :
    (map.get? address).map (·.2) = some i ↔ ∃ d, devices[i]? = some d ∧ d.Has address := by
  rw [Option.map_eq_some_iff]
  constructor
  · rintro ⟨e, he, rfl⟩
    obtain ⟨hmem, hcontains⟩ := h.ordered.get?_eq_some_iff.mp he
    obtain ⟨d, hd, hrange⟩ := h.ranges e hmem
    exact ⟨d, hd, (Device.range_eq_ok_iff.mp hrange).2.contains_iff.mp hcontains⟩
  · rintro ⟨d, hd, has⟩
    obtain ⟨range, he, hrange⟩ := h.exists_entry hd
    refine ⟨(range, i), h.ordered.get?_eq_some_iff.mpr ⟨he, ?_⟩, rfl⟩
    exact (Device.range_eq_ok_iff.mp hrange).2.contains_iff.mpr has

/-- Devices with the same addresses have the same map. -/
theorem congr (h : Placed map devices) {devices' : List Device}
    (length : devices'.length = devices.length)
    (same : ∀ (i : Nat) (d : Device), devices[i]? = some d →
      ∃ d', devices'[i]? = some d' ∧ d.SamePlace d') : Placed map devices' where
  ordered := h.ordered
  numbers := by rw [length]; exact h.numbers
  ranges e he := by
    obtain ⟨d, hd, hrange⟩ := h.ranges e he
    obtain ⟨d', hd', hsame⟩ := same e.2 d hd
    exact ⟨d', hd', hsame.range_eq.trans hrange⟩

/-! ### One more device -/

theorem place_ok (h : Placed map devices) {map' : Address.Map Nat}
    (placed : place map d devices.length = (.ok (), map')) : Placed map' (devices ++ [d]) := by
  obtain ⟨range, hrange, hinsert⟩ := place_eq_ok_iff.mp placed
  have hperm := Address.Map.perm_insert hinsert
  refine ⟨h.ordered.insert hinsert, ?_, fun e he => ?_⟩
  · refine (hperm.map (·.2)).trans ?_
    rw [List.map_cons, List.length_append, List.length_singleton, List.range_succ]
    exact (h.numbers.cons _).trans (List.perm_append_singleton _ _).symm
  · rcases List.mem_cons.mp (hperm.mem_iff.mp he) with rfl | hold
    · exact ⟨d, List.getElem?_concat_length, hrange⟩
    · obtain ⟨d', hd', hrange'⟩ := h.ranges e hold
      exact ⟨d', getElem?_append hd', hrange'⟩

/-- A device gets its place if it can be there with the others. -/
theorem place_iff (h : Placed map devices) :
    (∃ map', place map d devices.length = (.ok (), map')) ↔ Compatible (devices ++ [d]) := by
  refine ⟨fun ⟨map', hplace⟩ => (h.place_ok hplace).compatible, fun hall => ?_⟩
  obtain ⟨hfits, hapart⟩ := (compatible_concat_iff h.compatible).mp hall
  obtain ⟨range, hrange⟩ := hfits.exists_range
  cases hinsert : (map.insert range devices.length).1 with
  | ok _ => exact ⟨_, place_eq_ok_iff.mpr ⟨range, hrange, Prod.ext hinsert rfl⟩⟩
  | error e =>
      rw [(Address.Map.insert_error hinsert).1, h.ordered.insert_error_iff] at hinsert
      obtain ⟨entry, hentry, hoverlaps⟩ := hinsert
      obtain ⟨d', hd', hrange'⟩ := h.ranges entry hentry
      have hoccupies := (Device.range_eq_ok_iff.mp hrange).2
      have hoccupies' := (Device.range_eq_ok_iff.mp hrange').2
      exact absurd (hapart d' (List.mem_of_getElem? hd')).symm
        ((hoccupies'.overlaps_iff hoccupies).mp hoverlaps)

/-! ### Many more devices -/

theorem placeAll_ok {rest : List Device} {map' : Address.Map Nat} (h : Placed map devices)
    (placed : placeAll map rest devices.length = (.ok (), map')) :
    Placed map' (devices ++ rest) := by
  induction rest generalizing map devices with
  | nil =>
      cases placed
      rwa [List.append_nil]
  | cons d rest ih =>
      rw [placeAll] at placed
      rcases hplace : place map d devices.length with ⟨e | _, next⟩
      · rw [hplace] at placed
        cases placed
      · rw [hplace] at placed
        rw [List.append_cons]
        refine ih (h.place_ok hplace) ?_
        rwa [List.length_append, List.length_singleton]

/-- Devices get their places if they can be there together. -/
theorem placeAll_iff {rest : List Device} (h : Placed map devices) :
    (∃ map', placeAll map rest devices.length = (.ok (), map')) ↔ Compatible (devices ++ rest) := by
  refine ⟨fun ⟨map', hplaced⟩ => (h.placeAll_ok hplaced).compatible, fun hall => ?_⟩
  induction rest generalizing map devices with
  | nil => exact ⟨map, rfl⟩
  | cons d rest ih =>
      rw [List.append_cons] at hall
      obtain ⟨next, hplace⟩ := h.place_iff.mpr hall.init
      obtain ⟨map', hmap'⟩ := ih (h.place_ok hplace) hall
      rw [List.length_append, List.length_singleton] at hmap'
      refine ⟨map', ?_⟩
      simp only [placeAll, hplace]
      exact hmap'

end Placed

end Rv32.Memory
