/-
# `Rv32.Proofs.Memory.Access` — what an access leaves as it was

The relations of devices, carried over to address spaces.

* `Memory.SameOn P` relates two address spaces in the same state, but for bytes of main
  memory outside the pages `P`.  An access to those pages gives the same in both.
* `Memory.Keeps P` relates an address space to one that it has become.  Reading a
  steady word of the pages `P` gives the same in both, and changes nothing.
-/
import Rv32.Memory.Access
import Rv32.Proofs.Device.Basic

namespace Rv32.Memory

/-! ## Two relations -/

/-- Two address spaces in the same state, but for bytes of main memory outside some
pages, and for what is reported. -/
structure SameOn (P : Page → Prop) (m m' : Memory) : Prop where
  map : m'.map = m.map
  reservations : m'.reservations = m.reservations
  clint : m'.clint = m.clint
  lengths : m'.lengths = m.lengths
  devices : ∀ i : Nat, Option.Rel (Device.SameOn P) m.devices[i]? m'.devices[i]?

/-- An address space and what it may become: the devices are as they were placed, and
main memory keeps its bytes on some pages and what it tells of its size. -/
structure Keeps (P : Page → Prop) (m m' : Memory) : Prop where
  map : m'.map = m.map
  lengths : m'.lengths = m.lengths
  devices : ∀ i : Nat, Option.Rel (Device.Keeps P) m.devices[i]? m'.devices[i]?

/-- Changing one device of each of two lists by related changes. -/
theorem rel_modify {R : Device → Device → Prop} {ds ds' : Array Device} {f g : Device → Device}
    (h : ∀ i : Nat, Option.Rel R ds[i]? ds'[i]?) (change : ∀ d d', R d d' → R (f d) (g d'))
    (index i : Nat) : Option.Rel R (ds.modify index f)[i]? (ds'.modify index g)[i]? := by
  rw [Array.getElem?_modify, Array.getElem?_modify]
  split
  · have hi := h i
    generalize ds[i]? = a, ds'[i]? = b at hi ⊢
    cases hi with
    | none => exact .none
    | some hd => exact .some (change _ _ hd)
  · exact h i

/-- Changing one device of a list. -/
theorem rel_modify_right {R : Device → Device → Prop} (refl : ∀ d, R d d) {f : Device → Device}
    (change : ∀ d, R d (f d)) (ds : Array Device) (index i : Nat) :
    Option.Rel R ds[i]? (ds.modify index f)[i]? := by
  rw [Array.getElem?_modify]
  cases ds[i]? with
  | none => split <;> exact .none
  | some d =>
      split
      · exact .some (change d)
      · exact .some (refl d)

/-- Related lists have a device at the same places. -/
theorem rel_cases {R : Device → Device → Prop} {a b : Option Device} (h : Option.Rel R a b) :
    a = none ∧ b = none ∨ ∃ d d', a = some d ∧ b = some d' ∧ R d d' := by
  cases h with
  | none => exact .inl ⟨rfl, rfl⟩
  | some hd => exact .inr ⟨_, _, rfl, rfl, hd⟩

variable {P : Page → Prop} {m m' : Memory}

theorem Keeps.refl (P : Page → Prop) (m : Memory) : Keeps P m m := by
  refine ⟨rfl, rfl, fun i => ?_⟩
  cases m.devices[i]? with
  | none => exact .none
  | some d => exact .some (.refl P d)

theorem Keeps.trans {m'' : Memory} (h : Keeps P m m') (h' : Keeps P m' m'') :
    Keeps P m m'' := by
  refine ⟨h'.map.trans h.map, h'.lengths.trans h.lengths, fun i => ?_⟩
  have hi := h.devices i
  have hi' := h'.devices i
  generalize m.devices[i]? = a, m'.devices[i]? = b, m''.devices[i]? = c at hi hi' ⊢
  cases hi with
  | none => exact hi'
  | some hd =>
      cases hi' with
      | some hd' => exact .some (hd.trans hd')

theorem Keeps.mono {Q : Page → Prop} (h : Keeps P m m') (sub : ∀ p, Q p → P p) :
    Keeps Q m m' := by
  refine ⟨h.map, h.lengths, fun i => ?_⟩
  have hi := h.devices i
  generalize m.devices[i]? = a, m'.devices[i]? = b at hi ⊢
  cases hi with
  | none => exact .none
  | some hd => exact .some (hd.mono sub)

theorem Keeps.route_eq (h : Keeps P m m') (address : Word) : m'.route address = m.route address := by
  simp only [route, h.map]

theorem SameOn.route_eq (h : SameOn P m m') (address : Word) :
    m'.route address = m.route address := by
  simp only [route, h.map]

/-! ## Accesses as equations -/

theorem read_eq (m : Memory) (w : Width) (address : Word) :
    m.read w address =
      match m.route address with
      | none => (.error ⟨address⟩, m)
      | some index => (.ok (m.readDevice index w address).1, (m.readDevice index w address).2) :=
  rfl

theorem write_eq (m : Memory) (w : Width) (address : Word) (value : BitVec w.bits) :
    m.write w address value =
      match m.route address with
      | none => (.error ⟨address⟩, m)
      | some index =>
        (.ok (), { m.writeDevice index w address value with
          reservations :=
            (m.writeDevice index w address value).reservations.disturb w address }) :=
  rfl

/-! ## Alike before, alike after -/

/-- Devices that are alike give the same value. -/
theorem SameOn.value (h : SameOn P m m') {d d' : Device} (hd : Device.SameOn P d d') {w : Width}
    {address : Word} (fits : InPage w address) (inside : P (Paging.pageOf address)) :
    m'.value d' w address = m.value d w address := by
  cases hd with
  | refl =>
      cases d with
      | ram r => rfl
      | rom r => rfl
      | printer p => rfl
      | fifo f => rfl
      | ramSize s => exact congrArg (s.read w address) h.lengths
      | clint start =>
          show m'.clint.read w (address - start) = m.clint.read w (address - start)
          rw [h.clint]
  | ram start length bytes =>
      exact Ram.read_congr start length fits fun b hb => bytes b (hb ▸ inside)

theorem SameOn.read (h : SameOn P m m') {w : Width} {address : Word} (fits : InPage w address)
    (inside : P (Paging.pageOf address)) :
    (m'.read w address).1 = (m.read w address).1 ∧
      SameOn P (m.read w address).2 (m'.read w address).2 := by
  rw [read_eq, read_eq, h.route_eq]
  cases m.route address with
  | none => exact ⟨rfl, h⟩
  | some index =>
      have hmodify := rel_modify (f := (·.afterRead address)) (g := (·.afterRead address))
        h.devices (fun _ _ hd => hd.afterRead address) index
      rcases rel_cases (h.devices index) with ⟨hnone, hnone'⟩ | ⟨d, d', hsome, hsome', hd⟩
      · simp only [readDevice, hnone, hnone']
        exact ⟨trivial, h⟩
      · simp only [readDevice, hsome, hsome', h.value hd fits inside]
        exact ⟨trivial, h.map, h.reservations, h.clint, h.lengths, hmodify⟩

theorem SameOn.clintAfterWrite (h : SameOn P m m') {d d' : Device} (hd : Device.SameOn P d d')
    (w : Width) (address : Word) (value : BitVec w.bits) :
    m'.clintAfterWrite d' w address value = m.clintAfterWrite d w address value := by
  cases hd with
  | refl =>
      cases d with
      | clint start =>
          show m'.clint.write w (address - start) value = m.clint.write w (address - start) value
          rw [h.clint]
      | ram | rom | printer | fifo | ramSize => exact h.clint
  | ram => exact h.clint

theorem SameOn.writeDevice (h : SameOn P m m') (index : Nat) (w : Width) (address : Word)
    (value : BitVec w.bits) :
    SameOn P (m.writeDevice index w address value) (m'.writeDevice index w address value) := by
  have hmodify := rel_modify (f := (·.afterWrite w address value))
    (g := (·.afterWrite w address value)) h.devices
    (fun _ _ hd => hd.afterWrite w address value) index
  rcases rel_cases (h.devices index) with ⟨hnone, hnone'⟩ | ⟨d, d', hsome, hsome', hd⟩
  · simp only [Memory.writeDevice, hnone, hnone']
    exact h
  · simp only [Memory.writeDevice, hsome, hsome']
    exact ⟨h.map, h.reservations, h.clintAfterWrite hd w address value, h.lengths, hmodify⟩

theorem SameOn.write (h : SameOn P m m') (w : Width) (address : Word) (value : BitVec w.bits) :
    (m'.write w address value).1 = (m.write w address value).1 ∧
      SameOn P (m.write w address value).2 (m'.write w address value).2 := by
  rw [write_eq, write_eq, h.route_eq]
  cases m.route address with
  | none => exact ⟨rfl, h⟩
  | some index =>
      have hd := h.writeDevice index w address value
      exact ⟨rfl, hd.map, congrArg (Reservations.disturb · w address) hd.reservations, hd.clint,
        hd.lengths, hd.devices⟩

theorem SameOn.reserve (h : SameOn P m m') (hart : Nat) (address : Word) :
    SameOn P (m.reserve hart address) (m'.reserve hart address) :=
  ⟨h.map, congrArg (Reservations.reserve · hart address) h.reservations, h.clint, h.lengths,
    h.devices⟩

theorem SameOn.takeReservation (h : SameOn P m m') (hart : Nat) (address : Word) :
    (m'.takeReservation hart address).1 = (m.takeReservation hart address).1 ∧
      SameOn P (m.takeReservation hart address).2 (m'.takeReservation hart address).2 :=
  ⟨congrArg (Reservations.holds · hart address) h.reservations,
    h.map, congrArg (Reservations.drop · hart) h.reservations, h.clint, h.lengths, h.devices⟩

/-- What is reported does not matter. -/
theorem SameOn.journals (h : SameOn P m m') (journal journal' : Journal) :
    SameOn P { m with journal } { m' with journal := journal' } :=
  ⟨h.map, h.reservations, h.clint, h.lengths, h.devices⟩

/-! ## What is kept -/

theorem keeps_read (P : Page → Prop) (m : Memory) (w : Width) (address : Word) :
    Keeps P m (m.read w address).2 := by
  rw [read_eq]
  cases m.route address with
  | none => exact .refl P m
  | some index =>
      dsimp only [readDevice]
      cases m.devices[index]? with
      | none => exact .refl P m
      | some d =>
          exact ⟨rfl, rfl, rel_modify_right (Device.Keeps.refl P)
            (fun d => Device.keeps_afterRead P d address) m.devices index⟩

theorem keeps_write {w : Width} {address : Word} (fits : InPage w address)
    (out : ¬P (Paging.pageOf address)) (m : Memory) (value : BitVec w.bits) :
    Keeps P m (m.write w address value).2 := by
  rw [write_eq]
  cases m.route address with
  | none => exact .refl P m
  | some index =>
      dsimp only [writeDevice]
      cases m.devices[index]? with
      | none => exact ⟨rfl, rfl, (Keeps.refl P m).devices⟩
      | some d =>
          exact ⟨rfl, rfl, rel_modify_right (Device.Keeps.refl P)
            (fun d => Device.keeps_afterWrite fits out d value) m.devices index⟩

theorem keeps_reserve (P : Page → Prop) (m : Memory) (hart : Nat) (address : Word) :
    Keeps P m (m.reserve hart address) := ⟨rfl, rfl, (Keeps.refl P m).devices⟩

theorem keeps_takeReservation (P : Page → Prop) (m : Memory) (hart : Nat) (address : Word) :
    Keeps P m (m.takeReservation hart address).2 := ⟨rfl, rfl, (Keeps.refl P m).devices⟩

theorem Keeps.withJournal (h : Keeps P m m') (journal : Journal) :
    Keeps P m { m' with journal } := ⟨h.map, h.lengths, h.devices⟩

/-! ## Steady words -/

/-- The device of an address is steady, if the address has one. -/
def SteadyAt (m : Memory) (address : Word) : Prop :=
  ∀ index d, m.route address = some index → m.devices[index]? = some d → d.steady = true

theorem steadyAt_of_all (h : m.devices.toList.all Device.steady = true) (address : Word) :
    m.SteadyAt address := by
  intro index d _ hdevice
  exact List.all_eq_true.mp h d (Array.mem_toList_iff.mpr (Array.mem_of_getElem? hdevice))

theorem steadyAt_of_route {address : Word} {index : Nat} {d : Device}
    (hroute : m.route address = some index) (hdevice : m.devices[index]? = some d)
    (steady : d.steady = true) : m.SteadyAt address := by
  intro index' d' hroute' hdevice'
  rw [hroute] at hroute'
  cases hroute'
  rw [hdevice] at hdevice'
  cases hdevice'
  exact steady

/-- Reading a steady word changes nothing. -/
theorem read_steady {w : Width} {address : Word} (steady : m.SteadyAt address) :
    (m.read w address).2 = m := by
  rw [read_eq]
  cases hroute : m.route address with
  | none => rfl
  | some index =>
      dsimp only [readDevice]
      cases hdevice : m.devices[index]? with
      | none => rfl
      | some d =>
          have hd := steady index d hroute hdevice
          have hmodify : m.devices.modify index (·.afterRead address) = m.devices := by
            refine Array.ext_getElem? fun i => ?_
            rw [Array.getElem?_modify]
            split
            · rename_i heq
              rw [← heq, hdevice, Option.map_some, d.afterRead_of_steady hd]
            · rfl
          simp only [hmodify, d.readEvents_of_steady hd]
          rfl

/-- What is kept of a memory decides what reading a steady word gives. -/
theorem Keeps.read_steady (h : Keeps P m m') {w : Width} {address : Word}
    (fits : InPage w address) (inside : P (Paging.pageOf address)) (steady : m.SteadyAt address) :
    (m'.read w address).1 = (m.read w address).1 := by
  rw [read_eq, read_eq, h.route_eq]
  cases hroute : m.route address with
  | none => rfl
  | some index =>
      rcases rel_cases (h.devices index) with ⟨hnone, hnone'⟩ | ⟨d, d', hsome, hsome', hd⟩
      · simp only [readDevice, hnone, hnone']
      · have hsteady := steady index d hroute hsome
        have hvalue : m'.value d' w address = m.value d w address := by
          cases hd with
          | ram start length bytes =>
              exact Ram.read_congr start length fits fun b hb => bytes b (hb ▸ inside)
          | rom r => rfl
          | printer start => rfl
          | ramSize s => exact congrArg (s.read w address) h.lengths
          | fifo start => cases hsteady
          | clint start => cases hsteady
        simp only [readDevice, hsome, hsome', hvalue]

/-- A byte that reads differently was not kept. -/
theorem not_keeps {address : Word} (inside : P (Paging.pageOf address))
    (steady : m.SteadyAt address)
    (h : (m'.read .byte address).1.toOption ≠ (m.read .byte address).1.toOption) :
    ¬Keeps P m m' :=
  fun hkept => h (congrArg Except.toOption (hkept.read_steady (inPage_byte address) inside steady))

/-- Where the devices are of a kind, the same words are steady. -/
theorem steadyAt_congr {R : Device → Device → Prop} (map : m'.map = m.map)
    (h : ∀ i : Nat, Option.Rel R m.devices[i]? m'.devices[i]?)
    (steady : ∀ d d', R d d' → d'.steady = d.steady) {address : Word} (hm : m.SteadyAt address) :
    m'.SteadyAt address := by
  intro index d' hroute hdevice
  rw [route, map] at hroute
  rcases rel_cases (h index) with ⟨-, hnone⟩ | ⟨d, _, hsome, hsome', hd⟩
  · rw [hnone] at hdevice
    cases hdevice
  · rw [hsome'] at hdevice
    cases hdevice
    rw [steady d _ hd]
    exact hm index d hroute hsome

theorem Keeps.steadyAt (h : Keeps P m m') {address : Word} (steady : m.SteadyAt address) :
    m'.SteadyAt address :=
  steadyAt_congr h.map h.devices (fun _ _ hd => hd.steady_eq) steady

theorem SameOn.steadyAt (h : SameOn P m m') {address : Word} (steady : m.SteadyAt address) :
    m'.SteadyAt address :=
  steadyAt_congr h.map h.devices (fun _ _ hd => hd.steady_eq) steady

end Rv32.Memory
