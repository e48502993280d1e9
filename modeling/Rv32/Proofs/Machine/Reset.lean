/-
# `Rv32.Proofs.Machine.Reset` — what a reset leaves behind

A reset gives a machine the harts of a new one and drops every translation, so what goes
on afterwards depends on nothing from before but the physical address space: the machine
cannot be told apart from a new one around the same address space (`reset_renews`).

The address space keeps the reservations, and a reset does not drop them.  If there are
none, the machine is as good as new.  Otherwise it may not be: a store-conditional after
the reset can go by a reservation made before it (`reset_keeps_reservation`).

The proof has two parts.  Whatever the host does, the harts stay configured as they were
built, and what is remembered is for them (`Regular`); this is what a reset needs to drop
all of it.  And machines that differ only in the cycles they have counted go on alike
(`Alike.performAll`).
-/
import Rv32.Proofs.Machine.Run
import Rv32.Proofs.Memory.Orderly

namespace Rv32

/-! ## What the host does -/

/-- What the host can do with a machine. -/
inductive HostAction where
  | add (d : Device)
  | load (address : Word) (bytes : List Byte)
  | run (cycles : Nat)
  | reset
  /-- Anything else that changes the physical address space, such as setting the clock. -/
  | change (f : Memory → Memory)

/-- What the host is told about it. -/
inductive HostAnswer where
  | done
  | added (result : Except MapError Nat)
  | loaded (result : Except Unmapped Unit)
  | ran (result : RunResult)

namespace Machine

def perform (m : Machine) : HostAction → HostAnswer × Machine
  | .add d =>
    let (result, m) := m.add d
    (.added result, m)
  | .load address bytes =>
    let (result, memory) := m.memory.load address bytes
    (.loaded result, m.setMemory memory)
  | .run cycles =>
    let (result, m) := m.run cycles
    (.ran result, m)
  | .reset => (.done, m.reset)
  | .change f => (.done, m.setMemory (f m.memory))

/-- Does one thing after the other. -/
def performAll (m : Machine) : List HostAction → List HostAnswer × Machine
  | [] => ([], m)
  | action :: rest =>
    let (answer, m) := m.perform action
    let (answers, m) := m.performAll rest
    (answer :: answers, m)

/-- What a machine shows: its harts, its devices with all they hold, and the core-local
interruptor with its clock. -/
structure LooksLike (a b : Machine) : Prop where
  harts : a.harts = b.harts
  devices : a.memory.devices = b.memory.devices
  clint : a.clint = b.clint

/-- Whatever the host does, it gets the same answers and sees the same machine. -/
def Indistinguishable (a b : Machine) : Prop :=
  ∀ future, (a.performAll future).1 = (b.performAll future).1 ∧
    LooksLike (a.performAll future).2 (b.performAll future).2

/-- A machine with all that another one has in its physical address space, except for the
reservations. -/
def inPlaceOf (fresh m : Machine) : Machine :=
  fresh.setMemory { m.memory with reservations := fresh.memory.reservations }

/-! ## Machines that differ only in what they count -/

/-- Two machines that are the same, except for the number of cycles. -/
structure Alike (a b : Machine) : Prop where
  config : a.config = b.config
  harts : a.harts = b.harts
  mmu : a.mmu = b.mmu

namespace Alike

variable {a b : Machine}

theorem looksLike (same : Alike a b) : LooksLike a b :=
  ⟨same.harts, congrArg (·.memory.devices) same.mmu, congrArg (·.memory.clint) same.mmu⟩

theorem setMemory (same : Alike a b) (memory : Memory) :
    Alike (a.setMemory memory) (b.setMemory memory) :=
  ⟨same.config, same.harts, congrArg ({ · with memory }) same.mmu⟩

theorem reset (same : Alike a b) : Alike a.reset b.reset := by
  refine ⟨same.config, congrArg (·.map Hart.reset) same.harts, ?_⟩
  rw [Machine.reset, Machine.reset, same.harts, same.mmu]

theorem round (same : Alike a b) (slice : Nat) :
    (a.round slice).1 = (b.round slice).1 ∧ Alike (a.round slice).2 (b.round slice).2 := by
  rw [Machine.round, Machine.round, same.harts, same.mmu]
  rcases turns slice b.harts b.mmu with ⟨_ | ⟨hart, taken⟩, harts, mmu⟩
  all_goals exact ⟨rfl, same.config, rfl, rfl⟩

theorem run (same : Alike a b) (cycles : Nat) :
    (a.run cycles).1 = (b.run cycles).1 ∧ Alike (a.run cycles).2 (b.run cycles).2 := by
  induction a, cycles using rounds_induction generalizing b with
  | zero a =>
      rw [run_zero, run_zero]
      exact ⟨rfl, same⟩
  | round a cycles pos ih =>
      have hturn : a.turnLength = b.turnLength := congrArg (max ·.slice 1) same.config
      obtain ⟨hresult, hafter⟩ := same.round (min cycles a.turnLength)
      rw [a.run_loop pos, b.run_loop pos, ← hturn]
      rcases ha : a.round (min cycles a.turnLength) with ⟨result, a'⟩
      rcases hb : b.round (min cycles a.turnLength) with ⟨result', b'⟩
      rw [ha, hb] at hresult hafter
      cases hresult
      cases result with
      | completed => exact ih a' ha hafter
      | stopped hart => exact ⟨rfl, hafter⟩

/-- What one action of the host preserves. -/
theorem perform (same : Alike a b) (action : HostAction) :
    (a.perform action).1 = (b.perform action).1 ∧
      Alike (a.perform action).2 (b.perform action).2 := by
  have hmemory : a.memory = b.memory := congrArg (·.memory) same.mmu
  cases action with
  | add d =>
      rw [Machine.perform, Machine.perform, Machine.add, Machine.add, hmemory]
      exact ⟨rfl, same.setMemory _⟩
  | load address bytes =>
      rw [Machine.perform, Machine.perform, hmemory]
      exact ⟨rfl, same.setMemory _⟩
  | run cycles =>
      obtain ⟨hresult, hafter⟩ := same.run cycles
      exact ⟨congrArg HostAnswer.ran hresult, hafter⟩
  | reset => exact ⟨rfl, same.reset⟩
  | change f =>
      rw [Machine.perform, Machine.perform, hmemory]
      exact ⟨rfl, same.setMemory _⟩

theorem performAll (same : Alike a b) (future : List HostAction) :
    (a.performAll future).1 = (b.performAll future).1 ∧
      Alike (a.performAll future).2 (b.performAll future).2 := by
  induction future generalizing a b with
  | nil => exact ⟨rfl, same⟩
  | cons action rest ih =>
      obtain ⟨hanswer, hafter⟩ := same.perform action
      obtain ⟨hanswers, hend⟩ := ih hafter
      exact ⟨congrArg₂ List.cons hanswer hanswers, hend⟩

theorem indistinguishable (same : Alike a b) : Indistinguishable a b := fun future =>
  ⟨(same.performAll future).1, (same.performAll future).2.looksLike⟩

end Alike
end Machine

/-! ## Whose translations are remembered -/

/-- Everything remembered is for harts with numbers below `n`. -/
def TranslationCache.Below (t : TranslationCache) (n : Nat) : Prop := ∀ e ∈ t.entries, e.hart < n

variable {n : Nat}

/-- What a hart does is remembered for itself. -/
theorem Parts.keeps_below {h : Hart} (hart : h.config.id < n) {ε α : Type} {work : Attempt ε Mmu α}
    (parts : Parts h work) {mmu : Mmu} (below : mmu.cache.Below n) :
    (work mmu).2.cache.Below n := by
  refine parts.cache_invariant (P := (·.Below n)) ?_ ?_ mmu below
  · intro t privilege address physical access ht e he
    rcases (t.mem_insert _ _ _ _).mp he with rfl | ⟨hold, -⟩
    · exact hart
    · exact ht e hold
  · exact fun t ht e he => ht e (List.mem_filter.mp he).1

namespace Hart

theorem step_below {h : Hart} (hart : h.config.id < n) {mmu : Mmu}
    (below : mmu.cache.Below n) : (h.step mmu).2.2.cache.Below n := by
  rw [step_cache]
  exact Parts.keeps_below (h := h.count) hart Parts.attempt below

theorem run_below (steps taken : Nat) {h : Hart} (hart : h.config.id < n) {mmu : Mmu}
    (below : mmu.cache.Below n) : (h.run steps taken mmu).2.2.cache.Below n := by
  have hkeeps := run_induct (P := fun h mmu => h.config.id < n ∧ mmu.cache.Below n)
    (fun h mmu kept => ⟨h.step_config mmu ▸ kept.1, step_below kept.1 kept.2⟩)
    steps taken ⟨hart, below⟩
  exact hkeeps.2

theorem turn_below {h : Hart} (hart : h.config.id < n) (slice : Nat) {mmu : Mmu}
    (below : mmu.cache.Below n) : (h.turn slice mmu).2.2.cache.Below n := by
  have hconfig := h.checkInterrupts_config mmu
  have hcache := h.checkInterrupts_cache mmu
  exact run_below slice 0 (hconfig ▸ hart) (hcache ▸ below)

end Hart

namespace Machine

theorem turns_below (slice : Nat) {hs : List Hart} (harts : ∀ h ∈ hs, h.config.id < n)
    {mmu : Mmu} (below : mmu.cache.Below n) : (turns slice hs mmu).2.2.cache.Below n := by
  induction hs generalizing mmu with
  | nil => exact below
  | cons h rest ih =>
      have hafter := Hart.turn_below (harts h List.mem_cons_self) slice below
      rw [turns]
      rcases hturn : h.turn slice mmu with ⟨_ | taken, h', mmu'⟩
      all_goals rw [hturn] at hafter
      · exact ih (fun g hg => harts g (List.mem_cons_of_mem _ hg)) hafter
      · exact hafter

/-! ## What the host cannot change -/

/-- What holds of a machine as long as it is used: its harts are configured as they were
built, and what is remembered is for them. -/
structure Regular (c : MachineConfig) (m : Machine) : Prop where
  config : m.config = c
  configs : m.harts.map (·.config) = (List.range c.harts).map (hartConfig c true)
  below : m.mmu.cache.Below c.harts

namespace Regular

variable {c : MachineConfig} {m : Machine}

/-- Numbers of harts are those below the number of harts. -/
theorem mem_ids (r : Regular c m) {id : Nat} :
    (∃ h ∈ m.harts, h.config.id = id) ↔ id < c.harts := by
  have hids : m.harts.map (·.config.id) = List.range c.harts := by
    have hmap := congrArg (List.map HartConfig.id) r.configs
    rw [List.map_map, List.map_map] at hmap
    exact hmap.trans (List.map_id _)
  rw [← List.mem_range, ← hids, List.mem_map]

theorem setMemory (r : Regular c m) (memory : Memory) : Regular c (m.setMemory memory) :=
  ⟨r.config, r.configs, r.below⟩

theorem round (r : Regular c m) (slice : Nat) : Regular c (m.round slice).2 := by
  refine ⟨(m.round_config slice).trans r.config, (m.round_configs slice).trans r.configs, ?_⟩
  have hafter := turns_below slice (fun h hh => r.mem_ids.mp ⟨h, hh, rfl⟩) r.below
  rw [Machine.round]
  rcases hturns : turns slice m.harts m.mmu with ⟨_ | ⟨hart, taken⟩, harts, mmu⟩
  all_goals rw [hturns] at hafter; exact hafter

theorem run (r : Regular c m) (cycles : Nat) : Regular c (m.run cycles).2 :=
  run_induct (fun _ slice r => r.round slice) cycles r

end Regular

/-! ## What a reset does -/

section
variable (hs : List Hart) (mmu : Mmu)

/-- What is remembered after the translations of some harts have been dropped. -/
theorem mem_invalidateAll {e : CacheEntry} :
    e ∈ (hs.foldl (fun mmu h => mmu.invalidate h.config.id) mmu).cache.entries ↔
      e ∈ mmu.cache.entries ∧ ∀ h ∈ hs, h.config.id ≠ e.hart := by
  induction hs generalizing mmu with
  | nil => simp
  | cons h rest ih =>
      rw [List.foldl_cons, ih, Mmu.invalidate, TranslationCache.invalidate]
      simp only [List.mem_filter, bne_iff_ne, List.forall_mem_cons, and_assoc, ne_comm]

theorem memory_invalidateAll :
    (hs.foldl (fun mmu h => mmu.invalidate h.config.id) mmu).memory = mmu.memory := by
  induction hs generalizing mmu with
  | nil => rfl
  | cons h rest ih => exact ih _

end

namespace Regular

variable {c : MachineConfig} {m : Machine}

/-- After a reset nothing is remembered. -/
theorem mmu_reset (r : Regular c m) : m.reset.mmu = Mmu.ofMemory m.memory := by
  have hentries : m.reset.mmu.cache.entries = [] := by
    refine List.eq_nil_iff_forall_not_mem.mpr fun e he => ?_
    obtain ⟨hin, hothers⟩ := (mem_invalidateAll m.harts m.mmu).mp he
    obtain ⟨h, hh, hid⟩ := r.mem_ids.mpr (r.below e hin)
    exact hothers h hh hid
  have hcache : m.reset.mmu.cache = .empty := congrArg TranslationCache.mk hentries
  have hmemory : m.reset.mmu.memory = m.memory := memory_invalidateAll m.harts m.mmu
  exact congrArg₂ Mmu.mk hmemory hcache

/-- After a reset the harts are as they were built. -/
theorem harts_reset (r : Regular c m) (journal : Journal) :
    m.reset.harts = (bare c true journal).harts := by
  have hinit := congrArg (List.map Hart.init) r.configs
  rw [List.map_map, List.map_map] at hinit
  exact hinit

theorem reset (r : Regular c m) : Regular c m.reset := by
  refine ⟨r.config, ?_, ?_⟩
  · exact (List.map_map ..).trans r.configs
  · rw [r.mmu_reset]
    exact fun e he => absurd he List.not_mem_nil

/-- What one action of the host preserves. -/
theorem perform (r : Regular c m) (action : HostAction) : Regular c (m.perform action).2 := by
  cases action with
  | add d => exact r.setMemory _
  | load address bytes => exact r.setMemory _
  | run cycles => exact r.run cycles
  | reset => exact r.reset
  | change f => exact r.setMemory _

theorem performAll (r : Regular c m) (past : List HostAction) :
    Regular c (m.performAll past).2 := by
  induction past generalizing m with
  | nil => exact r
  | cons action rest ih => exact ih (r.perform action)

end Regular

/-! ## New machines -/

section
variable {c : MachineConfig} {journal : Journal} {fresh : Machine}

/-- There is always room for the core-local interruptor. -/
theorem exists_create (c : MachineConfig) (journal : Journal) :
    ∃ fresh, create c journal = .ok fresh := by
  have hfits : (Device.clint clintBase).Fits := ⟨by decide, by decide⟩
  obtain ⟨index, hadd⟩ := (Memory.consistent_empty (Clint.init c.harts) journal).add_iff.mpr
    ⟨hfits, fun d hd => absurd hd (Array.not_mem_empty d)⟩
  have hresult : ((bare c true journal).add (.clint clintBase)).1 = .ok index := hadd
  refine ⟨((bare c true journal).add (.clint clintBase)).2.record
    (.created c.harts c.resetVector), ?_⟩
  rw [create]
  split
  case h_1 hcreate => rw [hcreate]
  case h_2 hcreate =>
    rw [hcreate] at hresult
    cases hresult

/-- A new machine has nothing but an address space, in which nothing is reserved. -/
theorem eq_of_create (created : create c journal = .ok fresh) :
    ∃ memory, memory.reservations = .none ∧ fresh = (bare c true journal).setMemory memory := by
  rw [create, Machine.add] at created
  rcases hadd : (bare c true journal).memory.add (.clint clintBase) with ⟨e | index, memory⟩
  · rw [hadd] at created
    cases created
  · rw [hadd] at created
    cases created
    obtain ⟨-, range, map, -, -, rfl⟩ := Memory.add_eq_ok_iff.mp hadd
    exact ⟨_, rfl, rfl⟩

theorem regular_of_create (created : create c journal = .ok fresh) : Regular c fresh := by
  obtain ⟨memory, -, rfl⟩ := eq_of_create created
  exact ⟨rfl, List.map_map .., fun e he => absurd he List.not_mem_nil⟩

/-- Whatever was done with a machine: once it is reset it cannot be told apart from a new
one that has all its physical address space has, and if nothing is reserved, from one that
has all of it but the reservations. -/
theorem reset_renews (created : create c journal = .ok fresh) (past : List HostAction) :
    let m := (fresh.performAll past).2
    Indistinguishable m.reset (fresh.setMemory m.memory) ∧
      (m.memory.reservations = .none → Indistinguishable m.reset (fresh.inPlaceOf m)) := by
  intro m
  have r : Regular c m := (regular_of_create created).performAll past
  obtain ⟨memory, hnone, rfl⟩ := eq_of_create created
  have hsame : Alike m.reset (((bare c true journal).setMemory memory).setMemory m.memory) :=
    ⟨r.config, r.harts_reset journal, r.mmu_reset⟩
  refine ⟨hsame.indistinguishable, fun unreserved => ?_⟩
  have hall : { m.memory with reservations := memory.reservations } = m.memory := by
    rw [hnone, ← unreserved]
  rw [inPlaceOf]
  exact hall ▸ hsame.indistinguishable

end

/-- A program is put into memory and run to its end.  It stores conditionally, without a
reservation, and then loads the word with one. -/
def reserving : List HostAction :=
  [.change fun m => (m.makeRam 0x80000000 0x1000).2, .add (.ram ⟨0x80000000, 0x1000, .zero, 0⟩),
    .load 0x80000000
      [0xB7, 0x02, 0x00, 0x80, 0x93, 0x82, 0x02, 0x10, 0x13, 0x03, 0x70, 0x03,
        0xAF, 0xA3, 0x62, 0x18, 0x2F, 0xA4, 0x02, 0x10, 0x73, 0x00, 0x10, 0x00],
    .run 6]

/-- The reservation is gone once the host has written to the word. -/
theorem reset_renews_unreserved :
    ∃ fresh, create ⟨1, 16, 0x80000000, true⟩ (.empty 0) = .ok fresh ∧
      let m := (fresh.performAll (reserving ++ [.load 0x80000100 [0]])).2
      m.harts.map (·.registers.x 6) = [55] ∧ m.memory.reservations = .none ∧
        Indistinguishable m.reset (fresh.inPlaceOf m) := by
  obtain ⟨fresh, created⟩ := exists_create ⟨1, 16, 0x80000000, true⟩ (.empty 0)
  have hrun : (create ⟨1, 16, 0x80000000, true⟩ (.empty 0)).toOption.map (fun fresh =>
      let m := (fresh.performAll (reserving ++ [.load 0x80000100 [0]])).2
      (m.harts.map (·.registers.x 6), m.memory.reservations)) = some ([55], .none) := by
    decide +kernel
  rw [created] at hrun
  obtain ⟨hx, hnone⟩ := Prod.mk.inj (Option.some.inj hrun)
  exact ⟨fresh, created, hx, hnone, (reset_renews created _).2 hnone⟩

/-- With a reservation left from before the reset the store-conditional succeeds, and
writes 0 to register 7.  In a new machine it fails. -/
theorem reset_keeps_reservation :
    ∃ fresh, create ⟨1, 16, 0x80000000, true⟩ (.empty 0) = .ok fresh ∧
      let m := (fresh.performAll reserving).2
      (m.reset.run 6).2.harts.map (·.registers.x 7) = [0] ∧
        ((fresh.inPlaceOf m).run 6).2.harts.map (·.registers.x 7) = [1] ∧
        ¬Indistinguishable m.reset (fresh.inPlaceOf m) := by
  obtain ⟨fresh, created⟩ := exists_create ⟨1, 16, 0x80000000, true⟩ (.empty 0)
  have hrun : (create ⟨1, 16, 0x80000000, true⟩ (.empty 0)).toOption.map (fun fresh =>
      let m := (fresh.performAll reserving).2
      ((m.reset.run 6).2.harts.map (·.registers.x 7),
        ((fresh.inPlaceOf m).run 6).2.harts.map (·.registers.x 7))) = some ([0], [1]) := by
    decide +kernel
  rw [created] at hrun
  obtain ⟨hreset, hnew⟩ := Prod.mk.inj (Option.some.inj hrun)
  refine ⟨fresh, created, hreset, hnew, fun same => ?_⟩
  have hharts := congrArg (List.map (·.registers.x 7)) (same [.run 6]).2.harts
  have hwords : ([0] : List Word) = [1] := hreset.symm.trans (hharts.trans hnew)
  exact absurd hwords (by decide)

end Machine
end Rv32
