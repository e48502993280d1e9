/-
# `Rv32.Proofs.Checked.Machine` — nothing that a guest does makes a machine panic

A checked run takes rounds as long as there are cycles left, and counts them.  The counter
has 64 bits, so it may run out of room; nothing else can go wrong.

What this rests on is kept by everything that happens to a machine (`Machine.Intact`): the
devices are where the map says, and the harts are numbered below the number of caches.  It
holds of every machine that is built by adding devices to an empty one, whatever harts,
devices and clock hold, and whenever they come to hold it (`Machine.Assembled`).
-/
import Rv32.Proofs.Checked.Step
import Rv32.Proofs.Machine.Run
import Rv32.Proofs.Machine.Translation

namespace Rv32

namespace Checked

open CheckedAttempt

/-! ## Turns -/

/-- Takes steps, and stops after the one that asks for it. -/
def runHart (caches : Nat) : (steps taken : Nat) → Hart → Mmu →
    Checked (Option Nat × Hart × Mmu)
  | 0, _, h, mmu => return (none, h, mmu)
  | n + 1, taken, h, mmu => do
    match ← step caches h mmu with
    | (.stopped, h, mmu) => return (some (taken + 1), h, mmu)
    | (.completed, h, mmu) | (.trapped _, h, mmu) => runHart caches n (taken + 1) h mmu

/-- The turn of a hart. -/
def turn (caches : Nat) (h : Hart) (slice : Nat) (mmu : Mmu) :
    Checked (Option Nat × Hart × Mmu) := do
  let (_, h, mmu) ← checkInterrupts h mmu
  runHart caches slice 0 h mmu

/-- The turns of all harts. -/
def turns (caches slice : Nat) : List Hart → Mmu →
    Checked (Option (Nat × Nat) × List Hart × Mmu)
  | [], mmu => return (none, [], mmu)
  | h :: rest, mmu => do
    match ← turn caches h slice mmu with
    | (some taken, h, mmu) => return (some (h.config.id, taken), h :: rest, mmu)
    | (none, h, mmu) =>
      let (stopped, rest, mmu) ← turns caches slice rest mmu
      return (stopped, h :: rest, mmu)

section
variable {caches : Nat}

theorem runHart_eq {h : Hart} (hart : h.config.id < caches) (n taken : Nat) {mmu : Mmu}
    (ready : Ready mmu) :
    runHart caches n taken h mmu = .ok (h.run n taken mmu) ∧ Ready (h.run n taken mmu).2.2 := by
  induction n generalizing taken h mmu with
  | zero => exact ⟨rfl, ready⟩
  | succ n ih =>
      obtain ⟨hstep, hafter⟩ := step_eq hart ready
      have hconfig := h.step_config mmu
      rw [runHart, hstep, ok_bind, Hart.run]
      rcases hresult : h.step mmu with ⟨_ | _ | t, h', mmu'⟩
      all_goals rw [hresult] at hafter hconfig
      · exact ih (hconfig ▸ hart) _ hafter
      · exact ⟨rfl, hafter⟩
      · exact ih (hconfig ▸ hart) _ hafter

theorem turn_eq {h : Hart} (hart : h.config.id < caches) (slice : Nat) {mmu : Mmu}
    (ready : Ready mmu) :
    turn caches h slice mmu = .ok (h.turn slice mmu) ∧ Ready (h.turn slice mmu).2.2 := by
  have hconfig := h.checkInterrupts_config mmu
  have hafter := checkInterrupts_ready h ready
  rw [turn, checkInterrupts_eq, ok_bind, Hart.turn]
  exact runHart_eq (hconfig ▸ hart) slice 0 hafter

theorem turns_eq (slice : Nat) {hs : List Hart} (harts : ∀ h ∈ hs, h.config.id < caches)
    {mmu : Mmu} (ready : Ready mmu) :
    turns caches slice hs mmu = .ok (Machine.turns slice hs mmu) ∧
      Ready (Machine.turns slice hs mmu).2.2 := by
  induction hs generalizing mmu with
  | nil => exact ⟨rfl, ready⟩
  | cons h rest ih =>
      obtain ⟨hturn, hafter⟩ := turn_eq (harts h (List.mem_cons_self ..)) slice ready
      rw [turns, hturn, ok_bind, Machine.turns]
      rcases hresult : h.turn slice mmu with ⟨_ | taken, h', mmu'⟩
      all_goals rw [hresult] at hafter
      · obtain ⟨hrest, hready⟩ := ih (fun g hg => harts g (List.mem_cons_of_mem _ hg)) hafter
        refine ⟨?_, hready⟩
        simp only [hrest, ok_bind]
        rfl
      · exact ⟨rfl, hafter⟩

end

/-! ## Runs -/

def round (m : Machine) (slice : Nat) : Checked (RunResult × Machine) := do
  match ← turns m.config.harts slice m.harts m.mmu with
  | (some (hart, taken), harts, mmu) =>
    return (.stopped hart, { m with harts, mmu, executed := ← sum 64 m.executed taken })
  | (none, harts, mmu) =>
    return (.completed, { m with harts, mmu, executed := ← sum 64 m.executed slice })

/-- Takes rounds as long as there are cycles left. -/
def run (m : Machine) (remaining : Nat) : Checked (RunResult × Machine) := do
  if _h : remaining = 0 then return (.completed, m)
  else
    let slice := min remaining (max m.config.slice 1)
    match ← round m slice with
    | (.stopped hart, m) => return (.stopped hart, m)
    | (.completed, m) =>
      discard (difference remaining slice)
      run m (remaining - slice)
termination_by remaining
decreasing_by omega

/-- Adds a device to a machine. -/
def addDevice (m : Machine) (d : Device) : Checked (Except MapError Nat × Machine) := do
  let (result, memory) ← add m.memory d
  return (result, m.setMemory memory)

end Checked

namespace Machine

open Checked

/-- What keeps a machine from panicking: the devices are where the map says, and there is a
cache for each hart. -/
structure Intact (m : Machine) : Prop where
  harts : ∀ h ∈ m.harts, h.config.id < m.config.harts
  routable : m.memory.Routable

namespace Intact

variable {m : Machine}

/-- Only the configurations of the harts matter. -/
theorem harts_congr (i : m.Intact) {m' : Machine} (config : m'.config = m.config)
    (configs : m'.harts.map (·.config) = m.harts.map (·.config)) :
    ∀ h ∈ m'.harts, h.config.id < m'.config.harts := by
  intro h hh
  have hmem : h.config ∈ m'.harts.map (·.config) := List.mem_map_of_mem hh
  rw [configs] at hmem
  obtain ⟨g, hg, hconfig⟩ := List.mem_map.mp hmem
  rw [← hconfig, config]
  exact i.harts g hg

theorem bare (c : MachineConfig) (misaligned : Bool) (journal : Journal) :
    (Machine.bare c misaligned journal).Intact where
  harts := by
    intro h hh
    obtain ⟨id, hid, rfl⟩ := List.mem_map.mp hh
    exact List.mem_range.mp hid
  routable := Memory.routable_empty _ _

theorem add (i : m.Intact) (d : Device) : (m.add d).2.Intact := ⟨i.harts, i.routable.add d⟩

theorem round (i : m.Intact) (slice : Nat) : (m.round slice).2.Intact where
  harts := i.harts_congr (m.round_config slice) (m.round_configs slice)
  routable := by
    obtain ⟨-, hready⟩ := turns_eq slice i.harts i.routable
    rw [Machine.round]
    rcases hturns : Machine.turns slice m.harts m.mmu with ⟨_ | ⟨hart, taken⟩, harts, mmu⟩
    all_goals rw [hturns] at hready; exact hready

theorem run (i : m.Intact) (cycles : Nat) : (m.run cycles).2.Intact :=
  run_induct (fun _ slice i => i.round slice) cycles i

/-- A hart may be replaced by one that is configured alike. -/
theorem replace (i : m.Intact) {n : Nat} {h h' : Hart} (hart : m.hart? n = some h)
    (config : h'.config = h.config) {mmu : Mmu} (ready : CheckedAttempt.Ready mmu) :
    ({ m.setHart n h' with mmu } : Machine).Intact := by
  refine ⟨fun g hg => ?_, ready⟩
  rcases List.mem_or_eq_of_mem_set hg with hold | rfl
  · exact i.harts g hold
  · rw [config]
    exact i.harts h (List.mem_of_getElem? hart)

theorem step (i : m.Intact) (n : Nat) : (m.act (.step n)).Intact := by
  rw [act]
  cases hart : m.hart? n with
  | none => exact i
  | some h =>
      have hid := i.harts h (List.mem_of_getElem? hart)
      exact i.replace hart (h.step_config m.mmu) (step_eq hid i.routable).2

theorem interrupt (i : m.Intact) (n : Nat) : (m.act (.interrupt n)).Intact := by
  rw [act]
  cases hart : m.hart? n with
  | none => exact i
  | some h =>
      exact i.replace hart (h.checkInterrupts_config m.mmu) (checkInterrupts_ready h i.routable)

end Intact

/-- A machine that a host has built and used.  It starts without devices, and is given devices,
which it takes or refuses.
Harts take steps and are interrupted, or the machine runs, any number of times; and at any
moment anything may be written to the harts, to what devices hold, to the clock and to what
is remembered of memory, as long as devices stay where they are. -/
inductive Assembled : Machine → Prop
  | bare (c : MachineConfig) (misaligned : Bool) (journal : Journal) :
      Assembled (Machine.bare c misaligned journal)
  | add {m : Machine} (d : Device) : Assembled m → Assembled (m.add d).2
  | harts {m : Machine} (harts : List Hart) :
      Assembled m → harts.map (·.config) = m.harts.map (·.config) → Assembled { m with harts }
  | mmu {m : Machine} (mmu : Mmu) :
      Assembled m → mmu.memory.map = m.memory.map →
        mmu.memory.devices.size = m.memory.devices.size → Assembled { m with mmu }
  | step {m : Machine} (hart : Nat) : Assembled m → Assembled (m.act (.step hart))
  | interrupt {m : Machine} (hart : Nat) : Assembled m → Assembled (m.act (.interrupt hart))
  | run {m : Machine} (cycles : Nat) : Assembled m → Assembled (m.run cycles).2

namespace Assembled

theorem create {c : MachineConfig} {journal : Journal} {m : Machine}
    (created : Machine.create c journal = .ok m) : m.Assembled := by
  unfold Machine.create at created
  split at created
  case h_1 index m' hadd =>
    cases created
    have assembled : m'.Assembled := by
      rw [show m' = _ from congrArg Prod.snd hadd.symm]
      exact .add _ (.bare c true journal)
    exact .mmu _ assembled rfl rfl
  case h_2 => cases created

theorem intact {m : Machine} (a : m.Assembled) : m.Intact := by
  induction a with
  | bare c misaligned journal => exact .bare c misaligned journal
  | add d _ ih => exact ih.add d
  | harts harts _ configs ih => exact ⟨ih.harts_congr rfl configs, ih.routable⟩
  | mmu mmu _ map size ih => exact ⟨ih.harts, ih.routable.congr map size⟩
  | step hart _ ih => exact ih.step hart
  | interrupt hart _ ih => exact ih.interrupt hart
  | run cycles _ ih => exact ih.run cycles

end Assembled
end Machine

namespace Checked

variable {m : Machine}

theorem round_eq (i : m.Intact) (slice : Nat) (room : (m.round slice).2.executed < 2 ^ 64) :
    round m slice = .ok (m.round slice) := by
  obtain ⟨hturns, -⟩ := turns_eq slice i.harts i.routable
  rw [Machine.round] at room ⊢
  rw [round, hturns, ok_bind]
  rcases hresult : Machine.turns slice m.harts m.mmu with ⟨_ | ⟨hart, taken⟩, harts, mmu⟩
  all_goals
    rw [hresult] at room
    simp only [sum_eq room, ok_bind]
    rfl

theorem run_eq (i : m.Intact) {cycles : Nat} (room : (m.run cycles).2.executed < 2 ^ 64) :
    run m cycles = .ok (m.run cycles) := by
  induction m, cycles using Machine.rounds_induction with
  | zero m =>
      rw [run, dif_pos rfl, Machine.run_zero]
      rfl
  | round m cycles pos ih =>
      have hslice : min cycles (max m.config.slice 1) = min cycles m.turnLength := rfl
      have hintact := i.round (min cycles m.turnLength)
      have hround := round_eq i (min cycles m.turnLength)
      rw [m.run_loop pos] at room ⊢
      rw [run, dif_neg (Nat.ne_of_gt pos)]
      simp only [hslice]
      rcases hresult : m.round (min cycles m.turnLength) with ⟨_ | hart, m'⟩
      all_goals rw [hresult] at hintact hround room
      · -- The counter only grows, so it has room after the round if it has room in the end.
        have hroom := Nat.lt_of_le_of_lt (m'.executed_le_run _) room
        simp only [hround hroom, ok_bind, difference_eq (Nat.min_le_left ..), discard_ok]
        exact ih m' hresult hintact room
      · simp only [hround room, ok_bind]
        rfl

theorem addDevice_eq (m : Machine) (d : Device) : addDevice m d = .ok (m.add d) := by
  rw [addDevice, add_eq, ok_bind, Machine.add]
  rfl

end Checked

namespace Machine

/-- What can be asked of a machine does not panic, and does what it does without checks. -/
structure PanicFree (m : Machine) : Prop where
  add : ∀ d, Checked.addDevice m d = .ok (m.add d)
  interrupt : ∀ h ∈ m.harts, Checked.checkInterrupts h m.mmu = .ok (h.checkInterrupts m.mmu)
  step : ∀ h ∈ m.harts, Checked.step m.config.harts h m.mmu = .ok (h.step m.mmu)
  /-- The counter of cycles has 64 bits. -/
  run : ∀ cycles, (m.run cycles).2.executed < 2 ^ 64 → Checked.run m cycles = .ok (m.run cycles)

/-- No guest makes a machine panic. -/
theorem Assembled.panicFree {m : Machine} (a : m.Assembled) : m.PanicFree where
  add := Checked.addDevice_eq m
  interrupt h _ := Checked.checkInterrupts_eq h m.mmu
  step h hh := (Checked.step_eq (a.intact.harts h hh) a.intact.routable).1
  run _ room := Checked.run_eq a.intact room

/-- A machine with a firmware that divides by zero, and then asks the machine to stop. -/
theorem Assembled.panicFree_of_division :
    let firmware : Rom := ⟨0, Bytes.pack [0xB3, 0x40, 0x00, 0x02, 0x73, 0x00, 0x10, 0x00]⟩
    ∃ start m, Machine.create ⟨1, 16, 0, true⟩ (.empty 0) = .ok start ∧
      start.add (.rom firmware) = (.ok 1, m) ∧ (m.run 100).2.executed = 2 ∧
      m.PanicFree ∧ Checked.run m 100 = .ok (m.run 100) := by
  intro firmware
  have built : (Machine.create ⟨1, 16, 0, true⟩ (.empty 0)).toOption.map (fun start =>
      ((start.add (.rom firmware)).1.toOption,
        ((start.add (.rom firmware)).2.run 100).2.executed)) = some (some 1, 2) := by
    decide +kernel
  cases hcreate : Machine.create ⟨1, 16, 0, true⟩ (.empty 0) with
  | error e =>
      rw [hcreate] at built
      cases built
  | ok start =>
      rw [hcreate] at built
      obtain ⟨hadd, hcount⟩ := Prod.mk.inj (Option.some.inj built)
      have room : ((start.add (.rom firmware)).2.run 100).2.executed < 2 ^ 64 := by
        rw [hcount]
        decide
      have hfree := Assembled.panicFree (.add (.rom firmware) (.create hcreate))
      refine ⟨start, _, rfl, Prod.ext ?_ rfl, hcount, hfree, hfree.run 100 room⟩
      cases hresult : (start.add (.rom firmware)).1 with
      | error e =>
          rw [hresult] at hadd
          cases hadd
      | ok index =>
          rw [hresult] at hadd
          exact congrArg Except.ok (Option.some.inj hadd)

end Machine
end Rv32
