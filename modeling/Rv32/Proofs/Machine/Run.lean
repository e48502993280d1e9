/-
# `Rv32.Proofs.Machine.Run` — a run is a loop of rounds

A run is defined by how many rounds it has: full ones, and one for what is left over.  It
is also a loop that takes a round of as many instructions as are left, but no more than a
turn has (`Machine.run_loop`), and this is how facts about rounds become facts about runs.

Rounds change neither the configuration of the machine nor that of a hart, and cycles that
were counted stay counted.
-/
import Rv32.Machine.Basic
import Rv32.Proofs.Hart.Translation

namespace Rv32

/-! ## Turns -/

namespace Hart

/-- What is kept by the steps of a hart is kept as long as it takes steps. -/
theorem run_induct {P : Hart → Mmu → Prop}
    (step : ∀ h mmu, P h mmu → P (h.step mmu).2.1 (h.step mmu).2.2)
    (n taken : Nat) {h : Hart} {mmu : Mmu} (start : P h mmu) :
    P (h.run n taken mmu).2.1 (h.run n taken mmu).2.2 := by
  induction n generalizing taken h mmu with
  | zero => exact start
  | succ n ih =>
      have hstep := step h mmu start
      rw [run]
      rcases hresult : h.step mmu with ⟨_ | _ | t, h', mmu'⟩
      all_goals rw [hresult] at hstep
      · exact ih _ hstep
      · exact hstep
      · exact ih _ hstep

theorem run_config (n taken : Nat) (h : Hart) (mmu : Mmu) :
    (h.run n taken mmu).2.1.config = h.config :=
  run_induct (P := fun h' _ => h'.config = h.config)
    (fun h' mmu' same => (h'.step_config mmu').trans same) n taken rfl

theorem turn_config (h : Hart) (slice : Nat) (mmu : Mmu) :
    (h.turn slice mmu).2.1.config = h.config :=
  (run_config slice 0 _ _).trans (h.checkInterrupts_config mmu)

end Hart

namespace Machine

theorem turns_configs (slice : Nat) (hs : List Hart) (mmu : Mmu) :
    (turns slice hs mmu).2.1.map (·.config) = hs.map (·.config) := by
  induction hs generalizing mmu with
  | nil => rfl
  | cons h rest ih =>
      have hconfig := h.turn_config slice mmu
      rw [turns]
      rcases hturn : h.turn slice mmu with ⟨_ | taken, h', mmu'⟩
      all_goals rw [hturn] at hconfig
      · exact congrArg₂ List.cons hconfig (ih mmu')
      · exact congrArg (List.cons · _) hconfig

/-! ## Rounds -/

variable (m : Machine)

theorem round_config (slice : Nat) : (m.round slice).2.config = m.config := by
  rw [round]
  rcases turns slice m.harts m.mmu with ⟨_ | ⟨hart, taken⟩, harts, mmu⟩ <;> rfl

theorem round_configs (slice : Nat) :
    (m.round slice).2.harts.map (·.config) = m.harts.map (·.config) := by
  have hturns := turns_configs slice m.harts m.mmu
  rw [round]
  rcases hresult : turns slice m.harts m.mmu with ⟨_ | ⟨hart, taken⟩, harts, mmu⟩
  all_goals rw [hresult] at hturns; exact hturns

theorem executed_le_round (slice : Nat) : m.executed ≤ (m.round slice).2.executed := by
  rw [round]
  rcases turns slice m.harts m.mmu with ⟨_ | ⟨hart, taken⟩, harts, mmu⟩
  · exact Nat.le_add_right _ _
  · exact Nat.le_add_right _ _

/-! ## Runs -/

/-- The number of instructions of a turn that is not cut short. -/
def turnLength : Nat := max m.config.slice 1

/-- What goes on after a round that was not stopped. -/
def andThen (next : Machine → RunResult × Machine) : RunResult × Machine → RunResult × Machine
  | (.stopped hart, m) => (.stopped hart, m)
  | (.completed, m) => next m

theorem turnLength_pos : 0 < m.turnLength :=
  Nat.lt_of_lt_of_le Nat.zero_lt_one (Nat.le_max_right _ _)

theorem rounds_succ (n : Nat) :
    rounds (n + 1) m = andThen (rounds n) (m.round m.turnLength) := by
  rw [rounds, ← turnLength]
  rcases m.round m.turnLength with ⟨_ | hart, m'⟩ <;> rfl

/-- What is left over after the full rounds of a run. -/
def remainder (cycles : Nat) (m' : Machine) : RunResult × Machine :=
  if cycles % m.turnLength = 0 then (.completed, m') else m'.round (cycles % m.turnLength)

theorem run_eq (cycles : Nat) :
    m.run cycles = andThen (m.remainder cycles) (rounds (cycles / m.turnLength) m) := by
  rw [run]
  simp only [← turnLength.eq_def]
  rcases rounds (cycles / m.turnLength) m with ⟨_ | hart, m'⟩ <;> rfl

theorem run_zero : m.run 0 = (.completed, m) := by
  rw [run_eq, Nat.zero_div, rounds, andThen, remainder, Nat.zero_mod, if_pos rfl]

theorem run_short {cycles : Nat} (pos : 0 < cycles) (short : cycles < m.turnLength) :
    m.run cycles = m.round cycles := by
  rw [run_eq, Nat.div_eq_of_lt short, rounds, andThen, remainder, Nat.mod_eq_of_lt short,
    if_neg (Nat.ne_of_gt pos)]

theorem run_long {cycles : Nat} (long : m.turnLength ≤ cycles) :
    m.run cycles = andThen (·.run (cycles - m.turnLength)) (m.round m.turnLength) := by
  have hconfig := m.round_config m.turnLength
  rw [run_eq, Nat.div_eq_sub_div m.turnLength_pos long, rounds_succ]
  rcases hround : m.round m.turnLength with ⟨_ | hart, m'⟩
  · rw [hround] at hconfig
    have hturn : m'.turnLength = m.turnLength := congrArg (max ·.slice 1) hconfig
    have hrest : m'.remainder (cycles - m.turnLength) = m.remainder cycles := by
      funext m''
      rw [remainder, remainder, hturn, ← Nat.mod_eq_sub_mod long]
    rw [andThen, andThen, run_eq, hturn, hrest]
  · rfl

/-- A run takes a round, and goes on with what is left. -/
theorem run_loop {cycles : Nat} (pos : 0 < cycles) :
    m.run cycles = andThen (·.run (cycles - min cycles m.turnLength))
      (m.round (min cycles m.turnLength)) := by
  rcases Nat.lt_or_ge cycles m.turnLength with short | long
  · rw [Nat.min_eq_left (Nat.le_of_lt short), Nat.sub_self, m.run_short pos short]
    rcases m.round cycles with ⟨_ | hart, m'⟩
    · exact (run_zero m').symm
    · rfl
  · rw [Nat.min_eq_right long, m.run_long long]

/-- Induction along the rounds of a run. -/
theorem rounds_induction {motive : Machine → Nat → Prop} (zero : ∀ m, motive m 0)
    (round : ∀ m cycles, 0 < cycles →
      (∀ m', m.round (min cycles m.turnLength) = (.completed, m') →
        motive m' (cycles - min cycles m.turnLength)) → motive m cycles)
    (m : Machine) (cycles : Nat) : motive m cycles := by
  induction cycles using Nat.strongRecOn generalizing m with
  | ind cycles ih =>
      rcases Nat.eq_zero_or_pos cycles with rfl | pos
      · exact zero m
      · have hturn := m.turnLength_pos
        exact round m cycles pos fun m' _ => ih _ (by omega) m'

/-- What is kept by rounds is kept by runs. -/
theorem run_induct {P : Machine → Prop} (step : ∀ m slice, P m → P (m.round slice).2)
    (cycles : Nat) {m : Machine} (start : P m) : P (m.run cycles).2 := by
  induction m, cycles using rounds_induction with
  | zero m =>
      rw [run_zero]
      exact start
  | round m cycles pos ih =>
      have hround := step m (min cycles m.turnLength) start
      rw [m.run_loop pos]
      rcases hresult : m.round (min cycles m.turnLength) with ⟨_ | hart, m'⟩
      all_goals rw [hresult] at hround
      · exact ih m' hresult hround
      · exact hround

theorem executed_le_run (cycles : Nat) : m.executed ≤ (m.run cycles).2.executed :=
  run_induct (P := fun m' => m.executed ≤ m'.executed)
    (fun m' slice h => Nat.le_trans h (m'.executed_le_round slice)) cycles (Nat.le_refl _)

end Machine
end Rv32
