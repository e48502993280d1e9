/-
# `Rv32.Proofs.Machine.Translation` — harts that share a cache of translations

Harts share one memory management unit, and the pages it remembers.  A remembered page
may be out of date, but it is never wrong in any other way: it was found by a walk of
the hart it is used for, with the page table root and the permissions this hart has
now, in a memory that this hart has worked with since it last dropped its pages.  If
the page table words that the walk met have not changed, a translation gives what a
walk would give.

The moments at which a hart began to translate are kept beside the machine
(`Watched`); they are not part of its state and have no influence on it
(`Watched.run_machine`).  In between, the host may change memory as it likes.
-/
import Mathlib.Logic.Function.Basic
import Rv32.Machine.Basic
import Rv32.Proofs.Hart.Translation

namespace Rv32

/-! ## Machines at work -/

/-- What happens to a machine: a hart takes a step or is given a chance to be
interrupted, or the host changes physical memory. -/
inductive MachineAction where
  | step (hart : Nat)
  | interrupt (hart : Nat)
  | host (change : Memory → Memory)

/-- The place of the hart that acts. -/
def MachineAction.actor? : MachineAction → Option Nat
  | .step i | .interrupt i => some i
  | .host _ => none

/-- The machine after an action.  Nothing happens if there is no such hart. -/
def Machine.act (m : Machine) : MachineAction → Machine
  | .step i =>
    match m.hart? i with
    | some h => { m.setHart i (h.step m.mmu).2.1 with mmu := (h.step m.mmu).2.2 }
    | none => m
  | .interrupt i =>
    match m.hart? i with
    | some h =>
      { m.setHart i (h.checkInterrupts m.mmu).2.1 with mmu := (h.checkInterrupts m.mmu).2.2 }
    | none => m
  | .host change => m.setMemory (change m.memory)

/-- A machine, and for each hart, by its number, the memories in which it began to
translate since it last dropped what is remembered for it. -/
structure Watched where
  machine : Machine
  past : Nat → List Memory

namespace Watched

/-- A machine that has not done anything yet. -/
def start (m : Machine) : Watched := ⟨m, fun _ => []⟩

/-- Only a step of a hart adds to its past. -/
def pastAfter (w : Watched) : MachineAction → Nat → List Memory
  | .step i =>
    match w.machine.hart? i with
    | some h =>
      Function.update w.past h.config.id
        (h.momentsOfStep w.machine.mmu (w.past h.config.id))
    | none => w.past
  | .interrupt _ | .host _ => w.past

def act (w : Watched) (a : MachineAction) : Watched := ⟨w.machine.act a, w.pastAfter a⟩

def run (w : Watched) (actions : List MachineAction) : Watched := actions.foldl act w

/-- Watching a machine does not change what it does. -/
theorem run_machine (w : Watched) (actions : List MachineAction) :
    (w.run actions).machine = actions.foldl Machine.act w.machine := by
  induction actions generalizing w with
  | nil => rfl
  | cons a rest ih => exact ih (w.act a)

/-! ## What is preserved -/

/-- What holds of a machine whose harts are told apart by their numbers: what is
remembered for a hart was found in its past. -/
structure Sound (w : Watched) : Prop where
  ids : (w.machine.harts.map (·.config.id)).Nodup
  distinct : w.machine.mmu.cache.Distinct
  remembers : ∀ i h, w.machine.hart? i = some h →
    w.machine.mmu.cache.Remembers h (w.past h.config.id)

variable {w : Watched}

/-- Harts at different places have different numbers. -/
theorem Sound.id_ne (s : Sound w) {i j : Nat} {g h : Hart} (hij : i ≠ j)
    (hg : w.machine.hart? i = some g) (hh : w.machine.hart? j = some h) :
    g.config.id ≠ h.config.id := by
  intro heq
  have hi : i < w.machine.harts.length := (List.getElem?_eq_some_iff.mp hg).1
  have hmap : (w.machine.harts.map (·.config.id))[i]? =
      (w.machine.harts.map (·.config.id))[j]? := by
    rw [List.getElem?_map, List.getElem?_map]
    unfold Machine.hart? at hg hh
    rw [hg, hh, Option.map_some, Option.map_some, heq]
  exact hij ((List.getElem?_inj (by simpa using hi) s.ids).mp hmap)

/-- An action that replaces a hart by one that is configured alike, and leaves alone
what is remembered for the others, keeps the machine sound if what is remembered for
the hart itself is in its past. -/
theorem Sound.replace (s : Sound w) {i : Nat} {h h' : Hart} {mmu' : Mmu}
    (hh : w.machine.hart? i = some h) (config : h'.config = h.config)
    (distinct : mmu'.cache.Distinct)
    (others : ∀ id, h.config.id ≠ id → mmu'.cache.of id = w.machine.mmu.cache.of id)
    {past : List Memory} (own : mmu'.cache.Remembers h' past) :
    Sound ⟨{ w.machine.setHart i h' with mmu := mmu' },
      Function.update w.past h.config.id past⟩ := by
  have hi : i < w.machine.harts.length := (List.getElem?_eq_some_iff.mp hh).1
  have hids : (w.machine.harts.set i h').map (·.config.id) =
      w.machine.harts.map (·.config.id) := by
    rw [List.map_set, config]
    refine List.ext_getElem? fun j => ?_
    by_cases hj : i = j
    · subst hj
      rw [List.getElem?_set_self (by simpa using hi), List.getElem?_map]
      exact (congrArg (Option.map (·.config.id)) hh).symm
    · rw [List.getElem?_set_ne hj]
  refine ⟨?_, distinct, fun j g hg => ?_⟩
  · show ((w.machine.harts.set i h').map (·.config.id)).Nodup
    rw [hids]
    exact s.ids
  · by_cases hj : i = j
    · subst hj
      have hg' : h' = g := by
        have hself := List.getElem?_set_self (a := h') hi
        exact Option.some.inj (hself.symm.trans hg)
      subst hg'
      show mmu'.cache.Remembers h' (Function.update w.past h.config.id past h'.config.id)
      rw [config, Function.update_self]
      exact own
    · have hg' : w.machine.hart? j = some g := (List.getElem?_set_ne hj).symm.trans hg
      have hne := s.id_ne hj hh hg'
      show mmu'.cache.Remembers g (Function.update w.past h.config.id past g.config.id)
      rw [Function.update_of_ne hne.symm]
      intro e he
      rw [others _ hne] at he
      exact s.remembers j g hg' e he

/-- What one action preserves. -/
theorem Sound.act (s : Sound w) (a : MachineAction) : Sound (w.act a) := by
  cases a with
  | step i =>
      cases hh : w.machine.hart? i with
      | none =>
          simp only [Watched.act, Machine.act, pastAfter, hh]
          exact s
      | some h =>
          simp only [Watched.act, Machine.act, pastAfter, hh]
          refine s.replace hh (h.step_config _) ?_ ?_ (h.step_remembers _ (s.remembers i h hh))
          · rw [Hart.step_cache]
            exact (Parts.attempt (h := h.count)).distinct s.distinct
          · intro id hne
            rw [Hart.step_cache]
            exact Parts.cache_of_ne (h := h.count) hne Parts.attempt w.machine.mmu
  | interrupt i =>
      cases hh : w.machine.hart? i with
      | none =>
          simp only [Watched.act, Machine.act, pastAfter, hh]
          exact s
      | some h =>
          have hcache := h.checkInterrupts_cache w.machine.mmu
          have hown := (s.remembers i h hh).congr
            (congrArg HartConfig.id (h.checkInterrupts_config w.machine.mmu))
            (h.checkInterrupts_context w.machine.mmu)
          rw [← hcache] at hown
          have hr := s.replace hh (h.checkInterrupts_config _) (hcache ▸ s.distinct)
            (fun id _ => by rw [hcache]) hown
          rw [Function.update_eq_self] at hr
          simp only [Watched.act, Machine.act, pastAfter, hh]
          exact hr
  | host change => exact ⟨s.ids, s.distinct, s.remembers⟩

/-- What a whole run preserves. -/
theorem Sound.run (s : Sound w) (actions : List MachineAction) : Sound (w.run actions) := by
  induction actions generalizing w with
  | nil => exact s
  | cons a rest ih => exact ih (s.act a)

end Watched

/-! ## What can be relied on -/

/-- What can be relied on of a page remembered for a hart: it was found in the past of
the hart, and is what a walk finds now wherever the words are still those of then. -/
structure CacheEntry.Justified (e : CacheEntry) (h : Hart) (mmu : Mmu) (past : List Memory) :
    Prop where
  /-- Machine mode does not translate. -/
  lower : e.privilege ≠ .machine
  found : ∃ m ∈ past, e.FoundIn h m ∧
    ∀ address, Paging.pageOf address = e.page →
      Paging.trail (h.context e.privilege) address mmu.memory =
        Paging.trail (h.context e.privilege) address m →
      (Mmu.translate (h.context e.privilege) address e.access mmu).1 =
        (Paging.walk (h.context e.privilege) address e.access mmu.memory).1

/-- What can be relied on of the cache that harts share. -/
structure Watched.CacheSound (w : Watched) : Prop where
  justified : ∀ h ∈ w.machine.harts, ∀ e ∈ w.machine.mmu.cache.of h.config.id,
    e.Justified h w.machine.mmu (w.past h.config.id)
  /-- What a hart looks up is a page remembered for itself. -/
  own : ∀ h ∈ w.machine.harts, ∀ privilege address access physical,
    w.machine.mmu.cache.find? (h.context privilege) address access = some physical →
    ∃ e ∈ w.machine.mmu.cache.of h.config.id, e.privilege = privilege ∧ e.access = access ∧
      e.page = Paging.pageOf address ∧
      physical = Paging.join e.frame (Paging.offsetOf address)
  /-- What is remembered for a hart is changed by this hart only. -/
  apart : ∀ a i h, w.machine.hart? i = some h → a.actor? ≠ some i →
    (w.machine.act a).mmu.cache.of h.config.id = w.machine.mmu.cache.of h.config.id

namespace Watched

variable {w : Watched}

theorem Sound.justified (s : Sound w) {i : Nat} {h : Hart} (hh : w.machine.hart? i = some h)
    {e : CacheEntry} (he : e ∈ w.machine.mmu.cache.of h.config.id) :
    e.Justified h w.machine.mmu (w.past h.config.id) := by
  obtain ⟨hpaging, m, hm, hfound⟩ := s.remembers i h hh e he
  refine ⟨?_, m, hm, hfound, fun address hpage same => ?_⟩
  · intro hmachine
    rw [hmachine] at hpaging
    cases hpaging
  · obtain ⟨hin, hhart⟩ := TranslationCache.mem_of.mp he
    have hfor : e.isFor (h.context e.privilege) e.access = true :=
      CacheEntry.isFor_iff.mpr ⟨hhart, rfl, rfl⟩
    rw [Mmu.translate_run, if_pos hpaging,
      TranslationCache.find?_of_mem s.distinct hin hfor hpage.symm, Paging.walk_congr same,
      hfound address hpage]

theorem Sound.apart (s : Sound w) {a : MachineAction} {i : Nat} {h : Hart}
    (hh : w.machine.hart? i = some h) (idle : a.actor? ≠ some i) :
    (w.machine.act a).mmu.cache.of h.config.id = w.machine.mmu.cache.of h.config.id := by
  cases a with
  | step j =>
      cases hg : w.machine.hart? j with
      | none => simp only [Machine.act, hg]
      | some g =>
          have hne := s.id_ne (fun hji : j = i => idle (congrArg some hji)) hg hh
          simp only [Machine.act, hg, Hart.step_cache]
          exact Parts.cache_of_ne (h := g.count) hne Parts.attempt w.machine.mmu
  | interrupt j =>
      cases hg : w.machine.hart? j with
      | none => simp only [Machine.act, hg]
      | some g => simp only [Machine.act, hg, Hart.checkInterrupts_cache]
  | host change => rfl

/-- Whatever harts that are told apart by their numbers do, in whatever order, and
whatever the host does to memory in between: starting with nothing remembered, the cache
is sound. -/
theorem run_cacheSound (m : Machine) (ids : (m.harts.map (·.config.id)).Nodup)
    (fresh : m.mmu.cache = .empty) (actions : List MachineAction) :
    CacheSound ((start m).run actions) := by
  have hstart : Sound (start m) := by
    refine ⟨ids, ?_, fun i h _ e he => ?_⟩
    · show m.mmu.cache.Distinct
      rw [fresh]
      exact TranslationCache.distinct_empty
    · rw [show (start m).machine.mmu.cache = _ from fresh] at he
      cases he
  have s := hstart.run actions
  refine ⟨fun h hmem e he => ?_, fun h _ privilege address access physical hfind => ?_,
    fun a i h hh idle => s.apart hh idle⟩
  · obtain ⟨i, hh⟩ := List.mem_iff_getElem?.mp hmem
    exact s.justified hh he
  · exact TranslationCache.find?_own hfind

/-- Two harts in user mode that fetch the same instruction, through a page table whose
first entry maps the memory to itself. -/
theorem run_cacheSound_of_two :
    let hart (id : Nat) : Hart :=
      { Hart.init ⟨id, 4, false, true⟩ with
        csrs := CsrFile.init.set Csr.satp 0x80000000, privilege := .user }
    let m : Machine :=
      ⟨⟨2, 1, 4, false⟩, [hart 0, hart 1],
        Mmu.ofProgram [0x1B, 0x00, 0x00, 0x00, 0x13, 0x00, 0x00, 0x00], 0⟩
    let w := (start m).run [.step 0, .interrupt 1, .host fun memory => memory, .step 1]
    (w.machine.mmu.cache.of 0).length = 1 ∧ (w.machine.mmu.cache.of 1).length = 1 ∧
      CacheSound w := by
  intro hart m w
  refine ⟨by decide +kernel, by decide +kernel, run_cacheSound m ?_ rfl _⟩
  decide +kernel

end Watched
end Rv32
