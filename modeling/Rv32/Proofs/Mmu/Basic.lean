/-
# `Rv32.Proofs.Mmu.Basic` — what a translation does

The two steps of a translation, each as one equation: looking the page up, and walking
the page table if that fails.  And the faults it can end with: alignment is not looked at
here, so a misaligned address is no fault of a translation.
-/
import Rv32.Bytes
import Rv32.Mmu.Basic
import Rv32.Proofs.Attempt

namespace Rv32.Mmu

/-- The addresses of page 0. -/
def pageZero : Address.Range := ⟨0, 0xFFF, by decide⟩

/-- A memory that holds a program, from address 0 on, and nothing else. -/
def ofProgram (program : List Byte) : Mmu :=
  ofMemory
    { devices := #[.rom ⟨0, Bytes.pack program⟩]
      map := ⟨#[(pageZero, 0)]⟩
      reservations := .none
      clint := Clint.init 1
      lengths := .none
      journal := Journal.empty 0 }

/-- One page of main memory, with nothing behind it. -/
def onePage : Mmu :=
  ofMemory
    { devices := #[.ram ⟨0x80000000, 0x1000, .zero, 0⟩]
      map := ⟨#[(⟨0x80000000, 0x80000FFF, by decide⟩, 0)]⟩
      reservations := .none
      clint := Clint.init 1
      lengths := ⟨#[0x1000]⟩
      journal := Journal.empty 0 }

/-- Work on physical addresses does not see the cache. -/
theorem physically_run {α : Type} (work : Memory → Except Unmapped α × Memory) (mmu : Mmu) :
    physically work mmu =
      ((work mmu.memory).1.mapError fun _ => .access, ⟨(work mmu.memory).2, mmu.cache⟩) := rfl

theorem walk_run (c : AccessContext) (address : Word) (access : Access) (mmu : Mmu) :
    walk c address access mmu =
      match Paging.walk c address access mmu.memory with
      | (.ok physical, m) =>
        (.ok physical, ⟨m.record (.translated address physical access c.privilege),
          mmu.cache.insert c address physical access⟩)
      | (.error fault, m) => (.error fault, ⟨m, mmu.cache⟩) := by
  have honMemory : (onMemory (Paging.walk c address access) : Attempt Fault Mmu Word) mmu =
      ((Paging.walk c address access mmu.memory).1,
        ⟨(Paging.walk c address access mmu.memory).2, mmu.cache⟩) := rfl
  unfold walk
  rw [Attempt.bind_run, honMemory]
  rcases Paging.walk c address access mmu.memory with ⟨fault | physical, m⟩ <;> rfl

theorem translate_run (c : AccessContext) (address : Word) (access : Access) (mmu : Mmu) :
    translate c address access mmu =
      if c.paging = true then
        match mmu.cache.find? c address access with
        | some physical => (.ok physical, mmu)
        | none => walk c address access mmu
      else (.ok address, mmu) := by
  unfold translate
  split
  · show (match mmu.cache.find? c address access with
      | some physical => pure physical
      | none => walk c address access : Attempt Fault Mmu Word) mmu = _
    cases mmu.cache.find? c address access <;> rfl
  · rfl

/-! ## Its faults -/

open Attempt

theorem physically_fault {α : Type} (work : Memory → Except Unmapped α × Memory) (mmu : Mmu) :
    Yields (physically work) mmu (fun _ _ => True) fun fault _ => fault = .access := by
  unfold Yields
  rw [physically_run]
  rcases work mmu.memory with ⟨_ | _, m⟩
  · rfl
  · trivial

theorem readEntry_fault (address : Word) (m : Memory) :
    Yields (Paging.readEntry address) m (fun _ _ => True) fun fault _ => fault ≠ .misaligned := by
  unfold Yields Paging.readEntry
  rcases m.read .word address with ⟨_ | _, m'⟩
  · exact fun e => nomatch e
  · trivial

theorem pagingWalk_fault (c : AccessContext) (address : Word) (access : Access) (m : Memory) :
    Yields (Paging.walk c address access) m (fun _ _ => True)
      fun fault _ => fault ≠ .misaligned := by
  refine Yields.bind (readEntry_fault _ m) fun first m' _ => ?_
  split
  case isTrue => exact .throw fun e => nomatch e
  case isFalse =>
    split
    case isTrue =>
      split
      · exact .throw fun e => nomatch e
      · exact .pure trivial
    case isFalse =>
      refine Yields.bind (readEntry_fault _ m') fun second m'' _ => ?_
      split
      · exact .throw fun e => nomatch e
      · exact .pure trivial

theorem translate_fault (c : AccessContext) (address : Word) (access : Access) (mmu : Mmu) :
    Yields (translate c address access) mmu (fun _ _ => True)
      fun fault _ => fault ≠ .misaligned := by
  have hwalk := pagingWalk_fault c address access mmu.memory
  unfold Yields at hwalk ⊢
  rw [translate_run]
  by_cases hp : c.paging = true
  · rw [if_pos hp]
    cases mmu.cache.find? c address access with
    | some physical => trivial
    | none =>
        simp only [walk_run]
        rcases hw : Paging.walk c address access mmu.memory with ⟨fault | physical, m⟩
        · rw [hw] at hwalk
          exact hwalk
        · trivial
  · rw [if_neg hp]
    trivial

end Rv32.Mmu
