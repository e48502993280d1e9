/-
# `Rv32.Proofs.Hart.Outcome` — everything an instruction can do to a hart

Seen from the control registers and the mode, there are few things an instruction
can do.  Nearly all instructions leave both alone; one writes a control register
that it may write, after the remembered translations were dropped if the write
makes them wrong; one returns from a trap it may return from.  And a trap that is
raised is an exception of the instruction at the program counter.

`attempt_outcome` says so for fetching and executing any instruction.  What is
proved about steps afterwards is proved by cases on `Outcome`, and does not look at
instructions again.
-/
import Rv32.Proofs.Hart.Executed

namespace Rv32

namespace Hart

open Attempt

/-- A hart after an instruction that did not trap, and what the memory management
unit then has to have forgotten. -/
inductive Outcome (h : Hart) (mmu : Mmu) : Hart → Prop
  | computed (registers : RegisterFile) : Outcome h mmu { h with registers }
  | wrote (c : Csr) (value : Word) (registers : RegisterFile) : h.mayUse c true = true →
      (h.writeFlushes c value = true → mmu.cache.Forgets h.config.id) →
      Outcome h mmu { h.writeCsr c value with registers }
  | returned (level : Privilege) : h.mayReturn level = true → Outcome h mmu (h.trapReturn level)

section
variable (h : Hart) (mmu : Mmu)

/-! ## Instructions -/

/-- Which register was written, and where the hart went on, is left out. -/
theorem Executed.outcome {h h' : Hart} {i : Instruction} {length : Instruction.Length} {mmu : Mmu}
    (e : Executed h i length h' mmu) : Outcome h mmu h' := by
  cases e with
  | int value _ _ => exact .computed _
  | float value _ _ => exact .computed _
  | skipped _ => exact .computed _
  | jumped _ _ _ _ => exact .computed _
  | branched _ _ _ => exact .computed _
  | wrote c value old _ _ may forgets => exact .wrote c value _ may forgets
  | returned level _ _ may => exact .returned level may

theorem effect_outcome (i : Instruction) (bits : Word) (length : Instruction.Length) :
    Yields (h.effect i bits length) mmu (fun r mmu' => Outcome h mmu' r.1)
      fun t _ => h.Raised t :=
  (h.effect_ends mmu i bits length).mono (fun _ _ executed => executed.outcome)
    fun _ _ refused => refused.raised

/-! ## Fetching -/

/-- A fault of an access becomes an exception, whatever the access is. -/
theorem accessing_raises {α : Type} (access : Access) (address : Word)
    (work : Attempt Fault Mmu α) :
    Yields (h.accessing access address work) mmu (fun _ _ => True) fun t _ => h.Raised t :=
  .adapt ((Yields.run work mmu).mono (fun _ _ _ => trivial) fun _ _ _ => h.raised _ _)

/-- Bits that are no instruction are an exception. -/
theorem decoded_raises (bits : Word) (decoding : Except DecodeError Instruction) :
    Yields (liftM (h.decoded bits decoding) : Attempt Trap Mmu Instruction) mmu
      (fun _ _ => True) fun t _ => h.Raised t := by
  apply Yields.lift
  · exact fun _ _ => trivial
  · intro t ht
    cases decoding with
    | ok i => cases ht
    | error e =>
        cases ht
        exact h.raised _ _

theorem fetch_raises : Yields h.fetch mmu (fun _ _ => True) fun t _ => h.Raised t := by
  simp only [fetch]
  refine Yields.bind (h.accessing_raises mmu _ _ _) fun low mmu' _ => ?_
  split
  · exact Yields.bind (p := fun _ _ => True) (.pure trivial) fun _ mmu'' _ =>
      Yields.bind (h.decoded_raises mmu'' _ _) fun _ _ _ => .pure trivial
  · exact Yields.bind (h.accessing_raises mmu' _ _ _) fun _ mmu'' _ =>
      Yields.bind (h.decoded_raises mmu'' _ _) fun _ _ _ => .pure trivial

/-- Fetching and executing an instruction. -/
theorem attempt_outcome :
    Yields h.attempt mmu (fun r mmu' => Outcome h mmu' r.1) fun t _ => h.Raised t :=
  Yields.bind (h.fetch_raises mmu) fun (i, bits, length) mmu' _ =>
    h.effect_outcome mmu' i bits length

end

/-! ## Steps -/

/-- A step traps where fetching or executing failed. -/
theorem attempt_of_trapped {h : Hart} {mmu : Mmu} {t : Trap}
    (trapped : (h.step mmu).1 = .trapped t) :
    (Execution.attempt (h.count, mmu)).1 = .error t ∧
      (h.step mmu).2.1 = (Execution.attempt (h.count, mmu)).2.1.deliver t := by
  unfold step at trapped ⊢
  split at trapped
  · cases trapped
  · cases trapped
  · rename_i t' h' mmu' run
    cases trapped
    rw [run]
    exact ⟨rfl, rfl⟩

/-- A step that traps delivers an exception of the instruction at the program counter, and
delivers it on the hart from before the instruction. -/
theorem step_trapped {h : Hart} {mmu : Mmu} {t : Trap} (trapped : (h.step mmu).1 = .trapped t) :
    h.count.Raised t ∧ (h.step mmu).2.1 = h.count.deliver t := by
  obtain ⟨failed, delivered⟩ := attempt_of_trapped trapped
  rw [delivered, attempt_unchanged failed]
  refine ⟨?_, rfl⟩
  have raises := attempt_outcome h.count mmu
  rw [Execution.attempt_eq] at failed
  rcases run : h.count.attempt mmu with ⟨t' | ⟨h', completion⟩, mmu'⟩
  · rw [run] at failed
    cases failed
    exact raises.error run
  · rw [run] at failed
    cases failed

/-- A step that does not trap ends as an instruction can. -/
theorem step_outcome {h : Hart} {mmu : Mmu} (quiet : ∀ t, (h.step mmu).1 ≠ .trapped t) :
    Outcome h.count (h.step mmu).2.2 (h.step mmu).2.1 := by
  have hout := attempt_outcome h.count mmu
  rw [step_eq] at quiet ⊢
  split at quiet
  · rename_i run
    exact hout.ok run
  · rename_i run
    exact hout.ok run
  · rename_i t mmu' run
    exact absurd rfl (quiet t)

end Hart
end Rv32
