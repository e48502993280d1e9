/-
# `Rv32.Proofs.Hart.ZeroRegister` — no instruction writes register 0

Register 0 is stored like the others, and reads as zero only because nothing ever writes it.
An instruction that writes an integer register passes over this one, which is part of its frame,
and a trap moves nothing but the program counter.  So a step leaves in register 0 what it found
there, whatever that is and wherever the instruction was.
-/
import Rv32.Proofs.Hart.Frame
import Rv32.Proofs.Hart.Outcome

namespace Rv32.Hart

open Attempt

variable (h : Hart) (mmu : Mmu)

/-- Fetching and executing an instruction. -/
theorem zero_attempt :
    Yields h.attempt mmu
      (fun r _ => r.1.registers.x Reg.zero = h.registers.x Reg.zero) fun _ _ => True :=
  Yields.bind ((h.fetch_raises mmu).mono (fun _ _ _ => trivial) fun _ _ _ => trivial)
    fun (i, bits, length) mmu' _ =>
      (h.effect_ends mmu' i bits length).mono (fun _ _ e => e.framed.registers.zero)
        fun _ _ _ => trivial

theorem zero_step : (h.step mmu).2.1.registers.x Reg.zero = h.registers.x Reg.zero := by
  have hkeeps := h.count.zero_attempt mmu
  rw [step_eq]
  split
  · rename_i run
    exact hkeeps.ok run
  · rename_i run
    exact hkeeps.ok run
  · rfl

theorem zero_checkInterrupts :
    (h.checkInterrupts mmu).2.1.registers.x Reg.zero = h.registers.x Reg.zero := by
  unfold checkInterrupts
  split <;> rfl

end Rv32.Hart
