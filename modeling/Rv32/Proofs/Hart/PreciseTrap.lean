/-
# `Rv32.Proofs.Hart.PreciseTrap` — a step that traps has done nothing else

When a step traps, the instruction has had no effect on the hart: the registers are
those from before, one instruction is counted, and of the control registers only
those changed in which the trap is described to its handler.  The handler runs in the
mode the exception is delegated to, but never in a lower mode than the one the
exception was raised in.

What an instruction has done to the hart before it trapped is nothing: each of them raises
what it raises before it changes anything (`attempt_unchanged`).  So the trap is delivered on
the hart from before, and what remains is the delivery.
-/
import Rv32.Proofs.Hart.Outcome
import Rv32.Proofs.Hart.Trap

namespace Rv32

/-! ## Who handles an exception -/

/-- The mode an exception is delegated to: the supervisor if machine mode says so, and
from there the user if the supervisor says so too. -/
def CsrFile.delegatedLevel (f : CsrFile) (e : Exception) : Privilege :=
  if (f.get Csr.medeleg).getLsbD e.code = false then .machine
  else if (f.get Csr.sedeleg).getLsbD e.code = false then .supervisor
  else .user

namespace Hart

theorem delegatedTo_exception (h : Hart) (e : Exception) :
    h.delegatedTo (.exception e) = h.csrs.delegatedLevel e := by
  have hm : delegation .machine (.exception e) = Csr.medeleg := rfl
  have hs : delegation .supervisor (.exception e) = Csr.sedeleg := rfl
  simp only [delegatedTo, delegates, hm, hs, CsrFile.delegatedLevel, Cause.code,
    Bool.not_eq_true']

/-! ## The delivery of an exception -/

/-- `after` is `before` at the handler of `t`, an exception `e` of the instruction that
was to be executed. -/
structure Trapped (before after : Hart) (t : Trap) (e : Exception) : Prop where
  cause : t.cause = .exception e
  epc : t.epc = before.registers.pc
  config : after.config = before.config
  ints : after.registers.ints = before.registers.ints
  floats : after.registers.floats = before.registers.floats
  cycles : after.cycles = before.cycles + 1
  privilege : after.privilege = max before.privilege (before.csrs.delegatedLevel e)
  rises : before.privilege ≤ after.privilege
  savedEpc : after.csrs.get (Csr.mepc.atLevel after.privilege) = t.epc
  savedCause : after.csrs.get (Csr.mcause.atLevel after.privilege) = BitVec.ofNat 32 e.code
  savedTval : after.csrs.get (Csr.mtval.atLevel after.privilege) = t.tval
  /-- Interrupts are disabled in the handler's mode. -/
  ie : after.csrs.status.ie after.privilege = false
  pie : after.csrs.status.pie after.privilege = before.csrs.status.ie after.privilege
  /-- User mode has no field for this; only user mode traps into it. -/
  pp : after.csrs.status.pp after.privilege = before.privilege
  /-- Of the status register, only those fields of the handler's mode change. -/
  status : ∀ i, i ∉ Status.entryPositions after.privilege →
    after.csrs.status.bit i = before.csrs.status.bit i
  words : ∀ c, c ∉ trapRegisters after.privilege → after.csrs.get c = before.csrs.get c
  pc : after.registers.pc =
    (TrapVector.mk (before.csrs.get (Csr.mtvec.atLevel after.privilege))).base

theorem deliver_trapped (h : Hart) (e : Exception) (tval : Word) :
    Trapped h (h.count.deliver (h.count.raise e tval)) (h.count.raise e tval) e := by
  have level : h.count.handler (.exception e) = max h.privilege (h.csrs.delegatedLevel e) := by
    show max (h.count.delegatedTo (.exception e)) h.privilege = _
    rw [delegatedTo_exception, Privilege.max_comm]
    rfl
  have handled : InHandler h.count (h.count.deliver (h.count.raise e tval)) _ _ :=
    deliver_inHandler (Privilege.le_max_right (h.count.delegatedTo (.exception e)) h.privilege)
  exact
    { cause := rfl
      epc := rfl
      config := handled.config
      ints := handled.ints
      floats := handled.floats
      cycles := rfl
      privilege := level
      rises := handled.rises
      savedEpc := handled.savedEpc
      savedCause := handled.savedCause.trans BitVec.or_zero
      savedTval := handled.savedTval
      ie := handled.ie
      pie := handled.pie
      pp := handled.pp
      status := handled.status
      words := handled.words
      pc := handled.pc }

/-! ## Steps -/

/-- Traps are precise: whatever the hart executes and whatever goes wrong, what fails leaves
the hart behind as it was when the step was counted, and a step that reports a trap has only
delivered an exception on it. -/
theorem step_precise (h : Hart) (mmu : Mmu) (t : Trap) (trapped : (h.step mmu).1 = .trapped t) :
    (Execution.attempt (h.count, mmu)).2.1 = h.count ∧ ∃ e, Trapped h (h.step mmu).2.1 t e := by
  obtain ⟨⟨e, tval, rfl⟩, hdeliver⟩ := step_trapped trapped
  rw [hdeliver]
  exact ⟨attempt_unchanged (attempt_of_trapped trapped).1, e, deliver_trapped h e tval⟩

/-- A hart that starts where there is no memory traps at its first step. -/
theorem step_precise_without_memory :
    ∃ e, Trapped (Hart.init ⟨0, 0x1000, false, true⟩)
      ((Hart.init ⟨0, 0x1000, false, true⟩).step
        (Mmu.ofMemory (Memory.empty (Clint.init 1) (Journal.empty 0)))).2.1
      (Trap.ofException .instructionAccessFault 0x1000 0x1000) e :=
  (step_precise _ _ _ rfl).2

end Hart
end Rv32
