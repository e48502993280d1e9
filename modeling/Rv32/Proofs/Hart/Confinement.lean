/-
# `Rv32.Proofs.Hart.Confinement` — lower modes gain nothing without a trap

Below machine mode, a step that does not trap stays in its mode or goes to a lower
one, and leaves the control registers of higher modes alone, except for the bits that
are lent to it: its views of the status register and of the interrupts.

This is not a property of single states.  Returning from a trap clears MPRV, and a
write of the user's view of the status register recomputes SD; neither bit is lent to
the mode that does so.  It is the reachable states in which both are as they should be
already: MPRV is set in machine mode only, and SD says that FS is 3 (`Sound`).
-/
import Rv32.Proofs.Hart.Outcome
import Rv32.Proofs.Hart.Trap
import Rv32.Proofs.Mmu.Basic

namespace Rv32.Hart

/-! ## Reachable states -/

/-- The states of a hart from its reset on, in front of any memory and with anything
happening to memory in between. -/
inductive Reachable : Hart → Prop
  | start (config : HartConfig) : Reachable (Hart.init config)
  | step {h : Hart} (mmu : Mmu) : Reachable h → Reachable (h.step mmu).2.1
  | interrupt {h : Hart} (mmu : Mmu) : Reachable h → Reachable (h.checkInterrupts mmu).2.1

/-- The status register is as code of lower modes has to find it. -/
structure Sound (h : Hart) : Prop where
  settled : h.csrs.status.Settled
  /-- Only machine mode borrows a mode. -/
  mprv : h.csrs.status.mprv = true → h.privilege = .machine

/-- What a mode reads MPRV as below machine mode. -/
theorem Sound.mprv_eq_false {h : Hart} (s : Sound h) (low : h.privilege ≠ .machine) :
    h.csrs.status.mprv = false := by
  rw [← Bool.not_eq_true]
  exact fun borrowed => low (s.mprv borrowed)

theorem sound_init (config : HartConfig) : Sound (Hart.init config) where
  settled := by
    show (Status.mk (CsrFile.init.get Csr.mstatus)).Settled
    rw [CsrFile.get_init]
    rfl
  mprv := fun _ => rfl

/-- A write by a mode below machine mode does not reach MPRV. -/
theorem mprv_writeCsr {h : Hart} (s : Sound h) (low : h.privilege ≠ .machine) {c : Csr}
    {value : Word} (may : c.requiredPrivilege.exceeds h.privilege = false) :
    (h.writeCsr c value).csrs.status.mprv = h.csrs.status.mprv := by
  have high : Csr.mstatus.requiredPrivilege.exceeds h.privilege = true := by
    revert low
    cases h.privilege <;> decide
  have out : (Csr.mstatus.lent h.privilege).getLsbD Status.mprvPosition = false := by
    revert low
    cases h.privilege <;> decide
  exact (writeCsr_csrs h c value).getLsbD_of_exceeds s.settled may high out

theorem mayUse_exceeds {h : Hart} {c : Csr} {writing : Bool} (may : h.mayUse c writing = true) :
    c.requiredPrivilege.exceeds h.privilege = false := by
  simp only [mayUse, Bool.and_eq_true, Bool.not_eq_true'] at may
  exact may.1.1

theorem mayReturn_le {h : Hart} {level : Privilege} (may : h.mayReturn level = true) :
    level ≤ h.privilege := by
  simp only [mayReturn, Bool.and_eq_true, Bool.not_eq_true', decide_eq_false_iff_not] at may
  exact Privilege.not_lt.mp may.1

/-! ## Reachable states are sound -/

theorem Sound.outcome {h h' : Hart} {mmu : Mmu} (s : Sound h) (o : Outcome h mmu h') :
    Sound h' := by
  cases o with
  | computed registers => exact ⟨s.settled, s.mprv⟩
  | wrote c value registers may _ =>
      have hprivilege := (writeCsr_frame h c value).2.2
      refine ⟨(writeCsr_csrs h c value).settled s.settled, fun borrowed => ?_⟩
      refine hprivilege.trans ?_
      by_cases low : h.privilege = .machine
      · exact low
      · have hsame : (h.writeCsr c value).csrs.status.mprv = h.csrs.status.mprv :=
          mprv_writeCsr s low (mayUse_exceeds may)
        exact s.mprv (hsame.symm.trans borrowed)
  | returned level may =>
      have hstatus : (h.trapReturn level).csrs.status = left h.csrs.status level :=
        CsrFile.status_setStatus _ _
      refine ⟨?_, fun borrowed => ?_⟩
      · rw [hstatus]
        exact settled_left s.settled
      · rw [hstatus, left_mprv, Bool.and_eq_true, decide_eq_true_eq] at borrowed
        exact borrowed.2

/-- Going to a handler of the same mode or a higher one. -/
theorem Sound.deliver {h : Hart} (s : Sound h) {t : Trap} (rises : h.privilege ≤ h.handler t.cause) :
    Sound (h.deliver t) := by
  have hstatus : (h.deliver t).csrs.status = _ := saveTrap_status h t _
  refine ⟨?_, fun borrowed => ?_⟩
  · rw [hstatus]
    exact settled_entered s.settled
  · have hout : Status.mprvPosition ∉ Status.entryPositions (h.handler t.cause) := by
      cases h.handler t.cause <;> decide
    rw [hstatus, Status.mprv, bit_entered_out hout] at borrowed
    rw [s.mprv borrowed] at rises
    show h.handler t.cause = .machine
    revert rises
    cases h.handler t.cause <;> decide

theorem Sound.count {h : Hart} (s : Sound h) : Sound h.count := ⟨s.settled, s.mprv⟩

theorem Sound.step {h : Hart} (s : Sound h) (mmu : Mmu) : Sound (h.step mmu).2.1 := by
  cases hr : (h.step mmu).1 with
  | trapped t =>
      obtain ⟨⟨e, tval, rfl⟩, hdeliver⟩ := step_trapped hr
      rw [hdeliver]
      exact s.count.deliver (Privilege.le_max_right _ _)
  | completed => exact s.count.outcome (step_outcome fun t ht => nomatch hr.symm.trans ht)
  | stopped => exact s.count.outcome (step_outcome fun t ht => nomatch hr.symm.trans ht)

/-- An interrupt is delivered only if its handler's mode is not below the current one. -/
theorem nextInterrupt_rises {h : Hart} {clint : Clint} {i : Interrupt}
    (next : h.nextInterrupt clint = some i) : h.privilege ≤ h.handler (.interrupt i) := by
  have hd := List.find?_some next
  simp only [deliverable, Bool.and_eq_true, Bool.or_eq_true, decide_eq_true_eq,
    beq_iff_eq] at hd
  rcases hd.2 with hlt | ⟨heq, -⟩
  · exact Nat.le_of_lt hlt
  · exact Nat.le_of_eq (congrArg Privilege.rank heq)

theorem Sound.interrupt {h : Hart} (s : Sound h) (mmu : Mmu) :
    Sound (h.checkInterrupts mmu).2.1 := by
  unfold checkInterrupts
  cases hn : h.nextInterrupt mmu.memory.clint with
  | none => exact s
  | some i => exact s.deliver (nextInterrupt_rises hn)

theorem Reachable.sound {h : Hart} (r : Reachable h) : Sound h := by
  induction r with
  | start config => exact sound_init config
  | step mmu _ ih => exact ih.step mmu
  | interrupt mmu _ ih => exact ih.interrupt mmu

/-! ## Steps without a trap -/

/-- `after` has no more than the mode of `before`, and in the registers of higher modes
the same bits, except for those that are lent. -/
structure Confined (before after : Hart) : Prop where
  privilege : after.privilege ≤ before.privilege
  words : ∀ c : Csr, c.requiredPrivilege.exceeds before.privilege = true →
    ∀ i, (c.lent before.privilege).getLsbD i = false →
      (after.csrs.get c).getLsbD i = (before.csrs.get c).getLsbD i

/-- Returning from a trap changes bits of the status register that are lent to the
mode that returns; MPRV was clear before. -/
theorem bit_left_lent {h : Hart} (s : Sound h) (low : h.privilege ≠ .machine)
    {level : Privilege} (hle : level ≤ h.privilege) {i : Nat}
    (out : (Csr.mstatus.lent h.privilege).getLsbD i = false) :
    (left h.csrs.status level).bit i = h.csrs.status.bit i := by
  have hlent : ∀ j ∈ Status.entryPositions level,
      (Csr.mstatus.lent h.privilege).getLsbD j = true := by
    revert low hle
    cases h.privilege <;> cases level <;> decide
  have hmem : i ∉ Status.entryPositions level := by
    intro hi
    rw [hlent i hi] at out
    cases out
  by_cases hm : i = Status.mprvPosition
  · subst hm
    have hclear := s.mprv_eq_false low
    show (left h.csrs.status level).mprv = h.csrs.status.mprv
    rw [left_mprv, hclear]
    rfl
  · exact bit_left_out hmem hm

theorem Confined.outcome {h h' : Hart} {mmu : Mmu} (s : Sound h) (low : h.privilege ≠ .machine)
    (o : Outcome h mmu h') : Confined h h' := by
  cases o with
  | computed registers => exact ⟨Nat.le_refl _, fun _ _ _ _ => rfl⟩
  | wrote c value registers may _ =>
      have hprivilege := (writeCsr_frame h c value).2.2
      refine ⟨Nat.le_of_eq (congrArg Privilege.rank hprivilege), fun d high i out => ?_⟩
      exact (writeCsr_csrs h c value).getLsbD_of_exceeds s.settled (mayUse_exceeds may) high out
  | returned level may =>
      have hle := mayReturn_le may
      refine ⟨?_, fun d high i out => ?_⟩
      · show h.csrs.status.pp level ≤ h.privilege
        have hpp : level ≠ .machine → h.csrs.status.pp level ≤ level := by
          intro hne
          cases level with
          | user => exact Nat.le_refl _
          | supervisor =>
              simp only [Status.pp, Status.spp]
              split <;> decide
          | machine => exact absurd rfl hne
        refine Nat.le_trans (hpp ?_) hle
        rintro rfl
        revert low hle
        cases h.privilege <;> decide
      · by_cases hd : d = Csr.mstatus
        · subst hd
          have hbit := bit_left_lent s low hle out
          rw [CsrFile.get_mstatus, show (h.trapReturn level).csrs.status = _ from
            CsrFile.status_setStatus _ _]
          exact hbit
        · rw [show (h.trapReturn level).csrs.get d = _ from CsrFile.get_setStatus_ne hd _ _]

/-- Code below machine mode gains privilege, or changes what belongs to higher modes,
only by trapping. -/
theorem step_confined {h : Hart} (reachable : h.Reachable) (low : h.privilege ≠ .machine)
    (mmu : Mmu) (quiet : ∀ t, (h.step mmu).1 ≠ .trapped t) :
    Confined h (h.step mmu).2.1 := by
  have hc := Confined.outcome (h := h.count) reachable.sound.count low (step_outcome quiet)
  exact ⟨hc.privilege, hc.words⟩

example :
    (Csr.mie.lent .supervisor, Csr.mie.lent .user, Csr.mip.lent .supervisor, Csr.mip.lent .user) =
      (0x333, 0x111, 0x3, 0x1) := rfl

/-- A hart that starts at the second instruction, a return to user mode, and there
writes the user's view of the status register. -/
theorem step_confined_in_user_mode :
    let mmu := Mmu.ofProgram [0x73, 0xD0, 0x08, 0x00, 0x73, 0x00, 0x20, 0x30]
    let h := ((Hart.init ⟨0, 4, false, true⟩).step mmu).2.1
    h.privilege = .user ∧ Confined h (h.step mmu).2.1 := by
  refine ⟨by decide +kernel, step_confined (.step _ (.start _)) (by decide +kernel) _ ?_⟩
  intro t trapped
  have completed : StepResult.completed = .trapped t := .trans (by decide +kernel) trapped
  cases completed

end Rv32.Hart
