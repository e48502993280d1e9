/-
# `Rv32.Proofs.Hart.Csr` — what a write of a control register changes

A write reaches the register it names, or through a view one of the three
registers that have views; `CsrWrite` has a case for each.  Two consequences are
drawn from it.

* A write by a mode below machine mode leaves the registers of higher modes alone,
  except for the bits of its own views.
* A write that is said to keep remembered translations right changes nothing a
  translation depends on.
-/
import Rv32.Proofs.Csr.Role
import Rv32.Proofs.Csr.Written
import Rv32.Hart.Csr

namespace Rv32

/-! ## What a write reaches -/

/-- The words after a write of `value` to register `c`: none has changed, or the one
of `c` itself, or one that `c` is a view of. -/
inductive CsrWrite (f : CsrFile) (c : Csr) (value : Word) : CsrFile → Prop
  | unchanged : CsrWrite f c value f
  | own (stored : Word) : c.role.view? = none → c.isReadOnly = false →
      CsrWrite f c value (f.set c stored)
  | status (view : Privilege) : c.role = .status view →
      CsrWrite f c value (f.setStatus (f.status.written value (Csr.statusView view)))
  | enabled (view : Privilege) : c.role = .enabled view →
      CsrWrite f c value (f.setMasked Csr.mie value (Csr.interruptsUpTo view))
  | pending (view : Privilege) : c.role = .pending view →
      CsrWrite f c value (f.setMasked Csr.mip value (Csr.pendingWritable view))

namespace Hart

variable (h : Hart) (c : Csr) (value : Word)

theorem writeCsr_csrs : CsrWrite h.csrs c value (h.writeCsr c value).csrs := by
  unfold writeCsr
  split
  case isTrue => exact .unchanged
  case isFalse writable =>
    have hw : c.isReadOnly = false := by simpa using writable
    cases hr : c.role with
    | cyclesLow => exact .unchanged
    | cyclesHigh => exact .unchanged
    | float => exact .unchanged
    | status view => exact .status view hr
    | enabled view => exact .enabled view hr
    | pending view => exact .pending view hr
    | timeLow => exact .own _ (by rw [hr]; rfl) hw
    | timeHigh => exact .own _ (by rw [hr]; rfl) hw
    | hartId => exact .own _ (by rw [hr]; rfl) hw
    | identity => exact .own _ (by rw [hr]; rfl) hw
    | exceptionDelegation => exact .own _ (by rw [hr]; rfl) hw
    | interruptDelegation level => exact .own _ (by rw [hr]; rfl) hw
    | vector => exact .own _ (by rw [hr]; rfl) hw
    | returnAddress => exact .own _ (by rw [hr]; rfl) hw
    | translation => exact .own _ (by rw [hr]; rfl) hw
    | storage => exact .own _ (by rw [hr]; rfl) hw

/-- A write changes nothing but control registers and the counter. -/
theorem writeCsr_frame : (h.writeCsr c value).config = h.config ∧
    (h.writeCsr c value).registers = h.registers ∧
    (h.writeCsr c value).privilege = h.privilege := by
  unfold writeCsr
  split
  · exact ⟨rfl, rfl, rfl⟩
  · split <;> exact ⟨rfl, rfl, rfl⟩

end Hart

/-! ## Pending interrupts -/

/-- An interrupt is pending if it is stored so, or if the interruptor asks for it. -/
theorem Hart.getLsbD_pending_or (h : Hart) (clint : Clint) (i : Nat) :
    (h.pending clint).getLsbD i =
      ((h.csrs.get Csr.mip).getLsbD i ||
        (clint.software h.config.id && Interrupt.machineSoftware.mask.getLsbD i) ||
        (decide (clint.compare h.config.id ≤ clint.time) &&
          Interrupt.machineTimer.mask.getLsbD i)) := by
  have bit (p : Prop) [Decidable p] (mask : Word) :
      (if p then mask else 0).getLsbD i = (decide p && mask.getLsbD i) := by
    by_cases holds : p
    · rw [if_pos holds, decide_eq_true holds, Bool.true_and]
    · rw [if_neg holds, decide_eq_false holds, Bool.false_and]
      exact BitVec.getLsbD_zero
  rw [pending, BitVec.getLsbD_or, BitVec.getLsbD_or, bit, bit, Bool.decide_eq_true]

/-! ## Registers of higher modes -/

/-- The bits of a register that the next lower modes may write through views of
their own. -/
def Csr.lent (p : Privilege) (c : Csr) : Word :=
  if c = Csr.mstatus then Csr.statusView p
  else if c = Csr.mie then Csr.interruptsUpTo p
  else if c = Csr.mip then Csr.pendingWritable p
  else 0

namespace CsrWrite

variable {f f' : CsrFile} {c : Csr} {value : Word}

theorem settled (w : CsrWrite f c value f') (h : f.status.Settled) : f'.status.Settled := by
  cases w with
  | unchanged => exact h
  | own stored hv _ =>
      have hne : c ≠ Csr.mstatus := by
        rintro rfl
        exact nomatch hv
      rw [CsrFile.status_set_ne hne]
      exact h
  | status view _ =>
      rw [CsrFile.status_setStatus]
      exact Status.settled_written _ _ _
  | enabled view _ =>
      have hne : Csr.mie ≠ Csr.mstatus := by decide
      rw [CsrFile.setMasked, CsrFile.status_set_ne hne]
      exact h
  | pending view _ =>
      have hne : Csr.mip ≠ Csr.mstatus := by decide
      rw [CsrFile.setMasked, CsrFile.status_set_ne hne]
      exact h

/-- A write by a mode leaves the registers of higher modes as they were, up to the
bits that are lent. -/
theorem getLsbD_of_exceeds (w : CsrWrite f c value f') (settled : f.status.Settled)
    {p : Privilege} (may : c.requiredPrivilege.exceeds p = false)
    {d : Csr} (high : d.requiredPrivilege.exceeds p = true)
    {i : Nat} (out : (d.lent p).getLsbD i = false) :
    (f'.get d).getLsbD i = (f.get d).getLsbD i := by
  cases w with
  | unchanged => rfl
  | own stored _ _ =>
      have hne : d ≠ c := by
        rintro rfl
        rw [may] at high
        cases high
      rw [CsrFile.get_set_ne hne]
  | status view hr =>
      have hle : view ≤ p := Csr.view_le (by rw [hr]; rfl) may
      by_cases hd : d = Csr.mstatus
      · subst hd
        have hsub : Csr.statusView view &&& ~~~Csr.statusView p = 0 := by
          revert hle
          cases view <;> cases p <;> decide
        have hview : (Csr.statusView view).getLsbD Status.sdPosition = false →
            (Csr.statusView view).getLsbD Status.fsPosition = false ∧
            (Csr.statusView view).getLsbD (Status.fsPosition + 1) = false := by
          cases view <;> decide
        have hbit := Status.bit_written_out_of_settled hview settled value
          (getLsbD_of_submask hsub out)
        rw [CsrFile.get_mstatus, CsrFile.status_setStatus]
        exact hbit
      · rw [CsrFile.get_setStatus_ne hd]
  | enabled view hr =>
      have hle : view ≤ p := Csr.view_le (by rw [hr]; rfl) may
      by_cases hd : d = Csr.mie
      · subst hd
        have hsub : Csr.interruptsUpTo view &&& ~~~Csr.interruptsUpTo p = 0 := by
          revert hle
          cases view <;> cases p <;> decide
        rw [CsrFile.setMasked, CsrFile.get_set_self, getLsbD_masked,
          getLsbD_of_submask hsub out]
        rfl
      · rw [CsrFile.get_setMasked_ne hd]
  | pending view hr =>
      have hle : view ≤ p := Csr.view_le (by rw [hr]; rfl) may
      by_cases hd : d = Csr.mip
      · subst hd
        have hsub : Csr.pendingWritable view &&& ~~~Csr.pendingWritable p = 0 := by
          revert hle
          cases view <;> cases p <;> decide
        rw [CsrFile.setMasked, CsrFile.get_set_self, getLsbD_masked,
          getLsbD_of_submask hsub out]
        rfl
      · rw [CsrFile.get_setMasked_ne hd]

end CsrWrite

/-! ## What a translation depends on -/

namespace Hart

/-- The context of an access depends on one register, on two bits of another, and on
what is fixed about the hart. -/
theorem context_congr {h h' : Hart} (config : h'.config = h.config)
    (satp : h'.csrs.get Csr.satp = h.csrs.get Csr.satp)
    (sum : h'.csrs.status.sum = h.csrs.status.sum)
    (mxr : h'.csrs.status.mxr = h.csrs.status.mxr) : h'.context = h.context := by
  funext privilege
  simp only [context, config, satp, sum, mxr]

/-- A write that does not flush translates as before. -/
theorem context_writeCsr {h : Hart} {c : Csr} {value : Word}
    (keeps : h.writeFlushes c value = false) : (h.writeCsr c value).context = h.context := by
  have hconfig := (writeCsr_frame h c value).1
  have hstatus : ∀ view, c.role = .status view →
      (h.writeCsr c value).csrs.status.sum = h.csrs.status.sum ∧
      (h.writeCsr c value).csrs.status.mxr = h.csrs.status.mxr := by
    intro view hr
    simp only [writeFlushes, hr, Bool.or_eq_false_iff, bne_eq_false_iff_eq] at keeps
    exact ⟨keeps.1.symm, keeps.2.symm⟩
  have hw := writeCsr_csrs h c value
  generalize h.writeCsr c value = h' at hw hconfig hstatus ⊢
  obtain ⟨config, registers, csrs, privilege, cycles⟩ := h'
  cases hw with
  | unchanged => exact context_congr hconfig rfl rfl rfl
  | own stored hv _ =>
      have hne : c ≠ Csr.mstatus := by
        rintro rfl
        exact nomatch hv
      have hsatp : Csr.satp ≠ c := by
        rintro rfl
        exact nomatch keeps
      have hsame := CsrFile.status_set_ne hne h.csrs stored
      exact context_congr hconfig (CsrFile.get_set_ne hsatp _ _) (congrArg Status.sum hsame)
        (congrArg Status.mxr hsame)
  | status view hr =>
      obtain ⟨hsum, hmxr⟩ := hstatus view hr
      exact context_congr hconfig (CsrFile.get_setStatus_ne (by decide) _ _) hsum hmxr
  | enabled view _ =>
      have hsame := CsrFile.status_set_ne (show Csr.mie ≠ Csr.mstatus by decide) h.csrs
      exact context_congr hconfig (CsrFile.get_setMasked_ne (by decide) _ _ _)
        (congrArg Status.sum (hsame _)) (congrArg Status.mxr (hsame _))
  | pending view _ =>
      have hsame := CsrFile.status_set_ne (show Csr.mip ≠ Csr.mstatus by decide) h.csrs
      exact context_congr hconfig (CsrFile.get_setMasked_ne (by decide) _ _ _)
        (congrArg Status.sum (hsame _)) (congrArg Status.mxr (hsame _))

end Hart
end Rv32
