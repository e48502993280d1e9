/-
# `Rv32.Proofs.Hart.Legal` — what a control register can hold

A write of a control register is filtered: bits without a meaning are dropped, and a
field whose new value would be reserved keeps its old one.  So each register has bits
that are never set in what is stored for it (`storable`), and the status register is
always one of the values that mean something (`Status.Legal`).

Every writer is one of three: it stores a word for a register other than the status
register, or some bits of such a word, or a new status register.  `Legal` is preserved by
each of the three, and so by everything that is put together from them.
-/
import Rv32.Proofs.Csr.Legal
import Rv32.Proofs.Hart.Trap

namespace Rv32

/-! ## The status register in traps -/

namespace Status

theorem mppField_setBit {i : Nat} (hi : i < 32) (out : i ∉ ppPositions .machine) (s : Status)
    (value : Bool) : (s.setBit i value).mppField = s.mppField := by
  simp only [ppPositions, List.mem_cons, List.not_mem_nil, or_false, not_or] at out
  exact mppField_congr (bit_setBit_ne hi (Ne.symm out.1) s value)
    (bit_setBit_ne hi (Ne.symm out.2) s value)

theorem mppField_setIe (s : Status) (level : Privilege) (value : Bool) :
    (s.setIe level value).mppField = s.mppField :=
  mppField_setBit (iePosition_lt level) (by cases level <;> decide) s value

theorem mppField_setPie (s : Status) (level : Privilege) (value : Bool) :
    (s.setPie level value).mppField = s.mppField :=
  mppField_setBit (piePosition_lt level) (by cases level <;> decide) s value

/-- MPP is set to a mode, or keeps what it holds. -/
theorem mppField_setPp {s : Status} (h : s.mppField ≠ 0b10#2) (level value : Privilege) :
    (s.setPp level value).mppField ≠ 0b10#2 := by
  by_cases own : level = .machine
  case pos =>
    subst own
    simp only [mppField, setPp, setMpp, privilege?_ofPrivilege, replace]
    rw [extractLsb'_mpp]
    cases value <;> decide
  case neg =>
    have out : ∀ i ∈ ppPositions .machine, i ∉ ppPositions level := by
      cases level with
      | machine => exact absurd rfl own
      | supervisor | user => decide
    rw [mppField_congr (bit_setPp_out (out _ (by decide)) s value)
      (bit_setPp_out (out _ (by decide)) s value)]
    exact h

/-- What records how a mode was entered has a meaning. -/
theorem defined_of_mem_entryPositions {level : Privilege} {i : Nat}
    (h : i ∈ entryPositions level) : definedMask.getLsbD i = true := by
  revert i
  cases level <;> decide

theorem Legal.entered {s : Status} (l : s.Legal) (target source : Privilege) :
    (Hart.entered s target source).Legal := by
  refine ⟨fun i out => ?_, Hart.settled_entered l.settled, ?_⟩
  · have hout : i ∉ entryPositions target := fun hi => by
      rw [defined_of_mem_entryPositions hi] at out
      cases out
    exact (Hart.bit_entered_out hout).trans (l.defined i out)
  · refine mppField_setPp ?_ target source
    rw [mppField_setIe, mppField_setPie]
    exact l.mpp

theorem Legal.left {s : Status} (l : s.Legal) (level : Privilege) :
    (Hart.left s level).Legal := by
  refine ⟨fun i out => ?_, Hart.settled_left l.settled, ?_⟩
  · have hout : i ∉ entryPositions level := fun hi => by
      rw [defined_of_mem_entryPositions hi] at out
      cases out
    have hne : i ≠ mprvPosition := by
      rintro rfl
      cases out
    exact (Hart.bit_left_out hout hne).trans (l.defined i out)
  · have hpopped : (((s.setIe level (s.pie level)).setPie level true).setPp level
        .user).mppField ≠ 0b10#2 := by
      refine mppField_setPp ?_ level .user
      rw [mppField_setPie, mppField_setIe]
      exact l.mpp
    unfold Hart.left
    split
    · exact hpopped
    · rw [setMprv, mppField_setBit (by decide) (by decide)]
      exact hpopped

end Status

/-! ## The words that are stored -/

/-- The bits that can be set in what is stored for a register that can be written.
Nothing is stored for a view, for the counter or for the floating-point flags. -/
def CsrRole.storable : CsrRole → Word
  | .cyclesLow | .cyclesHigh | .float => 0
  | .status .machine => Status.definedMask
  | .enabled .machine => Csr.interruptsUpTo .machine
  | .pending .machine => Csr.pendingWritable .machine
  | .status _ | .enabled _ | .pending _ => 0
  | .exceptionDelegation => Csr.delegatableExceptions
  | .interruptDelegation level => Csr.delegatableInterrupts level
  | .vector => ~~~(1#32 <<< 1)
  | .returnAddress => ~~~(1#32 <<< 0)
  | .timeLow | .timeHigh | .hartId | .identity | .translation | .storage => BitVec.allOnes 32

def Csr.storable (c : Csr) : Word := if c.isReadOnly then 0 else c.role.storable

/-- What is stored for the control registers. -/
structure CsrFile.Legal (f : CsrFile) : Prop where
  words : ∀ c, Word.Within (f.get c) c.storable
  status : f.status.Legal

namespace CsrFile.Legal

theorem init : CsrFile.init.Legal where
  words := fun c => by
    rw [CsrFile.get_init]
    exact Word.Within.zero _
  status := by
    have hzero : CsrFile.init.status = ⟨0⟩ := congrArg Status.mk (CsrFile.get_init _)
    rw [hzero]
    exact ⟨Word.Within.zero _, rfl, by decide⟩

variable {f : CsrFile}

/-- Storing a word for a register other than the status register. -/
theorem set (l : f.Legal) {c : Csr} (ne : c ≠ Csr.mstatus) {value : Word}
    (within : Word.Within value c.storable) : (f.set c value).Legal where
  words := fun d => by
    by_cases hd : d = c
    · subst hd
      rw [CsrFile.get_set_self]
      exact within
    · rw [CsrFile.get_set_ne hd]
      exact l.words d
  status := by
    rw [CsrFile.status_set_ne ne]
    exact l.status

/-- Storing some of the bits a register can have. -/
theorem setMasked (l : f.Legal) {c : Csr} (ne : c ≠ Csr.mstatus) (value : Word) {mask : Word}
    (sub : Word.Within mask c.storable) : (f.setMasked c value mask).Legal :=
  l.set ne ((l.words c).masked sub value)

theorem setStatus (l : f.Legal) {s : Status} (legal : s.Legal) : (f.setStatus s).Legal where
  words := fun d => by
    by_cases hd : d = Csr.mstatus
    · subst hd
      rw [CsrFile.setStatus, CsrFile.get_set_self]
      exact legal.defined
    · rw [CsrFile.get_setStatus_ne hd]
      exact l.words d
  status := by
    rw [CsrFile.status_setStatus]
    exact legal

end CsrFile.Legal

/-! ## Writers -/

/-- A vector whose mode is not reserved is left so by a write. -/
theorem TrapVector.within_written {v : TrapVector} (h : Word.Within v.bits (~~~(1#32 <<< 1)))
    (value : Word) : Word.Within (v.written value).bits (~~~(1#32 <<< 1)) := by
  unfold TrapVector.written
  split
  case isTrue => exact h
  case isFalse clear => exact (Word.Within.not_bit (by decide)).mpr (by simpa using clear)

namespace Hart

variable {h : Hart}

/-- Storing a word for a register that is no view of another. -/
theorem legal_store (l : h.csrs.Legal) {c : Csr} (own : c.role.view? = none) {value : Word}
    (writable : c.isReadOnly = false) (within : Word.Within value c.role.storable) :
    (h.store c value).csrs.Legal := by
  refine l.set ?_ ?_
  · rintro rfl
    cases own
  · rw [Csr.storable, writable]
    exact within

/-- A write stores only what may be stored. -/
theorem legal_writeCsr (l : h.csrs.Legal) (c : Csr) (value : Word) :
    (h.writeCsr c value).csrs.Legal := by
  unfold writeCsr
  split
  case isTrue => exact l
  case isFalse writable =>
    have hstore : ∀ r, c.role = r → r.view? = none → ∀ w, Word.Within w r.storable →
        (h.store c w).csrs.Legal := by
      rintro r rfl own w within
      exact legal_store l own (by simpa using writable) within
    cases hr : c.role with
    | cyclesLow => exact l
    | cyclesHigh => exact l
    | float => exact l
    | status view => exact l.setStatus (l.status.written _ _)
    | enabled view => exact l.setMasked (by decide) value (by cases view <;> decide)
    | pending view => exact l.setMasked (by decide) value (by cases view <;> decide)
    | exceptionDelegation => exact hstore _ hr rfl _ (Word.Within.and_right _ _)
    | interruptDelegation level => exact hstore _ hr rfl _ (Word.Within.and_right _ _)
    | vector =>
        have hold := l.words c
        rw [Csr.storable, if_neg writable, hr] at hold
        exact hstore _ hr rfl _ (TrapVector.within_written hold value)
    | returnAddress => exact hstore _ hr rfl _ (Word.Within.and_right _ _)
    | timeLow => exact hstore _ hr rfl _ (Word.Within.allOnes _)
    | timeHigh => exact hstore _ hr rfl _ (Word.Within.allOnes _)
    | hartId => exact hstore _ hr rfl _ (Word.Within.allOnes _)
    | identity => exact hstore _ hr rfl _ (Word.Within.allOnes _)
    | translation => exact hstore _ hr rfl _ (Word.Within.allOnes _)
    | storage => exact hstore _ hr rfl _ (Word.Within.allOnes _)

/-- A trap stores where it came from, which has to be an address an instruction can
have. -/
theorem legal_saveTrap (l : h.csrs.Legal) {t : Trap} (even : t.epc.getLsbD 0 = false)
    (target : Privilege) : (h.saveTrap t target).Legal := by
  have hepc : (Csr.mepc.atLevel target).storable = ~~~(1#32 <<< 0) := by
    cases target <;> rfl
  have hcause : (Csr.mcause.atLevel target).storable = BitVec.allOnes 32 := by
    cases target <;> rfl
  have htval : (Csr.mtval.atLevel target).storable = BitVec.allOnes 32 := by
    cases target <;> rfl
  have hsaved : (((h.csrs.set (Csr.mepc.atLevel target) t.epc).set (Csr.mcause.atLevel target)
      t.cause.word).set (Csr.mtval.atLevel target) t.tval).Legal := by
    refine ((l.set ?_ ?_).set ?_ ?_).set ?_ ?_
    · cases target <;> decide
    · rw [hepc]
      exact (Word.Within.not_bit (by decide)).mpr even
    · cases target <;> decide
    · rw [hcause]
      exact Word.Within.allOnes _
    · cases target <;> decide
    · rw [htval]
      exact Word.Within.allOnes _
  exact hsaved.setStatus (hsaved.status.entered target h.privilege)

theorem legal_trapReturn (l : h.csrs.Legal) (level : Privilege) :
    (h.trapReturn level).csrs.Legal :=
  l.setStatus (l.status.left level)

end Hart
end Rv32
