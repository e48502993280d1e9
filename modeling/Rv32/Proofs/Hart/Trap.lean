/-
# `Rv32.Proofs.Hart.Trap` — what going to a handler and coming back change

Going to the handler of a mode writes three registers of that mode and, in the
status register, its interrupt enable bits and its field for where it was entered
from.  Coming back writes the same fields of the status register, and may end the
borrowing of a mode for loads and stores.

So neither touches what a translation depends on: the root of the page table and the
two bits that say who may use which page.
-/
import Rv32.Proofs.Hart.Csr
import Rv32.Hart.Trap

namespace Rv32

/-! ## The modes are ordered -/

namespace Privilege

theorem le_max_right (p q : Privilege) : q ≤ max p q := by
  cases p <;> cases q <;> decide

theorem max_comm (p q : Privilege) : max p q = max q p := by
  cases p <;> cases q <;> decide

theorem not_lt {p q : Privilege} : ¬p < q ↔ q ≤ p := Nat.not_lt

end Privilege

/-! ## The status register -/

namespace Status

/-- The bits that record how a mode was entered. -/
def entryPositions (level : Privilege) : List Nat :=
  iePosition level :: piePosition level :: ppPositions level

theorem iePosition_ne_piePosition (level : Privilege) :
    iePosition level ≠ piePosition level := by cases level <;> decide

theorem iePosition_not_mem_ppPositions (level : Privilege) :
    iePosition level ∉ ppPositions level := by cases level <;> decide

theorem piePosition_not_mem_ppPositions (level : Privilege) :
    piePosition level ∉ ppPositions level := by cases level <;> decide

/-- The stack of a mode is below the fields that decide how memory is accessed and
what the floating-point registers are in. -/
theorem lt_of_mem_entryPositions {level : Privilege} {i : Nat} (h : i ∈ entryPositions level) :
    i < fsPosition := by
  revert i
  cases level <;> decide

end Status

namespace Hart

section
variable (s : Status) (target source : Privilege)

theorem entered_ie : (entered s target source).ie target = false := by
  simp only [entered, Status.ie]
  rw [Status.bit_setPp_out (Status.iePosition_not_mem_ppPositions target), Status.bit_setIe,
    if_pos rfl]

theorem entered_pie : (entered s target source).pie target = s.ie target := by
  simp only [entered, Status.pie]
  rw [Status.bit_setPp_out (Status.piePosition_not_mem_ppPositions target), Status.bit_setIe,
    if_neg (Status.iePosition_ne_piePosition target).symm, Status.bit_setPie, if_pos rfl]

variable {s target source}

theorem entered_pp (h : source ≤ target) : (entered s target source).pp target = source :=
  Status.pp_setPp h _

theorem bit_entered_out {i : Nat} (h : i ∉ Status.entryPositions target) :
    (entered s target source).bit i = s.bit i := by
  simp only [Status.entryPositions, List.mem_cons, not_or] at h
  obtain ⟨hie, hpie, hpp⟩ := h
  rw [entered, Status.bit_setPp_out hpp, Status.bit_setIe, if_neg hie, Status.bit_setPie,
    if_neg hpie]

theorem bit_left_out {level : Privilege} {i : Nat} (h : i ∉ Status.entryPositions level)
    (hm : i ≠ Status.mprvPosition) : (left s level).bit i = s.bit i := by
  simp only [Status.entryPositions, List.mem_cons, not_or] at h
  obtain ⟨hie, hpie, hpp⟩ := h
  have hpopped : (((s.setIe level (s.pie level)).setPie level true).setPp level .user).bit i =
      s.bit i := by
    rw [Status.bit_setPp_out hpp, Status.bit_setPie, if_neg hpie, Status.bit_setIe, if_neg hie]
  unfold left
  split
  · exact hpopped
  · rw [Status.bit_setMprv, if_neg hm, hpopped]

/-- A borrowed mode is given back, unless the hart stays in machine mode. -/
theorem left_mprv (level : Privilege) :
    (left s level).mprv = (s.mprv && decide (s.pp level = .machine)) := by
  have hpopped : (((s.setIe level (s.pie level)).setPie level true).setPp level .user).mprv =
      s.mprv := by
    simp only [Status.mprv]
    rw [Status.bit_setPp_out (by cases level <;> decide), Status.bit_setPie,
      if_neg (by cases level <;> decide), Status.bit_setIe, if_neg (by cases level <;> decide)]
  unfold left
  split
  case isTrue hpp => rw [hpopped, decide_eq_true hpp, Bool.and_true]
  case isFalse hpp =>
    rw [Status.mprv, Status.bit_setMprv, if_pos rfl, decide_eq_false hpp, Bool.and_false]

theorem settled_entered (h : s.Settled) : (entered s target source).Settled := by
  refine h.congr fun i hi => bit_entered_out fun hmem => ?_
  have hlt := Status.lt_of_mem_entryPositions hmem
  simp only [List.mem_cons, List.not_mem_nil, or_false] at hi
  rcases hi with rfl | rfl | rfl <;> exact absurd hlt (by decide)

theorem settled_left {level : Privilege} (h : s.Settled) : (left s level).Settled := by
  have hne : ∀ i ∈ [Status.fsPosition, Status.fsPosition + 1, Status.sdPosition],
      i ≠ Status.mprvPosition := by decide
  refine h.congr fun i hi => bit_left_out (fun hmem => ?_) (hne i hi)
  have hlt := Status.lt_of_mem_entryPositions hmem
  simp only [List.mem_cons, List.not_mem_nil, or_false] at hi
  rcases hi with rfl | rfl | rfl <;> exact absurd hlt (by decide)

end

/-! ## The words -/

section
variable (h : Hart) (t : Trap) (target : Privilege)

/-- The three registers a trap is described in, and the status register. -/
def trapRegisters (target : Privilege) : List Csr :=
  [Csr.mepc.atLevel target, Csr.mcause.atLevel target, Csr.mtval.atLevel target, Csr.mstatus]

theorem get_saveTrap_out {c : Csr} (hc : c ∉ trapRegisters target) :
    (h.saveTrap t target).get c = h.csrs.get c := by
  simp only [trapRegisters, List.mem_cons, List.not_mem_nil, or_false, not_or] at hc
  obtain ⟨hepc, hcause, htval, hstatus⟩ := hc
  simp only [saveTrap]
  rw [CsrFile.get_setStatus_ne hstatus, CsrFile.get_set_ne htval, CsrFile.get_set_ne hcause,
    CsrFile.get_set_ne hepc]

theorem saveTrap_epc : (h.saveTrap t target).get (Csr.mepc.atLevel target) = t.epc := by
  simp only [saveTrap]
  rw [CsrFile.get_setStatus_ne (by cases target <;> decide),
    CsrFile.get_set_ne (Csr.mepc_ne_mtval target),
    CsrFile.get_set_ne (Csr.mepc_ne_mcause target), CsrFile.get_set_self]

theorem saveTrap_cause :
    (h.saveTrap t target).get (Csr.mcause.atLevel target) = t.cause.word := by
  simp only [saveTrap]
  rw [CsrFile.get_setStatus_ne (by cases target <;> decide),
    CsrFile.get_set_ne (Csr.mcause_ne_mtval target), CsrFile.get_set_self]

theorem saveTrap_tval : (h.saveTrap t target).get (Csr.mtval.atLevel target) = t.tval := by
  simp only [saveTrap]
  rw [CsrFile.get_setStatus_ne (by cases target <;> decide), CsrFile.get_set_self]

theorem saveTrap_status :
    (h.saveTrap t target).status = entered h.csrs.status target h.privilege := by
  simp only [saveTrap]
  rw [CsrFile.status_setStatus, CsrFile.status_set_ne (by cases target <;> decide),
    CsrFile.status_set_ne (by cases target <;> decide),
    CsrFile.status_set_ne (by cases target <;> decide)]

end

/-! ## The hart in a handler -/

/-- `after` is `before` in the handler of a mode, where the trap `t` sent it. -/
structure InHandler (before after : Hart) (t : Trap) (level : Privilege) : Prop where
  config : after.config = before.config
  ints : after.registers.ints = before.registers.ints
  floats : after.registers.floats = before.registers.floats
  cycles : after.cycles = before.cycles
  privilege : after.privilege = level
  rises : before.privilege ≤ level
  savedEpc : after.csrs.get (Csr.mepc.atLevel level) = t.epc
  savedCause : after.csrs.get (Csr.mcause.atLevel level) = t.cause.word
  savedTval : after.csrs.get (Csr.mtval.atLevel level) = t.tval
  /-- Interrupts are disabled in the handler's mode. -/
  ie : after.csrs.status.ie level = false
  pie : after.csrs.status.pie level = before.csrs.status.ie level
  pp : after.csrs.status.pp level = before.privilege
  /-- Of the status register, only those fields of the handler's mode change. -/
  status : ∀ i, i ∉ Status.entryPositions level →
    after.csrs.status.bit i = before.csrs.status.bit i
  words : ∀ c, c ∉ trapRegisters level → after.csrs.get c = before.csrs.get c
  pc : after.registers.pc =
    (TrapVector.mk (before.csrs.get (Csr.mtvec.atLevel level))).target t.cause

theorem deliver_inHandler {h : Hart} {t : Trap} (rises : h.privilege ≤ h.handler t.cause) :
    InHandler h (h.deliver t) t (h.handler t.cause) := by
  have status : (h.deliver t).csrs.status = _ := saveTrap_status h t _
  have vector : (h.deliver t).csrs.get (Csr.mtvec.atLevel (h.handler t.cause)) = _ :=
    get_saveTrap_out h t _ (by cases h.handler t.cause <;> decide)
  exact
    { config := rfl
      ints := rfl
      floats := rfl
      cycles := rfl
      privilege := rfl
      rises := rises
      savedEpc := saveTrap_epc h t _
      savedCause := saveTrap_cause h t _
      savedTval := saveTrap_tval h t _
      ie := by rw [status, entered_ie]
      pie := by rw [status, entered_pie]
      pp := by rw [status, entered_pp rises]
      status := fun i out => by rw [status, bit_entered_out out]
      words := fun c out => get_saveTrap_out h t _ out
      pc := congrArg (fun word => (TrapVector.mk word).target t.cause) vector }

/-! ## What a translation depends on -/

theorem context_deliver (h : Hart) (t : Trap) : (h.deliver t).context = h.context := by
  have hout : ∀ i, Status.fsPosition ≤ i →
      (entered h.csrs.status (h.handler t.cause) h.privilege).bit i = h.csrs.status.bit i := by
    intro i hi
    exact bit_entered_out fun hmem => absurd (Status.lt_of_mem_entryPositions hmem) (by omega)
  refine context_congr rfl ?_ ?_ ?_
  · exact get_saveTrap_out h t _ (by cases h.handler t.cause <;> decide)
  · rw [show (h.deliver t).csrs.status = _ from saveTrap_status h t _]
    exact hout _ (by decide)
  · rw [show (h.deliver t).csrs.status = _ from saveTrap_status h t _]
    exact hout _ (by decide)

theorem context_trapReturn (h : Hart) (level : Privilege) :
    (h.trapReturn level).context = h.context := by
  have hout : ∀ i, Status.fsPosition ≤ i → i ≠ Status.mprvPosition →
      (left h.csrs.status level).bit i = h.csrs.status.bit i := by
    intro i hi hne
    exact bit_left_out (fun hmem => absurd (Status.lt_of_mem_entryPositions hmem) (by omega)) hne
  refine context_congr rfl ?_ ?_ ?_
  · exact CsrFile.get_setStatus_ne (by decide) _ _
  · rw [show (h.trapReturn level).csrs.status = _ from CsrFile.status_setStatus _ _]
    exact hout _ (by decide) (by decide)
  · rw [show (h.trapReturn level).csrs.status = _ from CsrFile.status_setStatus _ _]
    exact hout _ (by decide) (by decide)

end Hart
end Rv32
