/-
# `Rv32.Proofs.Hart.Nesting` — traps nest and return like a stack

A hart takes trap upon trap, each into a higher mode than the one before, and then returns
from them in the reverse order.  Every return succeeds, and at the end the hart is where it
was: what is left of the traps is their description in the registers of the modes that
handled them, and in the status register that these modes were entered from user mode with
interrupts enabled.

What carries the proof is the status register (`Status.Unwound`).  Entering a mode stores
there what leaving it has to restore, and the traps in between are handled in other modes and
so use other bits.  The one bit that leaving a mode may lose is MPRV; it is lost only if the
mode was entered from a lower one, and then, in a state that can be reached, it was not set.
-/
import Rv32.Proofs.Hart.Confinement
import Rv32.Proofs.Hart.Legal

namespace Rv32

/-! ## Leaving a mode -/

namespace Status

/-- The bits for how one mode was entered are not those of another mode. -/
theorem not_mem_entryPositions {p q : Privilege} (distinct : p ≠ q) {i : Nat}
    (own : i ∈ entryPositions p) : i ∉ entryPositions q := by
  revert i
  revert distinct
  cases p <;> cases q <;> decide

theorem not_mem_entryPositions_of_le {i : Nat} (high : fsPosition ≤ i) (level : Privilege) :
    i ∉ entryPositions level :=
  fun own => absurd (lt_of_mem_entryPositions own) (by omega)

theorem pp_congr {s s' : Status} {level : Privilege}
    (same : ∀ i ∈ ppPositions level, s.bit i = s'.bit i) : s.pp level = s'.pp level := by
  cases level with
  | machine =>
    have field : s.mppField = s'.mppField :=
      mppField_congr (same _ (List.mem_cons_self ..)) (same _ (by decide))
    unfold mppField at field
    simp only [pp, mpp, field]
  | supervisor =>
    have bit : s.bit sppPosition = s'.bit sppPosition := same _ (List.mem_cons_self ..)
    simp only [pp, spp, bit]
  | user => rfl

/-- A mode that is set to be entered from user mode has none of these bits set. -/
theorem bit_setPp_user {level : Privilege} {i : Nat} (field : i ∈ ppPositions level)
    (s : Status) : (s.setPp level .user).bit i = false := by
  cases level with
  | machine =>
    have masked : (0b11#32 <<< mppPosition).getLsbD i = true := getLsbD_mppMask.mpr field
    have zero : (Privilege.user.bits.setWidth 32 <<< mppPosition : Word) = 0#32 := rfl
    simp only [setPp, setMpp, privilege?_ofPrivilege]
    rw [bit_replace, if_pos masked, zero]
    exact BitVec.getLsbD_zero
  | supervisor =>
    obtain rfl := List.mem_singleton.mp field
    exact bit_setBit_self (by decide) s false
  | user => cases field

end Status

namespace Hart

section
variable (s : Status) (level : Privilege)

theorem bit_left {i : Nat} (other : i ≠ Status.mprvPosition) :
    (left s level).bit i =
      (((s.setIe level (s.pie level)).setPie level true).setPp level .user).bit i := by
  unfold left
  split
  · rfl
  · rw [Status.bit_setMprv, if_neg other]

theorem left_ie : (left s level).ie level = s.pie level := by
  rw [Status.ie, bit_left _ _ (by cases level <;> decide),
    Status.bit_setPp_out (Status.iePosition_not_mem_ppPositions level), Status.bit_setPie,
    if_neg (Status.iePosition_ne_piePosition level), Status.bit_setIe, if_pos rfl]

theorem left_pie : (left s level).pie level = true := by
  rw [Status.pie, bit_left _ _ (by cases level <;> decide),
    Status.bit_setPp_out (Status.piePosition_not_mem_ppPositions level), Status.bit_setPie,
    if_pos rfl]

theorem bit_left_pp {i : Nat} (field : i ∈ Status.ppPositions level) :
    (left s level).bit i = false := by
  have other : i ≠ Status.mprvPosition := by
    rintro rfl
    exact Status.not_mem_entryPositions_of_le (by decide) level
      (List.mem_cons_of_mem _ (List.mem_cons_of_mem _ field))
  rw [bit_left _ _ other, Status.bit_setPp_user field]

end
end Hart

/-! ## The status register after some modes were entered and left -/

namespace Status

/-- The bits of a mode that its handler leaves behind in a state of its own. -/
def spentPositions (level : Privilege) : List Nat := piePosition level :: ppPositions level

/-- The status register after modes were entered and left. -/
structure Unwound (before after : Status) (levels : List Privilege) : Prop where
  pie : ∀ level ∈ levels, after.pie level = true
  pp : ∀ level ∈ levels, ∀ i ∈ ppPositions level, after.bit i = false
  rest : ∀ i, (∀ level ∈ levels, i ∉ spentPositions level) → after.bit i = before.bit i

namespace Unwound

theorem refl (s : Status) : Unwound s s [] := ⟨nofun, nofun, fun _ _ => rfl⟩

variable {s s' : Status} {level source : Privilege} {levels : List Privilege}

/-- Whatever other modes were entered, a mode finds the bits for how it was entered. -/
theorem entry (inner : Unwound s s' levels) (others : ∀ l ∈ levels, level ≠ l) {i : Nat}
    (own : i ∈ entryPositions level) : s'.bit i = s.bit i := by
  refine inner.rest i fun l hl spent => ?_
  exact not_mem_entryPositions (others l hl) own (List.mem_cons_of_mem _ spent)

theorem high (inner : Unwound s s' levels) {i : Nat} (hi : fsPosition ≤ i) :
    s'.bit i = s.bit i :=
  inner.rest i fun l _ spent => not_mem_entryPositions_of_le hi l (List.mem_cons_of_mem _ spent)

theorem mprv (inner : Unwound s s' levels) : s'.mprv = s.mprv := inner.high (by decide)

/-- Interrupts are enabled again where they were. -/
theorem ie (inner : Unwound s s' levels) (level : Privilege) : s'.ie level = s.ie level := by
  refine inner.rest _ fun l _ => ?_
  cases level <;> cases l <;> decide

/-- One mode is entered and left around the others. -/
theorem around (inner : Unwound (Hart.entered s level source) s' levels)
    (others : ∀ l ∈ levels, level ≠ l) (low : source ≤ level)
    (borrowed : s.mprv = true → source = .machine) :
    s'.pp level = source ∧ Unwound s (Hart.left s' level) (level :: levels) := by
  have from_source : s'.pp level = source := by
    have stored : s'.pp level = (Hart.entered s level source).pp level :=
      pp_congr fun i field => inner.entry others (by simp [entryPositions, field])
    exact stored.trans (Hart.entered_pp low)
  have leaves (l : Privilege) (hl : l ∈ levels) {i : Nat} (own : i ∈ entryPositions l) :
      (Hart.left s' level).bit i = s'.bit i := by
    refine Hart.bit_left_out (not_mem_entryPositions (others l hl).symm own) ?_
    rintro rfl
    exact not_mem_entryPositions_of_le (by decide) l own
  refine ⟨from_source, ?pie, ?pp, ?rest⟩
  case pie =>
    intro l hl
    rcases List.mem_cons.mp hl with rfl | hl
    · exact Hart.left_pie s' l
    · exact (leaves l hl (by simp [entryPositions])).trans (inner.pie l hl)
  case pp =>
    intro l hl i field
    rcases List.mem_cons.mp hl with rfl | hl
    · exact Hart.bit_left_pp s' l field
    · exact (leaves l hl (by simp [entryPositions, field])).trans (inner.pp l hl i field)
  case rest =>
    intro i out
    obtain ⟨out_level, out_levels⟩ := List.forall_mem_cons.mp out
    by_cases is_mprv : i = mprvPosition
    case pos =>
      subst is_mprv
      show (Hart.left s' level).mprv = s.mprv
      have entered : (Hart.entered s level source).mprv = s.mprv :=
        Hart.bit_entered_out (not_mem_entryPositions_of_le (by decide) level)
      rw [Hart.left_mprv, inner.mprv, entered, from_source]
      cases set : s.mprv with
      | false => rfl
      | true => rw [borrowed set]; rfl
    by_cases is_ie : i = iePosition level
    case pos =>
      subst is_ie
      have stored : s'.pie level = (Hart.entered s level source).pie level :=
        inner.entry others (by simp [entryPositions])
      exact (Hart.left_ie s' level).trans (stored.trans (Hart.entered_pie s level source))
    have out_entry : i ∉ entryPositions level := List.not_mem_cons_of_ne_of_not_mem is_ie out_level
    rw [Hart.bit_left_out out_entry is_mprv, inner.rest i out_levels,
      Hart.bit_entered_out out_entry]

end Unwound
end Status
namespace Hart

/-! ## Nested traps -/

/-- A trap that the hart takes where it is: an exception of the instruction at the program
counter, or the interrupt that is to be delivered next. -/
inductive Takes (h : Hart) : Trap → Hart → Prop
  | exception (e : Exception) (tval : Word) :
      Takes h (h.raise e tval) (h.deliver (h.raise e tval))
  | interrupt (mmu : Mmu) {t : Trap} :
      (h.checkInterrupts mmu).1 = some t → Takes h t (h.checkInterrupts mmu).2.1

/-- Traps taken one upon the other, each into a higher mode than the one before.  With each
is the mode it was taken into. -/
inductive Nested : Hart → List (Privilege × Trap) → Hart → Prop
  | none (h : Hart) : Nested h [] h
  | trap {h entered inner : Hart} {t : Trap} {traps : List (Privilege × Trap)} :
      Takes h t entered → (∀ u ∈ traps, entered.privilege < u.1) → Nested entered traps inner →
      Nested h ((entered.privilege, t) :: traps) inner

/-- The hart after an instruction that returns from a trap, unless the instruction is
illegal. -/
def return? (h : Hart) (level : Privilege) : Option Hart :=
  if h.mayReturn level then some (h.trapReturn level) else none

/-- The hart after it returned from the handlers of modes, from that of the last mode
first. -/
def unwind (h : Hart) : List Privilege → Option Hart
  | [] => some h
  | level :: levels => do (← h.unwind levels).return? level

theorem Takes.eq_deliver {h entered : Hart} {t : Trap} (takes : Takes h t entered) :
    entered = h.deliver t ∧ t.epc = h.registers.pc ∧ h.privilege ≤ h.handler t.cause := by
  cases takes with
  | exception e tval => exact ⟨rfl, rfl, Privilege.le_max_right _ _⟩
  | interrupt mmu delivered =>
    unfold checkInterrupts at delivered ⊢
    cases next : h.nextInterrupt mmu.memory.clint with
    | none =>
      rw [next] at delivered
      cases delivered
    | some i =>
      rw [next] at delivered
      cases delivered
      exact ⟨rfl, rfl, nextInterrupt_rises next⟩

/-! ## What is left of traps -/

/-- A hart is back from traps where it was before them.  The registers of the modes that
handled them still describe them, and the status register has these modes entered from user
mode with interrupts enabled. -/
structure Restored (before after : Hart) (traps : List (Privilege × Trap)) : Prop where
  privilege : after.privilege = before.privilege
  registers : after.registers = before.registers
  config : after.config = before.config
  cycles : after.cycles = before.cycles
  saved : ∀ u ∈ traps, after.csrs.get (Csr.mepc.atLevel u.1) = u.2.epc ∧
    after.csrs.get (Csr.mcause.atLevel u.1) = u.2.cause.word ∧
    after.csrs.get (Csr.mtval.atLevel u.1) = u.2.tval
  words : ∀ c, c ≠ Csr.mstatus → (∀ u ∈ traps, c ∉ trapRegisters u.1) →
    after.csrs.get c = before.csrs.get c
  status : before.csrs.status.Unwound after.csrs.status (traps.map Prod.fst)

theorem Restored.refl (h : Hart) : Restored h h [] where
  privilege := rfl
  registers := rfl
  config := rfl
  cycles := rfl
  saved := nofun
  words := fun _ _ _ => rfl
  status := .refl _

/-- The registers that describe the traps of one mode do not describe those of another. -/
theorem not_mem_trapRegisters {p q : Privilege} (distinct : p ≠ q) :
    Csr.mepc.atLevel p ∉ trapRegisters q ∧ Csr.mcause.atLevel p ∉ trapRegisters q ∧
      Csr.mtval.atLevel p ∉ trapRegisters q := by
  revert distinct
  cases p <;> cases q <;> decide

theorem trapRegister_ne_mstatus (level : Privilege) :
    Csr.mepc.atLevel level ≠ Csr.mstatus ∧ Csr.mcause.atLevel level ≠ Csr.mstatus ∧
      Csr.mtval.atLevel level ≠ Csr.mstatus := by
  cases level <;> decide

theorem get_trapReturn (h : Hart) (level : Privilege) {c : Csr} (ne : c ≠ Csr.mstatus) :
    (h.trapReturn level).csrs.get c = h.csrs.get c :=
  CsrFile.get_setStatus_ne ne _ _

theorem tsr_deliver (h : Hart) (t : Trap) :
    (h.deliver t).csrs.status.tsr = h.csrs.status.tsr := by
  rw [show (h.deliver t).csrs.status = _ from saveTrap_status h t _]
  exact bit_entered_out (Status.not_mem_entryPositions_of_le (by decide) _)

/-- One more trap around the others, and the return from it. -/
theorem Restored.around {h after : Hart} {t : Trap} {traps : List (Privilege × Trap)}
    (s : Sound h) (unlocked : h.csrs.status.tsr = false) (here : t.epc = h.registers.pc)
    (rises : h.privilege ≤ h.handler t.cause) (inner : Restored (h.deliver t) after traps)
    (others : ∀ u ∈ traps, h.handler t.cause ≠ u.1) :
    ∃ back, after.return? (h.handler t.cause) = some back ∧
      Restored h back ((h.handler t.cause, t) :: traps) := by
  have entered : (h.deliver t).csrs.status = Hart.entered h.csrs.status _ h.privilege :=
    saveTrap_status h t _
  have status := inner.status
  rw [entered] at status
  have other_levels : ∀ l ∈ traps.map Prod.fst, h.handler t.cause ≠ l := by
    intro l hl
    obtain ⟨u, hu, rfl⟩ := List.mem_map.mp hl
    exact others u hu
  obtain ⟨from_here, status⟩ := status.around other_levels rises s.mprv
  -- What describes this trap is still as it was stored: the others are described elsewhere.
  obtain ⟨epc_ne, cause_ne, tval_ne⟩ := trapRegister_ne_mstatus (h.handler t.cause)
  have epc := inner.words _ epc_ne fun u hu => (not_mem_trapRegisters (others u hu)).1
  have cause := inner.words _ cause_ne fun u hu => (not_mem_trapRegisters (others u hu)).2.1
  have tval := inner.words _ tval_ne fun u hu => (not_mem_trapRegisters (others u hu)).2.2
  have may : after.mayReturn (h.handler t.cause) = true := by
    have privilege : after.privilege = h.handler t.cause := inner.privilege
    have tsr : after.csrs.status.tsr = false :=
      (inner.status.high (by decide)).trans ((tsr_deliver h t).trans unlocked)
    simp only [mayReturn, privilege, tsr, Bool.and_false, Bool.not_false, Bool.and_true,
      Bool.not_eq_true', decide_eq_false_iff_not]
    exact Nat.lt_irrefl _
  refine ⟨after.trapReturn (h.handler t.cause), if_pos may, ?_⟩
  constructor
  case privilege => exact from_here
  case registers =>
    have pc : after.csrs.get (Csr.mepc.atLevel (h.handler t.cause)) = h.registers.pc :=
      epc.trans ((saveTrap_epc h t _).trans here)
    simp only [trapReturn, inner.registers, pc]
    rfl
  case config => exact inner.config
  case cycles => exact inner.cycles
  case saved =>
    intro u hu
    rcases List.mem_cons.mp hu with rfl | hu
    case inl =>
      rw [get_trapReturn _ _ epc_ne, get_trapReturn _ _ cause_ne, get_trapReturn _ _ tval_ne]
      exact ⟨epc.trans (saveTrap_epc h t _), cause.trans (saveTrap_cause h t _),
        tval.trans (saveTrap_tval h t _)⟩
    case inr =>
      obtain ⟨epc_ne, cause_ne, tval_ne⟩ := trapRegister_ne_mstatus u.1
      rw [get_trapReturn _ _ epc_ne, get_trapReturn _ _ cause_ne, get_trapReturn _ _ tval_ne]
      exact inner.saved u hu
  case words =>
    intro c ne out
    obtain ⟨out_here, out_inside⟩ := List.forall_mem_cons.mp out
    rw [get_trapReturn _ _ ne, inner.words c ne out_inside]
    exact get_saveTrap_out h t _ out_here
  case status =>
    rw [show (after.trapReturn (h.handler t.cause)).csrs.status = _ from
      CsrFile.status_setStatus _ _]
    exact status

theorem Nested.restored {h inner : Hart} {traps : List (Privilege × Trap)}
    (nested : Nested h traps inner) (s : Sound h) (unlocked : h.csrs.status.tsr = false) :
    ∃ after, inner.unwind (traps.map Prod.fst) = some after ∧ Restored h after traps := by
  induction nested with
  | none h => exact ⟨h, rfl, .refl h⟩
  | @trap h entered inner t traps takes higher nested ih =>
    obtain ⟨rfl, here, rises⟩ := takes.eq_deliver
    have unlocked' : (h.deliver t).csrs.status.tsr = false := (tsr_deliver h t).trans unlocked
    obtain ⟨after, unwound, restored⟩ := ih (s.deliver rises) unlocked'
    have others : ∀ u ∈ traps, h.handler t.cause ≠ u.1 := by
      intro u hu same
      have lower : h.handler t.cause < u.1 := higher u hu
      rw [same] at lower
      exact Nat.lt_irrefl _ lower
    obtain ⟨back, returns, restored⟩ := restored.around s unlocked here rises others
    refine ⟨back, ?_, restored⟩
    show (do (← inner.unwind (traps.map Prod.fst)).return? (h.handler t.cause)) = some back
    rw [unwound]
    exact returns

/-- From any state that can be reached with TSR clear: after nested traps every return
succeeds, and the hart is where it was, with the interrupts of every mode enabled as before
and MPRV as it was. -/
theorem nested_traps_return {h inner : Hart} {traps : List (Privilege × Trap)}
    (reachable : h.Reachable) (unlocked : h.csrs.status.tsr = false)
    (nested : Nested h traps inner) :
    ∃ after, inner.unwind (traps.map Prod.fst) = some after ∧ Restored h after traps ∧
      (∀ level, after.csrs.status.ie level = h.csrs.status.ie level) ∧
      after.csrs.status.mprv = h.csrs.status.mprv := by
  obtain ⟨after, unwound, restored⟩ := nested.restored reachable.sound unlocked
  exact ⟨after, unwound, restored, restored.status.ie, restored.status.mprv⟩

/-- A hart that left illegal instructions to the supervisor and went to user mode. -/
def delegated : Hart :=
  let mmu := Mmu.ofProgram [0x73, 0x50, 0x22, 0x30, 0x73, 0x00, 0x20, 0x30]
  (((Hart.init ⟨0, 0, false, true⟩).step mmu).2.1.step mmu).2.1

/-- In user mode it meets an illegal instruction, and in the handler a breakpoint, which is for
machine mode. -/
theorem nested_traps_return_of_two :
    delegated.privilege = .user ∧ ∃ t u inner after,
      Nested delegated [(.supervisor, t), (.machine, u)] inner ∧
        inner.unwind [.supervisor, .machine] = some after ∧
        Restored delegated after [(.supervisor, t), (.machine, u)] := by
  have user : delegated.privilege = .user := by decide +kernel
  have reachable : delegated.Reachable := .step _ (.step _ (.start _))
  have unlocked : delegated.csrs.status.tsr = false := by decide +kernel
  obtain ⟨outer, h_outer⟩ : ∃ outer,
      outer = delegated.deliver (delegated.raise .illegalInstruction 0) := ⟨_, rfl⟩
  obtain ⟨inner, h_inner⟩ : ∃ inner, inner = outer.deliver (outer.raise .breakpoint 0) := ⟨_, rfl⟩
  have first : Takes delegated (delegated.raise .illegalInstruction 0) outer :=
    h_outer ▸ .exception _ _
  have second : Takes outer (outer.raise .breakpoint 0) inner := h_inner ▸ .exception _ _
  have supervisor : outer.privilege = .supervisor := by
    rw [h_outer]
    decide +kernel
  have machine : inner.privilege = .machine := by
    rw [h_inner, h_outer]
    decide +kernel
  have nested : Nested delegated [(outer.privilege, delegated.raise .illegalInstruction 0),
      (inner.privilege, outer.raise .breakpoint 0)] inner := by
    refine .trap first ?_ (.trap second nofun (.none inner))
    intro u hu
    obtain rfl := List.mem_singleton.mp hu
    rw [supervisor, machine]
    show Privilege.supervisor < Privilege.machine
    decide
  rw [supervisor, machine] at nested
  obtain ⟨after, unwound, restored, -⟩ := nested_traps_return reachable unlocked nested
  exact ⟨user, _, _, inner, after, nested, unwound, restored⟩

end Hart
end Rv32
