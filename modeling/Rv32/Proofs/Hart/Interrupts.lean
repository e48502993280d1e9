/-
# `Rv32.Proofs.Hart.Interrupts` — which interrupt is taken, and how often

An interrupt can be taken if it is pending and enabled and the mode it is delegated to
is above the current one, or is the current one with interrupts enabled.  A check for
interrupts takes the most urgent of those, in its mode, and does nothing if there are none.

Taking one disables the interrupts of the mode that is entered.  So until an instruction
enables them again, whatever becomes pending meanwhile, the next interrupt can only be
taken into a mode above, and there are three modes.
-/
import Mathlib.Data.List.Perm.Subperm
import Rv32.Proofs.Hart.Confinement

namespace Rv32

/-! ## Urgency -/

namespace Interrupt

/-- The place of an interrupt in the order of urgency. -/
def urgency : Interrupt → Nat
  | .machineExternal => 0
  | .machineSoftware => 1
  | .machineTimer => 2
  | .supervisorExternal => 3
  | .supervisorSoftware => 4
  | .supervisorTimer => 5
  | .userExternal => 6
  | .userSoftware => 7
  | .userTimer => 8

theorem byPriority_urgency : byPriority.Pairwise fun i j => i.urgency < j.urgency := by decide

theorem mem_byPriority (i : Interrupt) : i ∈ byPriority := by cases i <;> decide

end Interrupt

/-! ## Interrupts that can be taken -/

/-- The mode an interrupt is delegated to: the supervisor if machine mode says so, and
from there the user if the supervisor says so too. -/
def CsrFile.interruptLevel (f : CsrFile) (i : Interrupt) : Privilege :=
  if (f.get Csr.mideleg).getLsbD i.code = false then .machine
  else if (f.get Csr.sideleg).getLsbD i.code = false then .supervisor
  else .user

namespace Hart

theorem delegatedTo_interrupt (h : Hart) (i : Interrupt) :
    h.delegatedTo (.interrupt i) = h.csrs.interruptLevel i := by
  have machine : delegation .machine (.interrupt i) = Csr.mideleg := rfl
  have supervisor : delegation .supervisor (.interrupt i) = Csr.sideleg := rfl
  simp only [delegatedTo, delegates, machine, supervisor, CsrFile.interruptLevel, Cause.code,
    Bool.not_eq_true']

/-- An interrupt is pending and enabled, and the mode does not keep it waiting. -/
structure Deliverable (h : Hart) (clint : Clint) (i : Interrupt) : Prop where
  pending : (h.pending clint).getLsbD i.code = true
  enabled : (h.csrs.get Csr.mie).getLsbD i.code = true
  mode : h.privilege < h.csrs.interruptLevel i ∨
    h.privilege = h.csrs.interruptLevel i ∧ h.csrs.status.ie h.privilege = true

theorem deliverable_iff {h : Hart} {clint : Clint} {i : Interrupt} :
    h.deliverable clint i = true ↔ h.Deliverable clint i := by
  have bit : (h.pending clint &&& h.csrs.get Csr.mie &&& i.mask != 0) =
      ((h.pending clint).getLsbD i.code && (h.csrs.get Csr.mie).getLsbD i.code) := by
    rw [← BitVec.getLsbD_and]
    exact and_bit _ (by cases i <;> decide)
  simp only [deliverable, bit, delegatedTo_interrupt, Bool.and_eq_true, Bool.or_eq_true,
    decide_eq_true_eq, beq_iff_eq]
  constructor
  · rintro ⟨⟨pending, enabled⟩, above | ⟨here, ie⟩⟩
    · exact ⟨pending, enabled, .inl above⟩
    · exact ⟨pending, enabled, .inr ⟨here, here ▸ ie⟩⟩
  · rintro ⟨pending, enabled, above | ⟨here, ie⟩⟩
    · exact ⟨⟨pending, enabled⟩, .inl above⟩
    · exact ⟨⟨pending, enabled⟩, .inr ⟨here, here ▸ ie⟩⟩

/-- The most urgent of the interrupts that can be taken. -/
structure MostUrgent (h : Hart) (clint : Clint) (i : Interrupt) : Prop where
  deliverable : h.Deliverable clint i
  first : ∀ j, h.Deliverable clint j → j = i ∨ i.urgency < j.urgency

theorem nextInterrupt_eq_none_iff {h : Hart} {clint : Clint} :
    h.nextInterrupt clint = none ↔ ∀ i, ¬h.Deliverable clint i := by
  rw [nextInterrupt, List.find?_eq_none]
  constructor
  · intro none i can
    exact none i (Interrupt.mem_byPriority i) (deliverable_iff.mpr can)
  · intro none i _ can
    exact none i (deliverable_iff.mp can)

/-- An interrupt before the one that is found cannot be taken, and the list goes on with
less urgent ones. -/
theorem mostUrgent_of_nextInterrupt {h : Hart} {clint : Clint} {i : Interrupt}
    (next : h.nextInterrupt clint = some i) : h.MostUrgent clint i := by
  obtain ⟨can, before, after, split, waiting⟩ := List.find?_eq_some_iff_append.mp next
  refine ⟨deliverable_iff.mp can, fun j other => ?_⟩
  have member : j ∈ before ++ i :: after := split ▸ Interrupt.mem_byPriority j
  have sorted : (before ++ i :: after).Pairwise fun i j => i.urgency < j.urgency :=
    split ▸ Interrupt.byPriority_urgency
  rcases List.mem_append.mp member with early | late
  case inl =>
    have waits := waiting j early
    rw [deliverable_iff.mpr other] at waits
    cases waits
  case inr =>
    rcases List.mem_cons.mp late with same | later
    · exact .inl same
    · exact .inr ((List.pairwise_cons.mp (List.pairwise_append.mp sorted).2.1).1 j later)

/-! ## A check for interrupts -/

/-- What a check for interrupts that takes `i` answers. -/
structure Taken (h : Hart) (mmu : Mmu) (i : Interrupt) (answer : Option Trap × Hart × Mmu) :
    Prop where
  trap : answer.1 = some ⟨.interrupt i, h.registers.pc, 0⟩
  hart : InHandler h answer.2.1 ⟨.interrupt i, h.registers.pc, 0⟩ (h.csrs.interruptLevel i)
  /-- Of memory, only the journal changes. -/
  mmu : ∃ event, answer.2.2 = { mmu with memory := mmu.memory.record event }

theorem checkInterrupts_quiet {h : Hart} {mmu : Mmu}
    (quiet : ∀ i, ¬h.Deliverable mmu.memory.clint i) :
    h.checkInterrupts mmu = (none, h, mmu) := by
  rw [checkInterrupts, nextInterrupt_eq_none_iff.mpr quiet]

theorem checkInterrupts_taken {h : Hart} {mmu : Mmu} {i : Interrupt}
    (can : h.Deliverable mmu.memory.clint i) :
    ∃ first, h.MostUrgent mmu.memory.clint first ∧ Taken h mmu first (h.checkInterrupts mmu) := by
  cases next : h.nextInterrupt mmu.memory.clint with
  | none => exact absurd can (nextInterrupt_eq_none_iff.mp next i)
  | some first =>
    have level : h.handler (.interrupt first) = h.csrs.interruptLevel first :=
      delegatedTo_interrupt h first
    have handled : InHandler h (h.deliver (.ofInterrupt first h.registers.pc)) _ _ :=
      deliver_inHandler (nextInterrupt_rises next)
    refine ⟨first, mostUrgent_of_nextInterrupt next, ?_⟩
    rw [checkInterrupts, next]
    exact ⟨rfl, level ▸ handled, h.delivery _, rfl⟩

/-! ## Checks with no instruction in between -/

/-- What a check for interrupts finds: the pending bits that are stored by then, and what
memory and the core-local interruptor have come to. -/
structure Moment where
  pending : Word
  mmu : Mmu

/-- The hart and the answer of a check at some moment. -/
def checkAt (h : Hart) (moment : Moment) : Option Trap × Hart :=
  let (taken, after, _) := (h.store Csr.mip moment.pending).checkInterrupts moment.mmu
  (taken, after)

/-- The interrupts taken in checks one after the other, each with its mode. -/
def interruptsTaken (h : Hart) : List Moment → List (Privilege × Trap)
  | [] => []
  | moment :: later =>
    let (taken, after) := h.checkAt moment
    (taken.toList.map fun t => (after.privilege, t)) ++ after.interruptsTaken later

/-- Interrupts of the current mode are disabled. -/
def Masked (h : Hart) : Prop := h.csrs.status.ie h.privilege = false

/-- Whether or not a check takes an interrupt, interrupts of the current mode that were
disabled stay so; one that is taken enters no lower mode, and if they were disabled, a
higher one. -/
theorem checkAt_cases (h : Hart) (moment : Moment) :
    (∃ t after, h.checkAt moment = (some t, after) ∧ after.Masked ∧
      h.privilege ≤ after.privilege ∧ (h.Masked → h.privilege < after.privilege)) ∨
    ∃ after, h.checkAt moment = (none, after) ∧ after.privilege = h.privilege ∧
      (h.Masked → after.Masked) := by
  have status : (h.store Csr.mip moment.pending).csrs.status = h.csrs.status :=
    CsrFile.status_set_ne (by decide) _ _
  by_cases quiet : ∀ i, ¬(h.store Csr.mip moment.pending).Deliverable moment.mmu.memory.clint i
  case pos =>
    refine .inr ⟨h.store Csr.mip moment.pending, ?_, rfl, fun masked => ?_⟩
    · rw [checkAt, checkInterrupts_quiet quiet]
    · exact (congrArg (Status.ie · h.privilege) status).trans masked
  case neg =>
    simp only [not_forall, not_not] at quiet
    obtain ⟨_, can⟩ := quiet
    obtain ⟨first, urgent, taken⟩ := checkInterrupts_taken can
    have level := taken.hart.privilege
    refine .inl ⟨_, _, Prod.ext taken.trap rfl, ?_, ?_, fun masked => ?_⟩
    · exact (congrArg (Status.ie _) level).trans taken.hart.ie
    · exact level ▸ taken.hart.rises
    · refine level ▸ urgent.deliverable.mode.resolve_right fun here => ?_
      have ie : h.csrs.status.ie h.privilege = true := by rw [← status]; exact here.2
      rw [masked] at ie
      cases ie

/-- Every interrupt is taken into a higher mode than the one before, the first into a
higher mode than the current one unless its interrupts are enabled. -/
theorem interruptsTaken_rise (moments : List Moment) (h : Hart) :
    ((h.interruptsTaken moments).map Prod.fst).Pairwise (· < ·) ∧
      (h.Masked → ∀ level ∈ (h.interruptsTaken moments).map Prod.fst, h.privilege < level) := by
  induction moments generalizing h with
  | nil => exact ⟨.nil, fun _ => nofun⟩
  | cons moment later ih =>
    obtain ⟨t, after, taken, masked, -, above⟩ | ⟨after, none, privilege, masked⟩ :=
      h.checkAt_cases moment
    case inl =>
      obtain ⟨rise, high⟩ := ih after
      simp only [interruptsTaken, taken, Option.toList_some, List.map_cons, List.map_nil,
        List.cons_append, List.nil_append, List.pairwise_cons, List.forall_mem_cons]
      refine ⟨⟨high masked, rise⟩, fun before => ⟨above before, fun level later => ?_⟩⟩
      exact Nat.lt_trans (above before) (high masked level later)
    case inr =>
      obtain ⟨rise, high⟩ := ih after
      simp only [interruptsTaken, none, Option.toList_none, List.map_nil, List.nil_append]
      exact ⟨rise, fun before => privilege ▸ high (masked before)⟩

end Hart

/-- There are three modes. -/
theorem Privilege.length_le_three {levels : List Privilege} (rise : levels.Pairwise (· < ·)) :
    levels.length ≤ 3 := by
  have nodup : levels.Nodup := rise.imp fun {p q} lt same => Nat.ne_of_lt lt (congrArg rank same)
  have all : levels ⊆ [.user, .supervisor, .machine] := by
    intro level _
    cases level <;> decide
  exact (nodup.subperm all).length_le

/-- Interrupts are taken exactly, and never again in the same mode.

A check does nothing if and only if no interrupt can be taken, and otherwise takes the most
urgent one in its mode.  In checks with no instruction in between, whatever the pending bits
and the core-local interruptor do, the modes of the interrupts taken increase. -/
theorem Hart.checkInterrupts_exact (h : Hart) :
    (∀ mmu : Mmu,
      (h.checkInterrupts mmu = (none, h, mmu) ↔ ∀ i, ¬h.Deliverable mmu.memory.clint i) ∧
      ∀ i, h.Deliverable mmu.memory.clint i → ∃ first,
        h.MostUrgent mmu.memory.clint first ∧ Taken h mmu first (h.checkInterrupts mmu)) ∧
    ∀ moments : List Moment,
      ((h.interruptsTaken moments).map Prod.fst).Pairwise (· < ·) ∧
        (h.interruptsTaken moments).length ≤ 3 := by
  refine ⟨fun mmu => ⟨⟨fun nothing i can => ?_, checkInterrupts_quiet⟩,
    fun i => checkInterrupts_taken⟩, fun moments => ?_⟩
  · obtain ⟨first, -, taken⟩ := checkInterrupts_taken can
    have none := taken.trap
    rw [nothing] at none
    cases none
  · have rise := (interruptsTaken_rise moments h).1
    refine ⟨rise, ?_⟩
    rw [← List.length_map Prod.fst]
    exact Privilege.length_le_three rise

/-- A hart in user mode, with one interrupt delegated to each mode, takes them in turn. -/
example :
    let csrs := (((CsrFile.init.set Csr.mie 0xB00).set Csr.mideleg 0x300).set Csr.sideleg
      0x100).set Csr.mstatus 1
    let h : Hart := { Hart.init ⟨0, 0, false, true⟩ with csrs, privilege := .user }
    let moment (pending : Word) : Hart.Moment := ⟨pending, Mmu.ofProgram []⟩
    (h.interruptsTaken [moment 0x100, moment 0x100, moment 0x300, moment 0xB00]).map
        (fun taken => (taken.1, taken.2.cause)) =
      [(.user, .interrupt .userExternal), (.supervisor, .interrupt .supervisorExternal),
        (.machine, .interrupt .machineExternal)] := by
  decide +kernel

end Rv32
