/-
# `Rv32.Proofs.Checked.Hart` — control registers and traps

Registers that hold a mode hold it as a number of two bits, and modes are numbers where
they are compared or stored.  The bits of the status register are counted from the bit of
the lowest mode on; codes of causes are amounts to shift by, and factors; and a register
of a mode is found by putting the mode's number into that of the register.
-/
import Rv32.Hart.Step
import Rv32.Proofs.Checked.Basic
import Rv32.Proofs.Csr.File

namespace Rv32.Checked

/-! ## Modes -/

/-- The mode field with a given number. -/
def mode (number : Nat) : Checked PrivilegeField :=
  (PrivilegeField.ofNat? number).mapError .privilege

/-- A mode as a field. -/
def fieldOf (p : Privilege) : Checked PrivilegeField := mode p.rank

theorem mode_eq {number : Nat} {b : BitVec 2} (h : number = b.toNat) :
    mode number = .ok (.ofBits b) := by
  have hlt : b.toNat < 4 := b.isLt
  rw [mode, PrivilegeField.ofNat?, h, if_pos hlt, BitVec.ofNat_toNat, BitVec.setWidth_eq]
  rfl

/-- Two bits of a word are the number of a mode. -/
theorem mode_bits (bits : Word) (low : Nat) :
    mode ((bits >>> low) &&& 0b11#32).toNat = .ok (.ofBits (bits.extractLsb' low 2)) :=
  mode_eq (cut_toNat bits low rfl (by decide))

theorem fieldOf_eq (p : Privilege) : fieldOf p = .ok (.ofPrivilege p) := by cases p <;> rfl

/-! ## The status register -/

/-- The position of a mode's bit, where the lowest mode has its bit at a given position. -/
def levelBit (base : Nat) (level : Privilege) : Checked Nat := do
  index 32 (← sum 64 base level.rank)

def ie (s : Status) (level : Privilege) : Checked Bool := do return s.bit (← levelBit 0 level)

def pie (s : Status) (level : Privilege) : Checked Bool := do return s.bit (← levelBit 4 level)

def setIe (s : Status) (level : Privilege) (value : Bool) : Checked Status := do
  return s.setBit (← levelBit 0 level) value

def setPie (s : Status) (level : Privilege) (value : Bool) : Checked Status := do
  return s.setBit (← levelBit 4 level) value

def mpp (s : Status) : Checked Privilege := do
  let low ← index 31 Status.mppPosition
  match (← mode ((s.bits >>> low) &&& 0b11#32).toNat).privilege? with
  | .ok p => return p
  | .error _ => return .user

def pp (s : Status) : Privilege → Checked Privilege
  | .machine => mpp s
  | .supervisor => return s.spp
  | .user => return .user

def setPp (s : Status) (level value : Privilege) : Checked Status :=
  match level with
  | .machine => do return s.setMpp (← fieldOf value)
  | .supervisor => do return s.setSpp (← fieldOf value)
  | .user => return s

/-- The status register when a mode is entered. -/
def entered (s : Status) (target source : Privilege) : Checked Status := do
  let s ← setPie s target (← ie s target)
  let s ← setIe s target false
  setPp s target source

/-- The status register when a mode's handler is left. -/
def left (s : Status) (level : Privilege) : Checked Status := do
  let previous ← pp s level
  let s ← setIe s level (← pie s level)
  let s ← setPie s level true
  let s ← setPp s level .user
  return if previous = .machine then s else s.setMprv false

/-- SPP after a write, which sets it by a field. -/
def writtenSpp (mask merged : Word) (s : Status) : Checked Status :=
  if mask.getLsbD Status.sppPosition then do
    return s.setSpp (← mode (merged.getLsbD Status.sppPosition).toNat)
  else return s

/-- MPP after a write, which sets it by a field. -/
def writtenMpp (mask merged : Word) (s : Status) : Checked Status :=
  if mask.extractLsb' Status.mppPosition 2 ≠ 0 then do
    let low ← index 31 Status.mppPosition
    return s.setMpp (← mode ((merged >>> low) &&& 0b11#32).toNat)
  else return s

/-- The status register after a write. -/
def written (s : Status) (value mask : Word) : Checked Status := do
  let merged := (s.replace mask value).bits
  let s ← writtenSpp mask merged (s.replace (Status.plainMask &&& mask) merged)
  let s ← writtenMpp mask merged s
  return s.settle

theorem levelBit_eq {base : Nat} (h : base ≤ 4) (level : Privilege) :
    levelBit base level = .ok (base + level.rank) := by
  have hrank : level.rank < 4 := level.bits.isLt
  rw [levelBit, sum_eq (by omega), ok_bind, index_eq (by omega)]

theorem ie_eq (s : Status) (level : Privilege) : ie s level = .ok (s.ie level) := by
  rw [ie, levelBit_eq (by decide), Nat.zero_add]
  rfl

theorem pie_eq (s : Status) (level : Privilege) : pie s level = .ok (s.pie level) := by
  rw [pie, levelBit_eq (by decide)]
  rfl

theorem setIe_eq (s : Status) (level : Privilege) (value : Bool) :
    setIe s level value = .ok (s.setIe level value) := by
  rw [setIe, levelBit_eq (by decide), Nat.zero_add]
  rfl

theorem setPie_eq (s : Status) (level : Privilege) (value : Bool) :
    setPie s level value = .ok (s.setPie level value) := by
  rw [setPie, levelBit_eq (by decide)]
  rfl

theorem mpp_eq (s : Status) : mpp s = .ok s.mpp := by
  simp (disch := decide) only [mpp, index_eq, mode_bits, ok_bind, Status.mpp]
  cases (PrivilegeField.ofBits (s.bits.extractLsb' Status.mppPosition 2)).privilege? <;> rfl

theorem pp_eq (s : Status) (level : Privilege) : pp s level = .ok (s.pp level) := by
  cases level with
  | machine => exact mpp_eq s
  | supervisor | user => rfl

theorem setPp_eq (s : Status) (level value : Privilege) :
    setPp s level value = .ok (s.setPp level value) := by
  cases level with
  | machine | supervisor => rw [setPp, fieldOf_eq]; rfl
  | user => rfl

theorem entered_eq (s : Status) (target source : Privilege) :
    entered s target source = .ok (Hart.entered s target source) := by
  simp only [entered, ie_eq, setPie_eq, setIe_eq, setPp_eq, ok_bind]
  rfl

theorem left_eq (s : Status) (level : Privilege) : left s level = .ok (Hart.left s level) := by
  simp only [left, pp_eq, pie_eq, setPie_eq, setIe_eq, setPp_eq, ok_bind]
  rfl

theorem writtenSpp_eq (mask merged : Word) (s : Status) :
    writtenSpp mask merged s = .ok (if mask.getLsbD Status.sppPosition then
      s.setSpp (if merged.getLsbD Status.sppPosition then .supervisor else .user) else s) := by
  rw [writtenSpp]
  split
  · cases merged.getLsbD Status.sppPosition <;> rfl
  · rfl

theorem writtenMpp_eq (mask merged : Word) (s : Status) :
    writtenMpp mask merged s = .ok (if mask.extractLsb' Status.mppPosition 2 ≠ 0 then
      s.setMpp (.ofBits (merged.extractLsb' Status.mppPosition 2)) else s) := by
  rw [writtenMpp, index_eq (by decide), ok_bind, mode_bits]
  split <;> rfl

theorem written_eq (s : Status) (value mask : Word) :
    written s value mask = .ok (s.written value mask) := by
  rw [written, writtenSpp_eq, ok_bind, writtenMpp_eq]
  rfl

/-! ## Numbers of control registers -/

/-- The number of a register, as sixteen bits. -/
def wide (c : Csr) : Half := c.setWidth 16

def requiredPrivilege (c : Csr) : Checked PrivilegeField := do
  mode ((((wide c >>> (← amount 16 8)) &&& 0b11#16).setWidth 8).toNat)

def isReadOnly (c : Csr) : Checked Bool := do
  return (wide c >>> (← amount 16 10)) &&& 0b11#16 == 0b11#16

/-- The counterpart of a trap register in a mode. -/
def atLevel (level : Privilege) (c : Csr) : Checked Csr := do
  return (c &&& 0xFF#12) ||| (BitVec.ofNat 12 level.rank <<< (← amount 16 8))

/-- The place of a register among the stored words. -/
def place (f : CsrFile) (c : Csr) : Checked Nat :=
  index f.words.toArray.size (c.toNat &&& 0xFFF)

def stored (f : CsrFile) (c : Csr) : Checked Word := do
  element f.words.toArray (← place f c)

def store (f : CsrFile) (c : Csr) (value : Word) : Checked CsrFile := do
  discard (place f c)
  return f.set c value

def status (f : CsrFile) : Checked Status := do return ⟨← stored f Csr.mstatus⟩

def setStatus (f : CsrFile) (s : Status) : Checked CsrFile := store f Csr.mstatus s.bits

theorem wide_extract (c : Csr) {low : Nat} (h : low + 2 ≤ 16) :
    (wide c).extractLsb' low 2 = c.extractLsb' low 2 := by
  refine BitVec.eq_of_getLsbD_eq fun i hi => ?_
  have hlt : low + i < 16 := by omega
  simp [wide, hi, hlt]

theorem requiredPrivilege_eq (c : Csr) : requiredPrivilege c = .ok c.requiredPrivilege := by
  have hcut := cut_byte (wide c) 8 (show 3 = 2 ^ 2 - 1 from rfl) (by decide) (by decide)
  rw [wide_extract c (by decide)] at hcut
  rw [requiredPrivilege, amount_eq (by decide)]
  exact mode_eq hcut

theorem isReadOnly_eq (c : Csr) : isReadOnly c = .ok c.isReadOnly := by
  have hcut := cut_toNat (wide c) 10 (show 3 = 2 ^ 2 - 1 from rfl) (by decide)
  rw [wide_extract c (by decide)] at hcut
  rw [isReadOnly, amount_eq (by decide)]
  refine congrArg Except.ok (Bool.eq_iff_iff.mpr ?_)
  rw [Csr.isReadOnly, beq_iff_eq, beq_iff_eq, ← BitVec.toNat_inj, ← BitVec.toNat_inj, hcut]
  rfl

theorem atLevel_eq (level : Privilege) (c : Csr) : atLevel level c = .ok (c.atLevel level) := by
  have hlow := mask_toNat c (show 255 = 2 ^ 8 - 1 from rfl) (by decide)
  rw [atLevel, amount_eq (by decide)]
  refine congrArg Except.ok (BitVec.eq_of_toNat_eq ?_)
  rw [BitVec.toNat_or, hlow, Csr.atLevel, BitVec.toNat_append, BitVec.toNat_append,
    Nat.or_comm, BitVec.toNat_setWidth, BitVec.extractLsb'_toNat]
  cases level <;> rfl

theorem place_eq (f : CsrFile) (c : Csr) : place f c = .ok c.toNat := by
  have hand : c.toNat &&& 0xFFF = c.toNat :=
    (Nat.and_two_pow_sub_one_eq_mod c.toNat 12).trans (Nat.mod_eq_of_lt c.isLt)
  rw [place, hand, index_eq (by simpa using c.isLt)]

theorem stored_eq (f : CsrFile) (c : Csr) : stored f c = .ok (f.get c) := by
  rw [stored, place_eq, ok_bind]
  refine element_eq ?_
  rw [Array.getElem?_eq_getElem (by simpa using c.isLt)]
  rfl

theorem store_eq (f : CsrFile) (c : Csr) (value : Word) :
    store f c value = .ok (f.set c value) := by
  rw [store, place_eq]
  rfl

theorem status_eq (f : CsrFile) : status f = .ok f.status := by
  rw [status, stored_eq]
  rfl

theorem setStatus_eq (f : CsrFile) (s : Status) : setStatus f s = .ok (f.setStatus s) :=
  store_eq f Csr.mstatus s.bits

/-! ## Who handles what -/

/-- The word with the bit of a code set. -/
def bitOf (code : Nat) : Checked Word := do return 1#32 <<< (← amount 32 code)

/-- Whether a mode leaves a cause to the mode below. -/
def delegates (h : Hart) (level : Privilege) (cause : Cause) : Checked Bool := do
  let register := match cause with
    | .exception _ => Csr.medeleg
    | .interrupt _ => Csr.mideleg
  let word ← stored h.csrs (← atLevel level register)
  return (word &&& (← bitOf cause.code)) != 0

def delegatedTo (h : Hart) (cause : Cause) : Checked Privilege := do
  if !(← delegates h .machine cause) then return .machine
  else if !(← delegates h .supervisor cause) then return .supervisor
  else return .user

/-- The mode that handles a cause now. -/
def handler (h : Hart) (cause : Cause) : Checked Privilege := do
  let lowest ← delegatedTo h cause
  match cause with
  | .exception _ => return max lowest h.privilege
  | .interrupt _ => return lowest

theorem code_lt (cause : Cause) : cause.code < 32 := by
  rcases cause with e | i
  · cases e <;> decide
  · cases i <;> decide

theorem bitOf_eq {code : Nat} (h : code < 32) : bitOf code = .ok (1#32 <<< code) := by
  rw [bitOf, amount_eq h]
  rfl

theorem delegates_eq (h : Hart) (level : Privilege) (cause : Cause) :
    delegates h level cause = .ok (h.delegates level cause) := by
  simp only [delegates, atLevel_eq, stored_eq, bitOf_eq (code_lt cause), ok_bind, pure_eq,
    and_bit _ (code_lt cause)]
  cases cause <;> rfl

theorem delegatedTo_eq (h : Hart) (cause : Cause) :
    delegatedTo h cause = .ok (h.delegatedTo cause) := by
  simp only [delegatedTo, delegates_eq, ok_bind, Hart.delegatedTo]
  split
  · rfl
  · split <;> rfl

theorem handler_eq (h : Hart) (cause : Cause) : handler h cause = .ok (h.handler cause) := by
  rw [handler, delegatedTo_eq]
  cases cause <;> rfl

/-! ## Going to handlers, and back -/

/-- The word reported to the handler. -/
def causeWord (cause : Cause) : Checked Word := do
  let top ← index 32 31
  return BitVec.ofNat 32 cause.code ||| if cause.isInterrupt then 1#32 <<< top else 0

/-- Where a trap goes. -/
def target (v : TrapVector) : Cause → Checked Word
  | .interrupt i =>
    if v.vectored then do return v.base + BitVec.ofNat 32 (← product 32 4 i.code)
    else return v.base
  | .exception _ => return v.base

def deliver (h : Hart) (t : Trap) : Checked Hart := do
  let level ← handler h t.cause
  let csrs ← store h.csrs (← atLevel level Csr.mepc) t.epc
  let csrs ← store csrs (← atLevel level Csr.mcause) (← causeWord t.cause)
  let csrs ← store csrs (← atLevel level Csr.mtval) t.tval
  let csrs ← setStatus csrs (← entered (← status csrs) level h.privilege)
  let vector : TrapVector := ⟨← stored csrs (← atLevel level Csr.mtvec)⟩
  let pc ← target vector t.cause
  return { h with csrs, privilege := level, registers := { h.registers with pc } }

def takeTrap (h : Hart) (t : Trap) (mmu : Mmu) : Checked (Hart × Mmu) := do
  return (← deliver h t, { mmu with memory := mmu.memory.record (h.delivery t) })

def trapReturn (h : Hart) (level : Privilege) : Checked Hart := do
  let s ← status h.csrs
  let csrs ← setStatus h.csrs (← left s level)
  let privilege ← pp s level
  let pc ← stored csrs (← atLevel level Csr.mepc)
  return { h with csrs, privilege, registers := { h.registers with pc } }

theorem causeWord_eq (cause : Cause) : causeWord cause = .ok cause.word := rfl

theorem target_eq (v : TrapVector) (cause : Cause) : target v cause = .ok (v.target cause) := by
  cases cause with
  | exception => rfl
  | interrupt i =>
      have hcode : i.code < 32 := code_lt (.interrupt i)
      rw [target, product_eq (by omega), TrapVector.target]
      split <;> rfl

theorem deliver_eq (h : Hart) (t : Trap) : deliver h t = .ok (h.deliver t) := by
  simp only [deliver, handler_eq, atLevel_eq, store_eq, stored_eq, status_eq, setStatus_eq,
    causeWord_eq, entered_eq, target_eq, ok_bind]
  rfl

theorem takeTrap_eq (h : Hart) (t : Trap) (mmu : Mmu) :
    takeTrap h t mmu = .ok (h.takeTrap t mmu) := by
  rw [takeTrap, deliver_eq]
  rfl

theorem trapReturn_eq (h : Hart) (level : Privilege) :
    trapReturn h level = .ok (h.trapReturn level) := by
  have hne : Csr.mepc.atLevel level ≠ Csr.mstatus := by cases level <;> decide
  simp only [trapReturn, stored_eq, status_eq, setStatus_eq, left_eq, pp_eq, atLevel_eq,
    ok_bind, CsrFile.get_setStatus_ne hne]
  rfl

/-! ## Interrupts -/

/-- The interrupts that are pending. -/
def pending (h : Hart) (clint : Clint) : Checked Word := do
  let software ← bitOf Interrupt.machineSoftware.code
  let timer ← bitOf Interrupt.machineTimer.code
  return (← stored h.csrs Csr.mip) |||
    (if clint.software h.config.id then software else 0) |||
    (if clint.compare h.config.id ≤ clint.time then timer else 0)

/-- Whether an interrupt is among those that are pending and enabled, and not kept waiting by
the mode. -/
def deliverable (h : Hart) (waiting : Word) (i : Interrupt) : Checked Bool := do
  let mask ← bitOf i.code
  let target ← delegatedTo h (.interrupt i)
  let enabled ← ie (← status h.csrs) target
  return (waiting &&& mask) != 0 &&
    (decide (h.privilege < target) || (h.privilege == target && enabled))

/-- The first of some interrupts that can be delivered. -/
def firstDeliverable (h : Hart) (waiting : Word) : List Interrupt → Checked (Option Interrupt)
  | [] => return none
  | i :: rest => do
    if ← deliverable h waiting i then return some i else firstDeliverable h waiting rest

def checkInterrupts (h : Hart) (mmu : Mmu) : Checked (Option Trap × Hart × Mmu) := do
  let waiting := (← pending h mmu.memory.clint) &&& (← stored h.csrs Csr.mie)
  match ← firstDeliverable h waiting Interrupt.byPriority with
  | none => return (none, h, mmu)
  | some i =>
    let t := Trap.ofInterrupt i h.registers.pc
    return (some t, ← takeTrap h t mmu)

theorem pending_eq (h : Hart) (clint : Clint) : pending h clint = .ok (h.pending clint) := by
  rw [pending, stored_eq]
  rfl

theorem deliverable_eq (h : Hart) (clint : Clint) (i : Interrupt) :
    deliverable h (h.pending clint &&& h.csrs.get Csr.mie) i = .ok (h.deliverable clint i) := by
  have hcode : i.code < 32 := code_lt (.interrupt i)
  simp only [deliverable, bitOf_eq hcode, delegatedTo_eq, status_eq, ie_eq, ok_bind]
  rfl

theorem firstDeliverable_eq (h : Hart) (clint : Clint) (is : List Interrupt) :
    firstDeliverable h (h.pending clint &&& h.csrs.get Csr.mie) is =
      .ok (is.find? (h.deliverable clint)) := by
  induction is with
  | nil => rfl
  | cons i rest ih =>
      rw [firstDeliverable, deliverable_eq, ok_bind, List.find?_cons, ih]
      cases h.deliverable clint i <;> rfl

theorem checkInterrupts_eq (h : Hart) (mmu : Mmu) :
    checkInterrupts h mmu = .ok (h.checkInterrupts mmu) := by
  simp only [checkInterrupts, pending_eq, stored_eq, firstDeliverable_eq, takeTrap_eq, ok_bind,
    Hart.checkInterrupts, Hart.nextInterrupt]
  cases Interrupt.byPriority.find? (h.deliverable mmu.memory.clint) <;> rfl

end Rv32.Checked
