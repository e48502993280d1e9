/-
# `Rv32.Proofs.Checked.Step` — a step of a hart

A step is checked in the order in which it is taken.  Each parcel is fetched, and the bits
are put together and decoded; the instruction computes, or uses a control register; what it
does to memory is checked part by part, in the context of its accesses; and a trap is
delivered.

No step panics if the devices are where the map says and there is a cache for the hart, and
then the devices still are where the map says (`step_eq`).
-/
import Rv32.Proofs.Checked.Hart
import Rv32.Proofs.Checked.Instruction
import Rv32.Proofs.Checked.Mmu
import Rv32.Proofs.Hart.Parts

namespace Rv32.Checked

open CheckedAttempt

/-! ## Control registers -/

/-- Whether the hart may read a control register, or write it. -/
def mayUse (h : Hart) (c : Csr) (writing : Bool) : Checked Bool := do
  let required ← requiredPrivilege c
  let own ← fieldOf h.privilege
  let readOnly ← isReadOnly c
  let s ← status h.csrs
  return !decide (own.rank < required.rank) && !(writing && readOnly) &&
    !(c == Csr.satp && h.privilege == .supervisor && s.tvm)

/-- The upper half of a counter. -/
def high (d : Dword) : Checked Word := do return (d >>> (← amount 64 32)).setWidth 32

def readCsr (h : Hart) (clint : Clint) (c : Csr) : Checked Word :=
  match c.role with
  | .cyclesHigh => high h.cycles
  | .timeHigh => high clint.time
  | .status view => do return (← stored h.csrs Csr.mstatus) &&& Csr.statusView view
  | .enabled view => do return (← stored h.csrs Csr.mie) &&& Csr.interruptView view
  | .pending view => do return (← pending h clint) &&& Csr.interruptView view
  | .cyclesLow | .timeLow | .hartId | .identity | .float => return h.readCsr clint c
  | .exceptionDelegation | .interruptDelegation _ | .vector | .returnAddress | .translation
  | .storage => stored h.csrs c

/-- A counter after its upper half is written. -/
def withHigh (d : Dword) (value : Word) : Checked Dword := do
  return (d &&& 0xFFFFFFFF#64) ||| (value.setWidth 64 <<< (← amount 64 32))

/-- The hart with a word stored for a control register. -/
def storeIn (h : Hart) (c : Csr) (value : Word) : Checked Hart := do
  return { h with csrs := ← store h.csrs c value }

/-- The hart with some bits of a control register stored. -/
def storeMasked (h : Hart) (c : Csr) (value mask : Word) : Checked Hart := do
  storeIn h c (((← stored h.csrs c) &&& ~~~mask) ||| (value &&& mask))

def writeCsr (h : Hart) (c : Csr) (value : Word) : Checked Hart := do
  if ← isReadOnly c then return h
  else
    match c.role with
    | .cyclesHigh => return { h with cycles := ← withHigh h.cycles value }
    | .status view =>
      let s ← written (← status h.csrs) value (Csr.statusView view)
      return { h with csrs := ← setStatus h.csrs s }
    | .enabled view => storeMasked h Csr.mie value (Csr.interruptsUpTo view)
    | .pending view => storeMasked h Csr.mip value (Csr.pendingWritable view)
    | .exceptionDelegation => storeIn h c (value &&& Csr.delegatableExceptions)
    | .interruptDelegation level => storeIn h c (value &&& Csr.delegatableInterrupts level)
    | .vector => storeIn h c (TrapVector.written ⟨← stored h.csrs c⟩ value).bits
    | .returnAddress => storeIn h c (value &&& ~~~1#32)
    | .cyclesLow | .float => return h.writeCsr c value
    | .timeLow | .timeHigh | .hartId | .identity | .translation | .storage => storeIn h c value

/-- Whether a write makes remembered translations wrong. -/
def writeFlushes (h : Hart) (c : Csr) (value : Word) : Checked Bool := do
  match c.role with
  | .translation => return true
  | .status _ =>
    let old ← status h.csrs
    let new ← status (← writeCsr h c value).csrs
    return old.sum != new.sum || old.mxr != new.mxr
  | _ => return false

def useCsr (h : Hart) (bits : Word) (length : Instruction.Length) (op : CsrOp) (rd : Reg)
    (operand : CsrOperand) (c : Csr) : CheckedAttempt Trap Mmu Hart := do
  let writing := Hart.csrWrites op operand
  let may ← check (mayUse h c writing)
  if !may then
    throw (h.illegal bits)
  else
    let mmu ← get
    let old ← check (readCsr h mmu.memory.clint c)
    if writing then
      let value := Hart.csrResult op old (h.csrOperand operand)
      let flushes ← check (writeFlushes h c value)
      let h' ← check (writeCsr h c value)
      if flushes then
        modify (·.invalidate h.config.id)
        return h'.finish length rd old
      else
        return h'.finish length rd old
    else
      return h.finish length rd old

theorem mayUse_eq (h : Hart) (c : Csr) (writing : Bool) :
    mayUse h c writing = .ok (h.mayUse c writing) := by
  have hrank : (PrivilegeField.ofPrivilege h.privilege).rank = h.privilege.rank := by
    cases h.privilege <;> rfl
  simp only [mayUse, requiredPrivilege_eq, fieldOf_eq, isReadOnly_eq, status_eq, ok_bind, hrank]
  rfl

theorem high_eq (d : Dword) : high d = .ok (Dword.high d) := by
  rw [high, amount_eq (by decide)]
  rfl

theorem withHigh_eq (d : Dword) (value : Word) :
    withHigh d value = .ok (Dword.setHigh d value) := by
  have hmask := mask_toNat d (show 0xFFFFFFFF = 2 ^ 32 - 1 from rfl) (by decide)
  have hlow : d &&& 0xFFFFFFFF#64 = (Dword.low d).setWidth 64 :=
    BitVec.eq_of_toNat_eq (hmask.trans (BitVec.toNat_setWidth_of_le (by decide)).symm)
  rw [withHigh, amount_eq (by decide), hlow]
  exact congrArg Except.ok (low_or_high value (Dword.low d))

theorem storeIn_eq (h : Hart) (c : Csr) (value : Word) :
    storeIn h c value = .ok (h.store c value) := by
  rw [storeIn, store_eq]
  rfl

theorem storeMasked_eq (h : Hart) (c : Csr) (value mask : Word) :
    storeMasked h c value mask = .ok (h.storeMasked c value mask) := by
  rw [storeMasked, stored_eq, ok_bind, storeIn_eq]
  rfl

theorem readCsr_eq (h : Hart) (clint : Clint) (c : Csr) :
    readCsr h clint c = .ok (h.readCsr clint c) := by
  unfold readCsr Hart.readCsr
  cases c.role <;> simp only [high_eq, stored_eq, pending_eq, ok_bind] <;> rfl

theorem writeCsr_eq (h : Hart) (c : Csr) (value : Word) :
    writeCsr h c value = .ok (h.writeCsr c value) := by
  unfold writeCsr Hart.writeCsr
  rw [isReadOnly_eq, ok_bind]
  split
  · rfl
  · cases c.role <;>
      simp only [withHigh_eq, stored_eq, status_eq, written_eq, setStatus_eq, storeIn_eq,
        storeMasked_eq, ok_bind] <;> rfl

theorem writeFlushes_eq (h : Hart) (c : Csr) (value : Word) :
    writeFlushes h c value = .ok (h.writeFlushes c value) := by
  unfold writeFlushes Hart.writeFlushes
  cases c.role <;> simp only [status_eq, writeCsr_eq, ok_bind] <;> rfl

theorem useCsr_safe (h : Hart) (bits : Word) (length : Instruction.Length) (op : CsrOp)
    (rd : Reg) (operand : CsrOperand) (c : Csr) :
    Safe Ready (useCsr h bits length op rd operand c)
      (h.useCsr bits length op rd operand c) := by
  unfold useCsr Hart.useCsr
  refine .check (mayUse_eq h c _) (.ite (fun _ => .throw _) fun _ => .bind .get fun mmu => ?_)
  refine .check (readCsr_eq h mmu.memory.clint c) (.ite (fun _ => ?_) fun _ => .pure _)
  refine .check (writeFlushes_eq h c _) (.check (writeCsr_eq h c _) ?_)
  exact .ite (fun _ => .bind (.modify fun _ hm => hm) fun _ => .pure _) fun _ => .pure _

/-! ## Instructions -/

/-- The context of accesses in a mode. -/
def context (h : Hart) (privilege : Privilege) : Checked AccessContext := do
  let s ← status h.csrs
  return {
    hart := h.config.id
    privilege
    satp := ← stored h.csrs Csr.satp
    sum := s.sum
    mxr := s.mxr
    misaligned := h.config.misaligned }

/-- The context of a load or store. -/
def dataContext (h : Hart) : Checked AccessContext := do
  let s ← status h.csrs
  if h.privilege = .machine ∧ s.mprv then context h (← mpp s)
  else context h h.privilege

/-- The width and the address of what an instruction loads or stores. -/
def accessOf (h : Hart) : Instruction → Option (Width × Word)
  | .load op _ rs1 offset => some (op.width, h.dataAddress rs1 offset)
  | .store op _ rs1 offset => some (op.width, h.dataAddress rs1 offset)
  | .loadFloat .single _ rs1 offset | .storeFloat .single _ rs1 offset =>
    some (.word, h.dataAddress rs1 offset)
  | .loadFloat .double _ rs1 offset | .storeFloat .double _ rs1 offset =>
    some (.dword, h.dataAddress rs1 offset)
  | .amo _ _ rs1 _ | .loadReserved _ rs1 | .storeConditional _ rs1 _ =>
    some (.word, h.registers.x rs1)
  | _ => none

/-- What an instruction that loads or stores does before it. -/
def prepare (h : Hart) (i : Instruction) : Checked Unit :=
  match accessOf h i with
  | some (w, address) => do
    discard (dataContext h)
    access w address
  | none => return

/-- Whether the hart may return from a trap handled in a mode. -/
def mayReturn (h : Hart) (level : Privilege) : Checked Bool := do
  let s ← status h.csrs
  return !(decide (h.privilege < level)) &&
    !(level == .supervisor && h.privilege == .supervisor && s.tsr)

/-- Executes an instruction.  There are caches for so many harts. -/
def execute (caches : Nat) (h : Hart) (bits : Word) (length : Instruction.Length)
    (i : Instruction) : CheckedAttempt Trap Mmu (Hart × Completion) := do
  let r := h.registers
  match i with
  | .shiftImm op rd rs1 n =>
    let value ← check (shift op (r.x rs1) n.toNat)
    return (h.finish length rd value, .proceed)
  | .opReg op rd rs1 rs2 =>
    let value ← check (operate op (r.x rs1) (r.x rs2))
    return (h.finish length rd value, .proceed)
  | .floatClass rd rs1 =>
    let value ← check (classMask (r.single rs1))
    return (h.finish length rd value, .proceed)
  | .trapReturn level =>
    let may ← check (mayReturn h level)
    let h' ← check (trapReturn h level)
    if may then return (h', .proceed) else throw (h.illegal bits)
  | .csr op rd operand c =>
    let h' ← useCsr h bits length op rd operand c
    return (h', .proceed)
  | i =>
    check (prepare h i)
    (Parts.execute (h := h) bits length i).checked caches

theorem context_eq (h : Hart) (privilege : Privilege) :
    context h privilege = .ok (h.context privilege) := by
  simp only [context, stored_eq, status_eq, ok_bind]
  rfl

theorem dataContext_eq (h : Hart) : dataContext h = .ok h.dataContext := by
  simp only [dataContext, status_eq, mpp_eq, context_eq, ok_bind, Hart.dataContext,
    Hart.dataPrivilege]
  split <;> rfl

theorem prepare_eq (h : Hart) (i : Instruction) : prepare h i = .ok () := by
  rw [prepare]
  cases accessOf h i with
  | none => rfl
  | some a => simp only [dataContext_eq, discard_ok, ok_bind, access_eq]

theorem mayReturn_eq (h : Hart) (level : Privilege) :
    mayReturn h level = .ok (h.mayReturn level) := by
  rw [mayReturn, status_eq]
  rfl

theorem execute_safe {caches : Nat} {h : Hart} (hart : h.config.id < caches) (bits : Word)
    (length : Instruction.Length) (i : Instruction) :
    Safe Ready (execute caches h bits length i) (h.effect i bits length) := by
  unfold execute
  split
  · exact .check (shift_eq _ _ _) (.pure _)
  · exact .check (operate_eq _ _ _) (.pure _)
  · exact .check (classMask_eq _) (.pure _)
  · refine .check (mayReturn_eq h _) (.check (trapReturn_eq h _) ?_)
    exact .ite (fun _ => .pure _) fun _ => .throw _
  · exact .bind (useCsr_safe h bits length _ _ _ _) fun _ => .pure _
  · exact .check (prepare_eq h i) ((Parts.execute bits length i).safe hart)

/-! ## Steps -/

def fetchParcel (caches : Nat) (h : Hart) (address : Word) : CheckedAttempt Trap Mmu Half := do
  check (discard (context h h.privilege))
  let parts : Parts h (h.fetchParcel address) :=
    Parts.accessing .execute address (Parts.fetchParcel h.privilege address)
  parts.checked caches

/-- An instruction from its parcels. -/
def join (high low : Half) : Checked Word := do
  return low.setWidth 32 ||| (high.setWidth 32 <<< (← amount 32 16))

def fetch (caches : Nat) (h : Hart) :
    CheckedAttempt Trap Mmu (Instruction × Word × Instruction.Length) := do
  let low ← fetchParcel caches h h.registers.pc
  let length := Instruction.length low
  let high ← match length with
    | .compressed => pure 0
    | .full => fetchParcel caches h (h.registers.pc + 2)
  let bits ← check (join high low)
  let decoding ← check (ofWord bits)
  let i ← h.decoded bits decoding
  return (i, bits, length)

/-- Fetches and executes an instruction. -/
def attempt (caches : Nat) (h : Hart) : CheckedAttempt Trap Mmu (Hart × Completion) := do
  let (i, bits, length) ← fetch caches h
  execute caches h bits length i

def step (caches : Nat) (h : Hart) (mmu : Mmu) : Checked (StepResult × Hart × Mmu) := do
  match ← attempt caches h.count mmu with
  | (.ok (h', .proceed), mmu) => return (.completed, h', mmu)
  | (.ok (h', .stop), mmu) => return (.stopped, h', mmu)
  | (.error t, mmu) => return (.trapped t, ← takeTrap h.count t mmu)

theorem join_eq (high low : Half) : join high low = .ok (high ++ low) := by
  rw [join, amount_eq (by decide)]
  exact congrArg Except.ok (low_or_high high low)

section
variable {caches : Nat} {h : Hart} (hart : h.config.id < caches)
include hart

theorem fetchParcel_safe (address : Word) :
    Safe Ready (fetchParcel caches h address) (h.fetchParcel address) :=
  .check (by rw [context_eq, discard_ok]) (Parts.safe hart _)

theorem fetch_safe : Safe Ready (fetch caches h) h.fetch := by
  unfold fetch Hart.fetch
  refine .bind (fetchParcel_safe hart _) fun low => ?_
  have hrest (length : Instruction.Length) (high : Half) : Safe Ready
      (do
        let bits ← check (join high low)
        let decoding ← check (ofWord bits)
        let i ← h.decoded bits decoding
        return (i, bits, length) : CheckedAttempt Trap Mmu _)
      (do
        let bits : Word := high ++ low
        let i ← h.decoded bits (Instruction.ofWord bits)
        return (i, bits, length) : Attempt Trap Mmu _) :=
    .check (join_eq high low) (.check (ofWord_eq _) (.bind (.done _) fun _ => .pure _))
  cases Instruction.length low with
  | compressed => exact .bind (.pure 0) fun high => hrest .compressed high
  | full => exact .bind (fetchParcel_safe hart _) fun high => hrest .full high

theorem attempt_safe : Safe Ready (attempt caches h) h.attempt :=
  .bind (fetch_safe hart) fun (i, bits, length) => execute_safe hart bits length i

end

section
variable {caches : Nat} {h : Hart} {mmu : Mmu}

theorem step_eq (hart : h.config.id < caches) (ready : Ready mmu) :
    step caches h mmu = .ok (h.step mmu) ∧ Ready (h.step mmu).2.2 := by
  have hcount : h.count.config.id < caches := hart
  obtain ⟨hrun, hafter⟩ := attempt_safe hcount mmu ready
  rw [step, hrun, ok_bind, Hart.step_eq]
  rcases hattempt : h.count.attempt mmu with ⟨t | ⟨h', _ | _⟩, mmu'⟩
  all_goals rw [hattempt] at hafter
  · refine ⟨?_, Memory.Routable.congr hafter rfl rfl⟩
    simp only [takeTrap_eq, ok_bind]
    rfl
  · exact ⟨rfl, hafter⟩
  · exact ⟨rfl, hafter⟩

theorem checkInterrupts_ready (h : Hart) (ready : Ready mmu) :
    Ready (h.checkInterrupts mmu).2.2 := by
  unfold Hart.checkInterrupts
  split
  · exact ready
  · exact Memory.Routable.congr ready rfl rfl

end

end Rv32.Checked
