/-
# `Rv32.Proofs.Hart.Effect` — instructions as functions of the hart

An instruction works on the hart in place.  What is proved about instructions is easier to say of
a function: one that gives the hart after the instruction, or a trap and no hart at all
(`Hart.effect`).  The two agree (`execute_eq`), and a function that gives no hart with a trap can
agree with the work in place only because whatever an instruction raises, it raises before it
has changed anything of the hart: a jump looks at its target before it writes its link, a
control register is checked before it is written, and what is loaded is in hand before a register
is.  So the hart that a failing instruction leaves behind is the one from before
(`execute_unchanged`, `attempt_unchanged`).

The agreement is put together from the pieces that instructions consist of.
-/
import Rv32.Hart.Step
import Rv32.Proofs.Attempt
import Rv32.Proofs.Hart.Csr

namespace Rv32

namespace Hart

/-! ## Pieces of instructions -/

/-- The hart with an integer register written, past the instruction. -/
def finish (h : Hart) (length : Instruction.Length) (rd : Reg) (value : Word) : Hart :=
  { h with registers := (h.registers.setX rd value).advance length.bytes }

/-- The hart with a single written, past the instruction. -/
def finishSingle (h : Hart) (length : Instruction.Length) (rd : Reg) (value : Word) : Hart :=
  { h with registers := (h.registers.setSingle rd value).advance length.bytes }

/-- The hart with a floating-point register written, past the instruction. -/
def finishDouble (h : Hart) (length : Instruction.Length) (rd : Reg) (value : Dword) : Hart :=
  { h with registers := (h.registers.setF rd value).advance length.bytes }

/-- The hart past an instruction that writes no register. -/
def skip (h : Hart) (length : Instruction.Length) : Hart :=
  { h with registers := h.registers.advance length.bytes }

/-- The hart after a jump. -/
def jump (h : Hart) (length : Instruction.Length) (rd : Reg) (target : Word) :
    Except Trap Hart :=
  if Alignment.half.admits target then
    let next := h.registers.pc + length.bytes
    .ok { h with registers := { h.registers with pc := target }.setX rd next }
  else .error (h.raise .instructionAddressMisaligned target)

/-- The hart after a branch. -/
def branchTo (h : Hart) (length : Instruction.Length) (taken : Bool) (target : Word) :
    Except Trap Hart :=
  if !taken then .ok (h.skip length)
  else if Alignment.half.admits target then
    .ok { h with registers := { h.registers with pc := target } }
  else .error (h.raise .instructionAddressMisaligned target)

/-- The hart after it used a control register. -/
def useCsr (h : Hart) (bits : Word) (length : Instruction.Length) (op : CsrOp) (rd : Reg)
    (operand : CsrOperand) (c : Csr) : Attempt Trap Mmu Hart := do
  let writing := csrWrites op operand
  if !h.mayUse c writing then
    throw (h.illegal bits)
  else
    let old := h.readCsr (← get).memory.clint c
    if writing then
      let value := csrResult op old (h.csrOperand operand)
      if h.writeFlushes c value then
        modify (·.invalidate h.config.id)
      return (h.writeCsr c value).finish length rd old
    else
      return h.finish length rd old

/-! ## Instructions -/

/-- The hart after an instruction, unless the instruction traps. -/
def effect (h : Hart) (i : Instruction) (bits : Word) (length : Instruction.Length) :
    Attempt Trap Mmu (Hart × Completion) :=
  let r := h.registers
  let proceed (h : Hart) : Attempt Trap Mmu (Hart × Completion) := return (h, .proceed)
  match i with
  | .opImm op rd rs1 imm =>
    proceed (h.finish length rd (op.apply (r.x rs1) (Instruction.immediate imm)))
  | .shiftImm op rd rs1 amount => proceed (h.finish length rd (op.apply (r.x rs1) amount))
  | .auipc rd imm => proceed (h.finish length rd (r.pc + Instruction.upper imm))
  | .lui rd imm => proceed (h.finish length rd (Instruction.upper imm))
  | .opReg op rd rs1 rs2 => proceed (h.finish length rd (op.apply (r.x rs1) (r.x rs2)))
  | .jal rd offset => do
    proceed (← h.jump length rd (r.pc + Instruction.jumpOffset offset))
  | .jalr rd rs1 offset => do
    proceed (← h.jump length rd ((r.x rs1 + Instruction.immediate offset) &&& ~~~1#32))
  | .branch condition rs1 rs2 offset => do
    proceed (← h.branchTo length (condition.holds (r.x rs1) (r.x rs2))
      (r.pc + Instruction.branchOffset offset))
  | .load op rd rs1 offset => do
    let value ← h.loadFrom op.width (h.dataAddress rs1 offset)
    proceed (h.finish length rd (op.extend value))
  | .store op rs2 rs1 offset => do
    h.storeTo op.width (h.dataAddress rs1 offset) ((r.x rs2).setWidth _)
    proceed (h.skip length)
  | .fence | .fenceI | .waitForInterrupt => proceed (h.skip length)
  | .ecall => throw (h.raise (callException h.privilege) 0)
  | .ebreak =>
    if h.config.haltOnBreak then return (h.skip length, .stop)
    else throw (h.raise .breakpoint r.pc)
  | .breakHint => return (h.skip length, if h.config.haltOnBreak then .stop else .proceed)
  | .trapReturn level =>
    if h.mayReturn level then proceed (h.trapReturn level) else throw (h.illegal bits)
  | .fenceTranslations _ _ =>
    if h.mayFence then do
      modify (·.invalidate h.config.id)
      proceed (h.skip length)
    else throw (h.illegal bits)
  | .csr op rd operand c => do proceed (← h.useCsr bits length op rd operand c)
  | .loadFloat .single rd rs1 offset => do
    proceed (h.finishSingle length rd (← h.loadFrom .word (h.dataAddress rs1 offset)))
  | .loadFloat .double rd rs1 offset => do
    proceed (h.finishDouble length rd (← h.loadFrom .dword (h.dataAddress rs1 offset)))
  | .storeFloat .single rs2 rs1 offset => do
    h.storeTo .word (h.dataAddress rs1 offset) (Dword.low (r.f rs2))
    proceed (h.skip length)
  | .storeFloat .double rs2 rs1 offset => do
    h.storeTo .dword (h.dataAddress rs1 offset) (r.f rs2)
    proceed (h.skip length)
  | .floatArith op rd rs1 rs2 _ =>
    proceed (h.finishSingle length rd (Single.arith op (r.single rs1) (r.single rs2)))
  | .floatSqrt rd rs1 _ => proceed (h.finishSingle length rd (Single.sqrt (r.single rs1)))
  | .floatPick op rd rs1 rs2 =>
    proceed (h.finishSingle length rd (Single.pick op (r.single rs1) (r.single rs2)))
  | .floatCompare op rd rs1 rs2 =>
    proceed (h.finish length rd
      (Word.ofBool (Single.compare op (r.single rs1) (r.single rs2))))
  | .floatToInt sign rd rs1 rounding =>
    proceed (h.finish length rd (Single.toWord sign rounding (r.single rs1)))
  | .floatOfInt sign rd rs1 _ => proceed (h.finishSingle length rd (Single.ofWord sign (r.x rs1)))
  | .floatMoveOut rd rs1 => proceed (h.finish length rd (Dword.low (r.f rs1)))
  | .floatMoveIn rd rs1 => proceed (h.finishSingle length rd (r.x rs1))
  | .floatClass rd rs1 => proceed (h.finish length rd (Single.classMask (r.single rs1)))
  | .fused op rd rs1 rs2 rs3 _ =>
    proceed (h.finishSingle length rd
      (Single.fused op (r.single rs1) (r.single rs2) (r.single rs3)))
  | .amo op rd rs1 rs2 => do
    let address := r.x rs1
    let old ← h.accessing .write address
      (Mmu.update h.dataContext address fun old => op.apply old (r.x rs2))
    proceed (h.finish length rd old)
  | .loadReserved rd rs1 => do
    let address := r.x rs1
    let value ← h.accessing .read address (Mmu.loadReserved h.dataContext address)
    proceed (h.finish length rd value)
  | .storeConditional rd rs1 rs2 => do
    let address := r.x rs1
    let stored ← h.accessing .write address
      (Mmu.storeConditional h.dataContext address (r.x rs2))
    proceed (h.finish length rd (Word.ofBool !stored))

/-! ## Fetching -/

/-- A decoded instruction, or the exception of bits that are none. -/
def decoded (h : Hart) (bits : Word) : Except DecodeError Instruction → Except Trap Instruction
  | .ok i => .ok i
  | .error _ => .error (h.illegal bits)

/-- What is fetched at the program counter: the instruction, its bits and its length. -/
def fetch (h : Hart) : Attempt Trap Mmu (Instruction × Word × Instruction.Length) := do
  let low ← h.fetchParcel h.registers.pc
  let length := Instruction.length low
  let high ← match length with
    | .compressed => pure 0
    | .full => h.fetchParcel (h.registers.pc + 2)
  let bits : Word := high ++ low
  let i ← h.decoded bits (Instruction.ofWord bits)
  return (i, bits, length)

/-- The hart after the instruction that is fetched, unless that traps. -/
def attempt (h : Hart) : Attempt Trap Mmu (Hart × Completion) := do
  let (i, bits, length) ← h.fetch
  h.effect i bits length

/-! ## The hart that is left behind -/

/-- What work in place ends with that is said by a function of the hart: with the hart that the
function gives, or, if it gives none, with the hart from before. -/
def keep {α : Type} (h : Hart) : Except Trap (Hart × α) × Mmu → Except Trap α × Hart × Mmu
  | (.ok (h', a), mmu) => (.ok a, h', mmu)
  | (.error t, mmu) => (.error t, h, mmu)

theorem keep_error {α : Type} {h : Hart} {result : Except Trap (Hart × α) × Mmu} {t : Trap}
    (failed : (h.keep result).1 = .error t) : (h.keep result).2.1 = h := by
  obtain ⟨_ | ⟨h', a⟩, mmu⟩ := result
  · rfl
  · cases failed

theorem keep_eq_ok {α : Type} {h h' : Hart} {result : Except Trap (Hart × α) × Mmu} {a : α}
    {mmu : Mmu} : h.keep result = (.ok a, h', mmu) ↔ result = (.ok (h', a), mmu) := by
  obtain ⟨_ | ⟨_, _⟩, _⟩ := result <;> simp [keep, and_assoc, and_comm]

end Hart

namespace Execution

open Attempt

/-! ## Looking at the hart -/

/-- Work for which a hart is only looked at, said of memory alone. -/
def Looks {α : Type} (h : Hart) (work : Execution α) (plain : Attempt Trap Mmu α) : Prop :=
  ∀ mmu, work (h, mmu) = ((plain mmu).1, h, (plain mmu).2)

theorem bind_hart {β : Type} (next : Hart → Execution β) (h : Hart) (mmu : Mmu) :
    (hart >>= next) (h, mmu) = next h (h, mmu) := rfl

namespace Looks

variable {α β : Type} {h : Hart} {work : Execution α} {plain : Attempt Trap Mmu α}

theorem pure (a : α) : Looks h (Pure.pure a) (Pure.pure a) := fun _ => rfl

theorem reach (work : Hart → Attempt Trap Mmu α) : Looks h (reach work) (work h) := fun _ => rfl

theorem hart {next : Hart → Execution α} (looks : Looks h (next h) plain) :
    Looks h (Execution.hart >>= next) plain := looks

theorem bind {next : α → Execution β} {plainNext : α → Attempt Trap Mmu β}
    (looks : Looks h work plain) (looksOn : ∀ a, Looks h (next a) (plainNext a)) :
    Looks h (work >>= next) (plain >>= plainNext) := by
  intro mmu
  rw [bind_run, bind_run, looks mmu]
  rcases plain mmu with ⟨t | a, mmu'⟩
  · rfl
  · exact looksOn a mmu'

/-- What fails while the hart is only looked at leaves it as it is.  Otherwise what follows
begins with the same hart. -/
theorem keep {next : α → Execution β} {plainNext : α → Attempt Trap Mmu (Hart × β)}
    (looks : Looks h work plain)
    (goesOn : ∀ a mmu, next a (h, mmu) = h.keep (plainNext a mmu)) (mmu : Mmu) :
    (work >>= next) (h, mmu) = h.keep ((plain >>= plainNext) mmu) := by
  rw [bind_run, bind_run, looks mmu]
  rcases plain mmu with ⟨t | a, mmu'⟩
  · rfl
  · exact goesOn a mmu'

end Looks

/-! ## Pieces of instructions -/

section
variable {h : Hart} {mmu : Mmu} {length : Instruction.Length}

theorem jump_eq (rd : Reg) (target : Word) :
    jump length rd target (h, mmu) =
      h.keep ((liftM (h.jump length rd target) >>= fun h' =>
        (pure (h', .proceed) : Attempt Trap Mmu (Hart × Completion))) mmu) := by
  unfold jump Hart.jump
  split <;> rfl

theorem branchTo_eq (taken : Bool) (target : Word) :
    branchTo length taken target (h, mmu) =
      h.keep ((liftM (h.branchTo length taken target) >>= fun h' =>
        (pure (h', .proceed) : Attempt Trap Mmu (Hart × Completion))) mmu) := by
  unfold branchTo Hart.branchTo
  split
  · rfl
  · split <;> rfl

/-- The write of a control register drops translations of the same hart as before it. -/
theorem writeCsr_run (c : Csr) (value : Word) :
    writeCsr c value (h, mmu) =
      (.ok (), h.writeCsr c value,
        if h.writeFlushes c value then mmu.invalidate h.config.id else mmu) := by
  simp only [writeCsr]
  rw [bind_hart, bind_run]
  show (if h.writeFlushes c value = true then forget else pure ()) (h.writeCsr c value, mmu) = _
  split
  · show (_, _, mmu.invalidate (h.writeCsr c value).config.id) = _
    rw [(Hart.writeCsr_frame h c value).1]
  · rfl

/-- A control register is looked at before it is written, and whether it may be used before
that. -/
theorem useCsr_eq (bits : Word) (op : CsrOp) (rd : Reg) (operand : CsrOperand) (c : Csr) :
    useCsr bits length op rd operand c (h, mmu) =
      h.keep ((h.useCsr bits length op rd operand c >>= fun h' =>
        (pure (h', .proceed) : Attempt Trap Mmu (Hart × Completion))) mmu) := by
  simp only [useCsr, Hart.useCsr, bind_hart]
  split
  case isTrue => rfl
  case isFalse =>
    split
    case isFalse => rfl
    case isTrue =>
      rw [bind_get, bind_run, writeCsr_run, bind_run, bind_get]
      by_cases flushes : h.writeFlushes c (Hart.csrResult op (h.readCsr mmu.memory.clint c)
        (h.csrOperand operand)) = true
      · rw [if_pos flushes, if_pos flushes]
        rfl
      · rw [if_neg flushes, if_neg flushes]
        rfl

end

/-! ## Instructions -/

/-- An instruction does in place what the function says of it. -/
theorem execute_eq (h : Hart) (i : Instruction) (bits : Word) (length : Instruction.Length)
    (mmu : Mmu) : execute i bits length (h, mmu) = h.keep (h.effect i bits length mmu) := by
  rw [execute, bind_hart]
  cases i with
  | jal rd offset => exact jump_eq ..
  | jalr rd rs1 offset => exact jump_eq ..
  | branch condition rs1 rs2 offset => exact branchTo_eq ..
  | load op rd rs1 offset => exact (Looks.reach _).keep (fun _ _ => rfl) mmu
  | store op rs2 rs1 offset => exact (Looks.reach _).keep (fun _ _ => rfl) mmu
  | ebreak =>
    simp only [Hart.effect]
    split <;> rfl
  | trapReturn level =>
    simp only [Hart.effect]
    split <;> rfl
  | fenceTranslations address space =>
    simp only [Hart.effect]
    split <;> rfl
  | csr op rd operand c => exact useCsr_eq ..
  | loadFloat width rd rs1 offset =>
    cases width with
    | single => exact (Looks.reach _).keep (fun _ _ => rfl) mmu
    | double => exact (Looks.reach _).keep (fun _ _ => rfl) mmu
  | storeFloat width rs2 rs1 offset =>
    cases width with
    | single => exact (Looks.reach _).keep (fun _ _ => rfl) mmu
    | double => exact (Looks.reach _).keep (fun _ _ => rfl) mmu
  | amo op rd rs1 rs2 => exact (Looks.reach _).keep (fun _ _ => rfl) mmu
  | loadReserved rd rs1 => exact (Looks.reach _).keep (fun _ _ => rfl) mmu
  | storeConditional rd rs1 rs2 => exact (Looks.reach _).keep (fun _ _ => rfl) mmu
  | _ => rfl

/-! ## Fetching -/

theorem looks_decoded (h : Hart) (bits : Word) (decoding : Except DecodeError Instruction) :
    Looks h (decoded bits decoding) (liftM (h.decoded bits decoding)) := by
  cases decoding <;> exact fun _ => rfl

theorem looks_fetch (h : Hart) : Looks h fetch h.fetch := by
  refine .hart (.bind (.reach (·.fetchParcel h.registers.pc)) fun low => ?_)
  have rest (length : Instruction.Length) (high : Half) : Looks h
      (do
        let bits : Word := high ++ low
        let i ← decoded bits (Instruction.ofWord bits)
        return (i, bits, length))
      (do
        let bits : Word := high ++ low
        let i ← h.decoded bits (Instruction.ofWord bits)
        return (i, bits, length)) :=
    .bind (looks_decoded h _ _) fun _ => .pure _
  cases Instruction.length low with
  | compressed => exact .bind (.pure 0) fun high => rest .compressed high
  | full => exact .bind (.reach (·.fetchParcel (h.registers.pc + 2))) fun high => rest .full high

/-- Fetching and executing does in place what the function says of it. -/
theorem attempt_eq (h : Hart) (mmu : Mmu) : attempt (h, mmu) = h.keep (h.attempt mmu) :=
  (looks_fetch h).keep (fun (i, bits, length) mmu => execute_eq h i bits length mmu) mmu

end Execution

namespace Hart

theorem execute_eq (h : Hart) (i : Instruction) (bits : Word) (length : Instruction.Length)
    (mmu : Mmu) : h.execute i bits length mmu = h.keep (h.effect i bits length mmu) :=
  Execution.execute_eq h i bits length mmu

/-! ## Traps -/

/-- An instruction that traps leaves the hart behind as it was. -/
theorem execute_unchanged {h : Hart} {i : Instruction} {bits : Word} {length : Instruction.Length}
    {mmu : Mmu} {t : Trap} (failed : (h.execute i bits length mmu).1 = .error t) :
    (h.execute i bits length mmu).2.1 = h := by
  rw [execute_eq] at failed ⊢
  exact keep_error failed

/-- So does one that is not even fetched. -/
theorem attempt_unchanged {h : Hart} {mmu : Mmu} {t : Trap}
    (failed : (Execution.attempt (h, mmu)).1 = .error t) :
    (Execution.attempt (h, mmu)).2.1 = h := by
  rw [Execution.attempt_eq] at failed ⊢
  exact keep_error failed

/-- A step, said with the function of the hart. -/
theorem step_eq (h : Hart) (mmu : Mmu) :
    h.step mmu =
      match h.count.attempt mmu with
      | (.ok (h', .proceed), mmu') => (.completed, h', mmu')
      | (.ok (h', .stop), mmu') => (.stopped, h', mmu')
      | (.error t, mmu') => (.trapped t, h.count.takeTrap t mmu') := by
  rw [step, Execution.attempt_eq]
  rcases h.count.attempt mmu with ⟨t | ⟨h', _ | _⟩, mmu'⟩ <;> rfl

end Hart
end Rv32
