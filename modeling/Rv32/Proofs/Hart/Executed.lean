/-
# `Rv32.Proofs.Hart.Executed` — the few ways in which instructions end

Many instructions differ in what they compute and not in what becomes of the hart.  An
instruction writes its destination and goes on, or only goes on; or it jumps, returns from a
trap, or writes a control register (`Executed`).  If it does none of these it raises an
exception, and for a misaligned instruction only where it jumps to an odd address (`Refused`).

`effect_ends` says so of each instruction.  What is proved about instructions afterwards is
proved by cases on `Executed`, of which there are seven.
-/
import Rv32.Proofs.Hart.Effect
import Rv32.Proofs.Paging.Cache

namespace Rv32

open Attempt

/-! ## What can be read off an instruction -/

/-- A register of one of the two files. -/
inductive Destination where
  | int (r : Reg)
  | float (r : Reg)
deriving DecidableEq, Repr

namespace Instruction

/-- The register that an instruction writes. -/
def destination? : Instruction → Option Destination
  | .opImm _ rd .. | .shiftImm _ rd .. | .auipc rd _ | .lui rd _ | .opReg _ rd .. | .jal rd _
  | .jalr rd .. | .load _ rd .. | .csr _ rd .. | .floatCompare _ rd .. | .floatToInt _ rd ..
  | .floatMoveOut rd _ | .floatClass rd _ | .amo _ rd .. | .loadReserved rd _
  | .storeConditional rd .. => some (.int rd)
  | .loadFloat _ rd .. | .floatArith _ rd .. | .floatSqrt rd .. | .floatPick _ rd ..
  | .floatOfInt _ rd .. | .floatMoveIn rd _ | .fused _ rd .. => some (.float rd)
  | .branch .. | .store .. | .storeFloat .. | .fence | .fenceI | .ecall | .ebreak | .breakHint
  | .trapReturn _ | .waitForInterrupt | .fenceTranslations .. => none

/-- Where a jump goes, and a branch that is taken. -/
def target? (r : RegisterFile) : Instruction → Option Word
  | .jal _ offset => some (r.pc + jumpOffset offset)
  | .jalr _ rs1 offset => some ((r.x rs1 + immediate offset) &&& ~~~1#32)
  | .branch condition rs1 rs2 offset =>
    if condition.holds (r.x rs1) (r.x rs2) then some (r.pc + branchOffset offset) else none
  | _ => none

def usesCsr : Instruction → Bool
  | .csr .. => true
  | _ => false

def returns : Instruction → Bool
  | .trapReturn _ => true
  | _ => false

end Instruction

namespace Hart

/-! ## How an instruction ends -/

/-- A hart after an instruction that did not trap; and what the memory management unit then
has to have forgotten. -/
inductive Executed (h : Hart) (i : Instruction) (length : Instruction.Length) : Hart → Mmu → Prop
  | int {rd : Reg} (value : Word) (mmu : Mmu) : i.destination? = some (.int rd) →
      Executed h i length (h.finish length rd value) mmu
  | float {rd : Reg} (value : Dword) (mmu : Mmu) : i.destination? = some (.float rd) →
      Executed h i length (h.finishDouble length rd value) mmu
  | skipped (mmu : Mmu) : Executed h i length (h.skip length) mmu
  | jumped {rd : Reg} {target : Word} (mmu : Mmu) : i.destination? = some (.int rd) →
      i.target? h.registers = some target → Alignment.half.admits target = true →
      Executed h i length { h with
        registers := { h.registers with pc := target }.setX rd (h.registers.pc + length.bytes) } mmu
  | branched {target : Word} (mmu : Mmu) : i.target? h.registers = some target →
      Alignment.half.admits target = true →
      Executed h i length { h with registers := { h.registers with pc := target } } mmu
  | wrote {rd : Reg} {mmu : Mmu} (c : Csr) (value old : Word) : i.usesCsr = true →
      i.destination? = some (.int rd) → h.mayUse c true = true →
      (h.writeFlushes c value = true → mmu.cache.Forgets h.config.id) →
      Executed h i length ((h.writeCsr c value).finish length rd old) mmu
  | returned (level : Privilege) (mmu : Mmu) : i.returns = true → h.mayReturn level = true →
      Executed h i length (h.trapReturn level) mmu

/-- An exception of the instruction at the program counter. -/
def Raised (h : Hart) (t : Trap) : Prop := ∃ e tval, t = h.raise e tval

/-- An exception of an instruction that was fetched.  It is the one for a misaligned instruction
only if that is where the instruction goes. -/
structure Refused (h : Hart) (i : Instruction) (t : Trap) : Prop where
  raised : h.Raised t
  misaligned : t.cause = .exception .instructionAddressMisaligned →
    ∃ target, i.target? h.registers = some target ∧ Alignment.half.admits target = false

theorem raised (h : Hart) (e : Exception) (tval : Word) : h.Raised (h.raise e tval) :=
  ⟨e, tval, rfl⟩

/-- An instruction, or what is left of it, ends in one of the ways there are. -/
abbrev Ends (h : Hart) (i : Instruction) (length : Instruction.Length) {α : Type}
    (work : Attempt Trap Mmu α) (mmu : Mmu) (hart : α → Hart) : Prop :=
  Yields work mmu (fun a mmu' => Executed h i length (hart a) mmu') fun t _ => h.Refused i t

/-! ## Pieces of instructions -/

section
variable {h : Hart} {i : Instruction} {length : Instruction.Length} {mmu : Mmu}

theorem refused {e : Exception} (other : e ≠ .instructionAddressMisaligned) (tval : Word) :
    h.Refused i (h.raise e tval) where
  raised := h.raised e tval
  misaligned := fun cause => absurd (Cause.exception.inj cause) other

/-- A load or store faults with an exception of its own. -/
theorem ofFault_ne {access : Access} (data : access ≠ .execute) (fault : Fault) :
    Exception.ofFault access fault ≠ .instructionAddressMisaligned := by
  cases access with
  | read => cases fault <;> decide
  | write => cases fault <;> decide
  | execute => exact absurd rfl data

/-- An instruction that goes on with what memory gave it. -/
theorem ends_accessing {α : Type} {access : Access} (data : access ≠ .execute) {address : Word}
    {work : Attempt Fault Mmu α} {next : α → Hart}
    (executed : ∀ a mmu', Executed h i length (next a) mmu') :
    Ends h i length (h.accessing access address work >>= fun a =>
      (pure (next a, .proceed) : Attempt Trap Mmu (Hart × Completion))) mmu Prod.fst := by
  have access : Yields (h.accessing access address work) mmu (fun _ _ => True)
      fun t _ => h.Refused i t :=
    .adapt ((Yields.run work mmu).mono (fun _ _ _ => trivial)
      fun fault _ _ => refused (ofFault_ne data fault) address)
  exact Yields.bind access fun a mmu' _ => .pure (executed a mmu')

/-- An instruction that goes on with what a piece of it has made of the hart. -/
theorem ends_proceed {piece : Attempt Trap Mmu Hart} (ends : Ends h i length piece mmu id) :
    Ends h i length (piece >>= fun h' =>
      (pure (h', .proceed) : Attempt Trap Mmu (Hart × Completion))) mmu Prod.fst :=
  Yields.bind ends fun _ _ executed => .pure executed

theorem ends_jump {rd : Reg} {target : Word} (writes : i.destination? = some (.int rd))
    (goes : i.target? h.registers = some target) :
    Ends h i length (liftM (h.jump length rd target)) mmu id := by
  unfold jump
  split
  case isTrue even => exact .pure (.jumped mmu writes goes even)
  case isFalse odd =>
    exact .throw ⟨h.raised _ _, fun _ => ⟨target, goes, eq_false_of_ne_true odd⟩⟩

theorem ends_branchTo {taken : Bool} {target : Word}
    (goes : taken = true → i.target? h.registers = some target) :
    Ends h i length (liftM (h.branchTo length taken target)) mmu id := by
  unfold branchTo
  split
  case isTrue => exact .pure (.skipped mmu)
  case isFalse leaves =>
    have goes := goes (by simpa using leaves)
    split
    case isTrue even => exact .pure (.branched mmu goes even)
    case isFalse odd =>
      exact .throw ⟨h.raised _ _, fun _ => ⟨target, goes, eq_false_of_ne_true odd⟩⟩

/-- A register is written only where it may be, and after what the write makes wrong was
dropped. -/
theorem ends_useCsr {rd : Reg} (csr : i.usesCsr = true)
    (writes : i.destination? = some (.int rd)) (bits : Word) (op : CsrOp) (operand : CsrOperand)
    (c : Csr) : Ends h i length (h.useCsr bits length op rd operand c) mmu id := by
  simp only [useCsr]
  split
  case isTrue => exact .throw (refused (by decide) bits)
  case isFalse hmay =>
    refine Yields.bind (p := fun _ _ => True) (.get trivial) fun _ mmu' _ => ?_
    split
    case isFalse => exact .pure (.int _ mmu' writes)
    case isTrue writing =>
      rw [writing] at hmay
      have may : h.mayUse c true = true := by simpa using hmay
      split
      case isTrue =>
        refine Yields.bind (p := fun _ mmu => mmu.cache.Forgets h.config.id) (.modify ?_) ?_
        · exact TranslationCache.forgets_invalidate _ _
        · exact fun _ _ forgets => .pure (.wrote c _ _ csr writes may fun _ => forgets)
      case isFalse keeps =>
        exact .pure (.wrote c _ _ csr writes may fun flushes => absurd flushes keeps)

end

/-! ## Instructions -/

theorem effect_ends (h : Hart) (mmu : Mmu) (i : Instruction) (bits : Word)
    (length : Instruction.Length) : Ends h i length (h.effect i bits length) mmu Prod.fst := by
  cases i with
  | opImm op rd rs1 imm => exact .pure (.int _ mmu rfl)
  | shiftImm op rd rs1 amount => exact .pure (.int _ mmu rfl)
  | auipc rd imm => exact .pure (.int _ mmu rfl)
  | lui rd imm => exact .pure (.int _ mmu rfl)
  | opReg op rd rs1 rs2 => exact .pure (.int _ mmu rfl)
  | jal rd offset => exact ends_proceed (ends_jump rfl rfl)
  | jalr rd rs1 offset => exact ends_proceed (ends_jump rfl rfl)
  | branch condition rs1 rs2 offset =>
    exact ends_proceed (ends_branchTo fun holds => if_pos holds)
  | load op rd rs1 offset => exact ends_accessing (by decide) fun _ mmu' => .int _ mmu' rfl
  | store op rs2 rs1 offset => exact ends_accessing (by decide) fun _ mmu' => .skipped mmu'
  | fence => exact .pure (.skipped mmu)
  | fenceI => exact .pure (.skipped mmu)
  | ecall =>
    refine .throw (refused ?_ 0)
    cases h.privilege <;> decide
  | ebreak =>
    simp only [effect]
    split
    · exact .pure (.skipped mmu)
    · exact .throw (refused (by decide) h.registers.pc)
  | breakHint => exact .pure (.skipped mmu)
  | trapReturn level =>
    simp only [effect]
    split
    case isTrue may => exact .pure (.returned level mmu rfl may)
    case isFalse => exact .throw (refused (by decide) bits)
  | waitForInterrupt => exact .pure (.skipped mmu)
  | fenceTranslations address space =>
    simp only [effect]
    split
    · exact Yields.bind (p := fun _ _ => True) (.modify trivial) fun _ mmu' _ =>
        .pure (.skipped mmu')
    · exact .throw (refused (by decide) bits)
  | csr op rd operand c => exact ends_proceed (ends_useCsr rfl rfl bits op operand c)
  | loadFloat width rd rs1 offset =>
    cases width with
    | single => exact ends_accessing (by decide) fun _ mmu' => .float _ mmu' rfl
    | double => exact ends_accessing (by decide) fun _ mmu' => .float _ mmu' rfl
  | storeFloat width rs2 rs1 offset =>
    cases width with
    | single => exact ends_accessing (by decide) fun _ mmu' => .skipped mmu'
    | double => exact ends_accessing (by decide) fun _ mmu' => .skipped mmu'
  | floatArith op rd rs1 rs2 rounding => exact .pure (.float _ mmu rfl)
  | floatSqrt rd rs1 rounding => exact .pure (.float _ mmu rfl)
  | floatPick op rd rs1 rs2 => exact .pure (.float _ mmu rfl)
  | floatCompare op rd rs1 rs2 => exact .pure (.int _ mmu rfl)
  | floatToInt sign rd rs1 rounding => exact .pure (.int _ mmu rfl)
  | floatOfInt sign rd rs1 rounding => exact .pure (.float _ mmu rfl)
  | floatMoveOut rd rs1 => exact .pure (.int _ mmu rfl)
  | floatMoveIn rd rs1 => exact .pure (.float _ mmu rfl)
  | floatClass rd rs1 => exact .pure (.int _ mmu rfl)
  | fused op rd rs1 rs2 rs3 rounding => exact .pure (.float _ mmu rfl)
  | amo op rd rs1 rs2 => exact ends_accessing (by decide) fun _ mmu' => .int _ mmu' rfl
  | loadReserved rd rs1 => exact ends_accessing (by decide) fun _ mmu' => .int _ mmu' rfl
  | storeConditional rd rs1 rs2 => exact ends_accessing (by decide) fun _ mmu' => .int _ mmu' rfl

end Hart
end Rv32
