/-
# `Rv32.Proofs.Hart.Compressed` — abbreviated instructions are executed alike

A 16-bit instruction is decoded as the 32-bit instruction that it abbreviates, and executed as
this is, whatever the state of the hart and of memory.  The length shows in two places only
(`SameButLength`): if the instruction does not jump, the next one is two bytes further on
instead of four, and if it leaves the address of the next one in a register, it is that address.

Whatever an instruction does to memory it has done before its length comes up, so the two runs
are one run up to there (`alike_bind`); what is left is to compare two register files.
-/
import Rv32.Proofs.Hart.Effect
import Rv32.Proofs.Instruction.Compressed.Forms
import Rv32.Proofs.Register.File

namespace Rv32

open Attempt Compressed

/-- The register in which an instruction leaves the address of the next one. -/
def Instruction.link? : Instruction → Option Reg
  | .jal rd _ | .jalr rd _ _ => if rd = Reg.zero then none else some rd
  | _ => none

namespace Hart

/-- Whether an instruction, if it does not trap, goes somewhere else than to the next one. -/
def jumps (h : Hart) : Instruction → Bool
  | .jal _ _ | .jalr _ _ _ => true
  | .branch condition rs1 rs2 _ => condition.holds (h.registers.x rs1) (h.registers.x rs2)
  | _ => false

/-- What a hart has become by an instruction of two bytes, and by the same one of four. -/
structure SameButLength (h : Hart) (i : Instruction) (short full : Hart) : Prop where
  config : short.config = full.config
  csrs : short.csrs = full.csrs
  privilege : short.privilege = full.privilege
  cycles : short.cycles = full.cycles
  floats : short.registers.floats = full.registers.floats
  x : ∀ r, i.link? ≠ some r → short.registers.x r = full.registers.x r
  link : ∀ r, i.link? = some r →
    short.registers.x r = h.registers.pc + 2 ∧ full.registers.x r = h.registers.pc + 4
  jump : h.jumps i = true → short.registers.pc = full.registers.pc
  next : h.jumps i = false →
    short.registers.pc = h.registers.pc + 2 ∧ full.registers.pc = h.registers.pc + 4

/-- Two runs of an instruction, of two and of four bytes: they raise the same trap on the same
hart, or end in the same way, and leave memory and all that belongs to it the same. -/
def Alike (h : Hart) (i : Instruction) (short full : Except Trap Completion × Hart × Mmu) :
    Prop :=
  match short, full with
  | (.ok done₂, h₂, mmu₂), (.ok done₄, h₄, mmu₄) =>
    SameButLength h i h₂ h₄ ∧ done₂ = done₄ ∧ mmu₂ = mmu₄
  | (.error t₂, h₂, mmu₂), (.error t₄, h₄, mmu₄) => t₂ = t₄ ∧ h₂ = h₄ ∧ mmu₂ = mmu₄
  | _, _ => False

section
variable {h : Hart} {i : Instruction} {mmu : Mmu} {α : Type}

/-! ## Pieces of instructions -/

/-- Two instructions begin with the same piece. -/
theorem alike_bind (first : Attempt Trap Mmu α)
    {short full : α → Attempt Trap Mmu (Hart × Completion)}
    (rest : ∀ a mmu', Alike h i (h.keep (short a mmu')) (h.keep (full a mmu'))) :
    Alike h i (h.keep ((first >>= short) mmu)) (h.keep ((first >>= full) mmu)) := by
  rw [bind_run, bind_run]
  rcases first mmu with ⟨t | a, mmu'⟩
  · exact ⟨rfl, rfl, rfl⟩
  · exact rest a mmu'

/-- The register file has been changed, and the next instruction is the one that follows. -/
theorem alike_advance {registers : RegisterFile} (pc : registers.pc = h.registers.pc)
    (link : i.link? = none) (stays : h.jumps i = false) (done : Completion) :
    Alike h i (.ok done, { h with registers := registers.advance 2 }, mmu)
      (.ok done, { h with registers := registers.advance 4 }, mmu) := by
  refine ⟨?_, rfl, rfl⟩
  refine ⟨rfl, rfl, rfl, rfl, rfl, fun _ _ => rfl, fun r hr => ?_, fun hj => ?_, fun _ => ?_⟩
  · rw [link] at hr
    cases hr
  · rw [stays] at hj
    cases hj
  · exact ⟨congrArg (· + 2) pc, congrArg (· + 4) pc⟩

/-- A register is written, if it is not register 0. -/
theorem alike_finish (rd : Reg) (value : Word) (link : i.link? = none) (stays : h.jumps i = false) :
    Alike h i (.ok .proceed, h.finish .compressed rd value, mmu)
      (.ok .proceed, h.finish .full rd value, mmu) :=
  alike_advance (h.registers.pc_setX rd value) link stays .proceed

theorem alike_finishDouble (rd : Reg) (value : Dword) (link : i.link? = none)
    (stays : h.jumps i = false) :
    Alike h i (.ok .proceed, h.finishDouble .compressed rd value, mmu)
      (.ok .proceed, h.finishDouble .full rd value, mmu) :=
  have pc : (h.registers.setF rd value).pc = h.registers.pc := rfl
  alike_advance pc link stays .proceed

theorem alike_skip (link : i.link? = none) (stays : h.jumps i = false) (done : Completion) :
    Alike h i (.ok done, h.skip .compressed, mmu) (.ok done, h.skip .full, mmu) :=
  have pc : h.registers.pc = h.registers.pc := rfl
  alike_advance pc link stays done

theorem alike_jump (rd : Reg) (target : Word)
    (link : i.link? = if rd = Reg.zero then none else some rd)
    (jumps : h.jumps i = true) :
    Alike h i
      (h.keep ((liftM (h.jump .compressed rd target) >>= fun h' =>
        (pure (h', .proceed) : Attempt Trap Mmu (Hart × Completion))) mmu))
      (h.keep ((liftM (h.jump .full rd target) >>= fun h' =>
        (pure (h', .proceed) : Attempt Trap Mmu (Hart × Completion))) mmu)) := by
  rw [bind_run, bind_run, lift_run, lift_run]
  by_cases even : Alignment.half.admits target = true
  case neg =>
    simp only [jump, if_neg even]
    exact ⟨rfl, rfl, rfl⟩
  case pos =>
    simp only [jump, if_pos even]
    refine ⟨⟨rfl, rfl, rfl, rfl, ?_, fun r hr => ?_, fun r hr => ?_, fun _ => ?_, fun hj => ?_⟩,
      rfl, rfl⟩
    · simp only [RegisterFile.floats_setX]
    · rw [link] at hr
      have hne : ¬(r = rd ∧ rd ≠ Reg.zero) := by
        rintro ⟨rfl, hzero⟩
        exact hr (if_neg hzero)
      simp only [RegisterFile.x_setX, if_neg hne]
    · rw [link] at hr
      split at hr
      case isTrue => cases hr
      case isFalse hzero =>
        cases hr
        have hlink : rd = rd ∧ rd ≠ Reg.zero := ⟨rfl, hzero⟩
        rw [RegisterFile.x_setX, RegisterFile.x_setX, if_pos hlink, if_pos hlink]
        exact ⟨rfl, rfl⟩
    · simp only [RegisterFile.pc_setX]
    · rw [jumps] at hj
      cases hj

theorem alike_branch (condition : Condition) (rs1 rs2 : Reg) (offset : BitVec 12)
    (bits bits' : Word) :
    Alike h (.branch condition rs1 rs2 offset)
      (h.keep (h.effect (.branch condition rs1 rs2 offset) bits .compressed mmu))
      (h.keep (h.effect (.branch condition rs1 rs2 offset) bits' .full mmu)) := by
  simp only [effect]
  rw [bind_run, bind_run, lift_run, lift_run]
  cases taken : condition.holds (h.registers.x rs1) (h.registers.x rs2) with
  | false =>
      have stays : h.jumps (.branch condition rs1 rs2 offset) = false := taken
      exact alike_skip rfl stays .proceed
  | true =>
      by_cases even : Alignment.half.admits
          (h.registers.pc + Instruction.branchOffset offset) = true
      case neg =>
        simp only [branchTo, Bool.not_true, Bool.false_eq_true, if_false, if_neg even]
        exact ⟨rfl, rfl, rfl⟩
      case pos =>
        simp only [branchTo, Bool.not_true, Bool.false_eq_true, if_false, if_pos even]
        refine ⟨⟨rfl, rfl, rfl, rfl, rfl, fun _ _ => rfl, fun r hr => ?_, fun _ => rfl,
          fun hj => ?_⟩, rfl, rfl⟩
        · cases hr
        · rw [jumps, taken] at hj
          cases hj

/-! ## Abbreviated instructions -/

/-- An instruction that a form stands for is executed alike in both lengths. -/
theorem execute_alike (h : Hart) (f : Form) (bits bits' : Word) (mmu : Mmu) :
    Alike h f.expansion (h.execute f.expansion bits .compressed mmu)
      (h.execute f.expansion bits' .full mmu) := by
  rw [execute_eq, execute_eq]
  cases f with
  | addi4spn rd size | addi rd imm | li rd imm | addi16sp size | andi rd imm | lui rd imm
  | srli rd amount | srai rd amount | slli rd amount | mv rd rs2 | add rd rs2
  | compute op rd rs2 => exact alike_finish _ _ rfl rfl
  | lw rd rs1 offset => exact alike_bind _ fun value _ => alike_finish _ _ rfl rfl
  | lwsp rd offset => exact alike_bind _ fun value _ => alike_finish _ _ rfl rfl
  | flw rd rs1 offset | fld rd rs1 offset | flwsp rd offset | fldsp rd offset =>
      exact alike_bind _ fun value _ => alike_finishDouble _ _ rfl rfl
  | sw rs2 rs1 offset | fsw rs2 rs1 offset | fsd rs2 rs1 offset | swsp rs2 offset
  | fswsp rs2 offset | fsdsp rs2 offset =>
      exact alike_bind _ fun _ _ => alike_skip rfl rfl .proceed
  | jal offset | j offset => exact alike_jump _ _ rfl rfl
  | jr rs1 | jalr rs1 => exact alike_jump _ _ rfl rfl
  | beqz rs1 offset | bnez rs1 offset => exact alike_branch _ _ _ _ _ _
  | ebreak =>
      simp only [Form.expansion, effect]
      split
      · exact alike_skip rfl rfl .stop
      · exact ⟨rfl, rfl, rfl⟩

end

/-- Halfwords are decoded as what they abbreviate, and those that are not decoded are reserved
or have a second half; and what a halfword abbreviates has a word of 32 bits, as which it is
executed. -/
theorem compressed_alike (c : Half) :
    (∀ i, Instruction.decodeCompressed c = .ok i ↔ Abbreviates c i) ∧
      ((∃ e, Instruction.decodeCompressed c = .error e) ↔ opcode c = 0b11#2 ∨ Reserved c) ∧
      ∀ i, Instruction.decodeCompressed c = .ok i →
        Instruction.decode i.encode = .ok i ∧ ∀ (h : Hart) (mmu : Mmu),
          Alike h i (h.execute i (c.setWidth 32) .compressed mmu)
            (h.execute i i.encode .full mmu) := by
  refine ⟨fun i => decodeCompressed_eq_ok_iff, decodeCompressed_eq_error_iff, ?_⟩
  intro i decoded
  obtain ⟨f, -, -, rfl⟩ := decodeCompressed_eq_ok_iff.mp decoded
  exact ⟨f.decode_expansion, fun h mmu => execute_alike h f _ _ mmu⟩

/-- Register 11 is added to register 10. -/
theorem compressed_alike_add :
    Instruction.decodeCompressed 0x952E#16 = .ok (.opReg .add 10 10 11) ∧
      Instruction.decode 0x00B50533#32 = .ok (.opReg .add 10 10 11) ∧
      ∀ (h : Hart) (mmu : Mmu), Alike h (.opReg .add 10 10 11)
        (h.execute (.opReg .add 10 10 11) 0x952E#32 .compressed mmu)
        (h.execute (.opReg .add 10 10 11) 0x00B50533#32 .full mmu) := by
  have decoded : Instruction.decodeCompressed 0x952E#16 = .ok (.opReg .add 10 10 11) := rfl
  obtain ⟨-, -, runs⟩ := compressed_alike 0x952E#16
  exact ⟨decoded, runs _ decoded⟩

end Hart
end Rv32
