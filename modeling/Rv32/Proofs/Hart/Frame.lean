/-
# `Rv32.Proofs.Hart.Frame` — all that an instruction leaves alone

An instruction that is carried out, and does not trap, changes what it is there to change
and nothing else.  What that is can be read off the instruction: the register it names,
whether it goes elsewhere than on, where it stores.

`Framed` says so of the hart and `MemoryFramed` of memory.  There are few ways in which an
instruction ends, and each keeps the frame of the hart.  That most instructions do not store,
and do not drop remembered pages, is read off their parts.
-/
import Rv32.Proofs.Hart.Csr
import Rv32.Proofs.Hart.Executed
import Rv32.Proofs.Hart.Parts
import Rv32.Proofs.Mmu.Footprint
import Rv32.Proofs.Register.File

namespace Rv32

open Attempt

/-! ## What an instruction is there to change -/

namespace Instruction

/-- Whether an instruction goes elsewhere than to the next one. -/
def redirects (r : RegisterFile) : Instruction → Bool
  | .jal .. | .jalr .. | .trapReturn _ => true
  | .branch condition rs1 rs2 _ => condition.holds (r.x rs1) (r.x rs2)
  | _ => false

/-- A jump goes elsewhere, and a branch that is taken. -/
theorem redirects_of_target? {i : Instruction} {r : RegisterFile} {target : Word}
    (goes : i.target? r = some target) : i.redirects r = true := by
  cases i with
  | jal rd offset => rfl
  | jalr rd rs1 offset => rfl
  | branch condition rs1 rs2 offset =>
    rw [target?] at goes
    split at goes
    case isTrue holds => exact holds
    case isFalse => cases goes
  | _ => cases goes

theorem redirects_of_returns {i : Instruction} (returns : i.returns = true) (r : RegisterFile) :
    i.redirects r = true := by
  cases i with
  | trapReturn level => rfl
  | _ => cases returns

/-- Whether an instruction may drop what is remembered for its hart. -/
def dropsPages : Instruction → Bool
  | .csr .. | .fenceTranslations .. => true
  | _ => false

end Instruction

def FloatWidth.width : FloatWidth → Width
  | .single => .word
  | .double => .dword

/-- What a storing instruction accesses. -/
def Hart.storesTo? (h : Hart) : Instruction → Option (Width × Word)
  | .store op _ rs1 offset => some (op.width, h.dataAddress rs1 offset)
  | .storeFloat width _ rs1 offset => some (width.width, h.dataAddress rs1 offset)
  | .amo _ _ rs1 _ | .storeConditional _ rs1 _ => some (.word, h.registers.x rs1)
  | _ => none

/-! ## Registers -/

/-- Of the registers, only the destination has changed, and register 0 has not. -/
structure RegisterFile.Framed (before after : RegisterFile) (destination : Option Destination) :
    Prop where
  zero : after.x Reg.zero = before.x Reg.zero
  ints : ∀ r, after.x r ≠ before.x r → destination = some (.int r)
  floats : ∀ r, after.f r ≠ before.f r → destination = some (.float r)

namespace RegisterFile.Framed

variable {file after : RegisterFile} {destination : Option Destination}

theorem refl : Framed file file destination :=
  ⟨rfl, fun _ changed => absurd rfl changed, fun _ changed => absurd rfl changed⟩

theorem setX (rd : Reg) (value : Word) : Framed file (file.setX rd value) (some (.int rd)) where
  zero := zero_setX file rd value
  ints := by
    intro r changed
    rw [x_setX] at changed
    by_cases same : r = rd
    · rw [same]
    · exact absurd (if_neg fun both => same both.1) changed
  floats := by
    intro r changed
    have same : (file.setX rd value).f r = file.f r :=
      congrArg (Vector.get · r.toFin) (floats_setX file rd value)
    exact absurd same changed

theorem setF (rd : Reg) (value : Dword) : Framed file (file.setF rd value) (some (.float rd)) where
  zero := rfl
  ints := fun r changed => absurd rfl changed
  floats := by
    intro r changed
    rw [f_setF] at changed
    by_cases same : r = rd
    · rw [same]
    · exact absurd (if_neg same) changed

/-- The program counter is not one of these registers. -/
theorem withPc (framed : Framed file after destination) (pc : Word) :
    Framed file { after with pc } destination :=
  ⟨framed.zero, framed.ints, framed.floats⟩

end RegisterFile.Framed

/-! ## The hart -/

namespace Hart

/-- From one hart to another, nothing has changed that an instruction is not there to
change. -/
structure Framed (h : Hart) (i : Instruction) (length : Instruction.Length) (h' : Hart) : Prop where
  config : h'.config = h.config
  registers : RegisterFile.Framed h.registers h'.registers i.destination?
  pc : i.redirects h.registers = false → h'.registers.pc = h.registers.pc + length.bytes
  cycles : h'.cycles ≠ h.cycles → i.usesCsr = true
  csrs : ∀ c, h'.csrs.get c ≠ h.csrs.get c →
    i.usesCsr = true ∨ i.returns = true ∧ c = Csr.mstatus
  privilege : h'.privilege ≠ h.privilege → i.returns = true

namespace Framed

variable {h h' : Hart} {i : Instruction} {length : Instruction.Length} {rd : Reg}

/-- An instruction that computes with registers. -/
theorem computed {registers : RegisterFile}
    (framed : RegisterFile.Framed h.registers registers i.destination?)
    (pc : i.redirects h.registers = false → registers.pc = h.registers.pc + length.bytes) :
    Framed h i length { h with registers } where
  config := rfl
  registers := framed
  pc := pc
  cycles := fun changed => absurd rfl changed
  csrs := fun _ changed => absurd rfl changed
  privilege := fun changed => absurd rfl changed

theorem finish (writes : i.destination? = some (.int rd)) (value : Word) :
    Framed h i length (h.finish length rd value) := by
  refine computed ?_ fun _ => ?_
  · rw [writes]
    exact (RegisterFile.Framed.setX rd value).withPc _
  · exact congrArg (· + length.bytes) (RegisterFile.pc_setX _ _ _)

theorem finishDouble (writes : i.destination? = some (.float rd)) (value : Dword) :
    Framed h i length (h.finishDouble length rd value) := by
  refine computed ?_ fun _ => rfl
  rw [writes]
  exact (RegisterFile.Framed.setF rd value).withPc _

theorem skip : Framed h i length (h.skip length) :=
  computed (RegisterFile.Framed.refl.withPc _) fun _ => rfl

theorem goto {registers : RegisterFile}
    (framed : RegisterFile.Framed h.registers registers i.destination?)
    (redirects : i.redirects h.registers = true) : Framed h i length { h with registers } :=
  computed framed fun goesOn => absurd redirects (by rw [goesOn]; decide)

/-- The register that a control register instruction writes, after the control register. -/
theorem wrote (csr : i.usesCsr = true) (writes : i.destination? = some (.int rd)) (c : Csr)
    (value old : Word) : Framed h i length ((h.writeCsr c value).finish length rd old) := by
  obtain ⟨config, registers, privilege⟩ := writeCsr_frame h c value
  have finished : Framed (h.writeCsr c value) i length _ := finish writes old
  exact {
    config
    registers := registers ▸ finished.registers
    pc := registers ▸ finished.pc
    cycles := fun _ => csr
    csrs := fun _ _ => .inl csr
    privilege := fun changed => absurd privilege changed }

theorem trapReturn (returns : i.returns = true) (level : Privilege) :
    Framed h i length (h.trapReturn level) where
  config := rfl
  registers := RegisterFile.Framed.refl.withPc _
  pc := fun goesOn =>
    absurd (Instruction.redirects_of_returns returns h.registers) (by rw [goesOn]; decide)
  cycles := fun changed => absurd rfl changed
  csrs := by
    intro c changed
    refine .inr ⟨returns, ?_⟩
    by_contra other
    exact changed (CsrFile.get_setStatus_ne other _ _)
  privilege := fun _ => returns

end Framed

/-- Every way in which an instruction ends keeps its frame. -/
theorem Executed.framed {h h' : Hart} {i : Instruction} {length : Instruction.Length} {mmu : Mmu}
    (e : Executed h i length h' mmu) : Framed h i length h' := by
  cases e with
  | int value _ writes => exact .finish writes value
  | float value _ writes => exact .finishDouble writes value
  | skipped _ => exact .skip
  | @jumped rd target _ writes goes _ =>
    refine .goto ?_ (Instruction.redirects_of_target? goes)
    have framed : RegisterFile.Framed { h.registers with pc := target } _ (some (.int rd)) :=
      .setX rd (h.registers.pc + length.bytes)
    rw [writes]
    exact ⟨framed.zero, framed.ints, framed.floats⟩
  | branched _ goes _ =>
    exact .goto (RegisterFile.Framed.refl.withPc _) (Instruction.redirects_of_target? goes)
  | wrote c value old csr writes _ _ => exact .wrote csr writes c value old
  | returned level _ returns _ => exact .trapReturn returns level

/-! ## Memory -/

/-- From one unit to another, nothing has changed of main memory and of the remembered pages
that an instruction of a hart is not there to change. -/
structure MemoryFramed (h : Hart) (i : Instruction) (mmu mmu' : Mmu) : Prop where
  unwritten : h.storesTo? i = none →
    ∀ index q, mmu'.memory.ramByte? index q = mmu.memory.ramByte? index q
  written : ∀ w address, h.storesTo? i = some (w, address) →
    ∃ ps, Mmu.Footprint h.dataContext w address mmu mmu' ps
  others : ∀ hart, hart ≠ h.config.id → mmu'.cache.of hart = mmu.cache.of hart
  kept : i.dropsPages = false → mmu.cache.KeepsKinds mmu'.cache

section
variable (h : Hart) (i : Instruction) (bits : Word) (length : Instruction.Length)

/-- An instruction that does not store has no part that writes, and one that is not there to
drop pages has no part that does. -/
theorem avoids_effect (effect : Parts.Effect) (stores : effect = .write → h.storesTo? i = none)
    (drops : effect = .forget → i.dropsPages = false) :
    (Parts.execute (h := h) bits length i).Avoids effect := by
  -- The last case is that of the instructions that only compute: they have no parts.
  cases i with
  | ebreak => exact ⟨trivial, trivial⟩
  | jal rd offset => exact ⟨trivial, fun _ => trivial⟩
  | jalr rd rs1 offset => exact ⟨trivial, fun _ => trivial⟩
  | branch condition rs1 rs2 offset => exact ⟨trivial, fun _ => trivial⟩
  | trapReturn level => exact ⟨trivial, trivial⟩
  | fenceTranslations address space =>
    cases effect with
    | write => exact ⟨⟨nofun, fun _ => trivial⟩, trivial⟩
    | forget => cases drops rfl
  | csr op rd operand c =>
    cases effect with
    | write =>
      have writes : (Parts.useCsr (h := h) bits length op rd operand c).Avoids .write :=
        ⟨trivial, trivial, fun _ => ⟨⟨⟨nofun, fun _ => trivial⟩, trivial⟩, trivial⟩⟩
      exact ⟨writes, fun _ => trivial⟩
    | forget => cases drops rfl
  | load op rd rs1 offset => exact ⟨Parts.avoids_load .., fun _ => trivial⟩
  | store op rs2 rs1 offset =>
    cases effect with
    | write => cases stores rfl
    | forget => exact ⟨Parts.avoids_store .., fun _ => trivial⟩
  | loadFloat width rd rs1 offset =>
    cases width with
    | single => exact ⟨Parts.avoids_load .., fun _ => trivial⟩
    | double => exact ⟨Parts.avoids_load .., fun _ => trivial⟩
  | storeFloat width rs2 rs1 offset =>
    cases effect with
    | write => cases stores rfl
    | forget =>
      cases width with
      | single => exact ⟨Parts.avoids_store .., fun _ => trivial⟩
      | double => exact ⟨Parts.avoids_store .., fun _ => trivial⟩
  | amo op rd rs1 rs2 =>
    cases effect with
    | write => cases stores rfl
    | forget => exact ⟨Parts.avoids_update .., fun _ => trivial⟩
  | loadReserved rd rs1 => exact ⟨Parts.avoids_loadReserved .., fun _ => trivial⟩
  | storeConditional rd rs1 rs2 =>
    cases effect with
    | write => cases stores rfl
    | forget => exact ⟨Parts.avoids_storeConditional .., fun _ => trivial⟩
  | _ => trivial

/-- Where an instruction goes on with what an access gave, memory is as the access left it. -/
theorem footprint_accessing {α : Type} {work : Attempt Fault Mmu α} {mmu : Mmu} {w : Width}
    {address : Word} (next : α → Hart)
    (footprint : Yields work mmu
      (fun _ after => ∃ ps, Mmu.Footprint h.dataContext w address mmu after ps) fun _ _ => True) :
    Yields (h.accessing .write address work >>= fun a =>
        (pure (next a, .proceed) : Attempt Trap Mmu (Hart × Completion))) mmu
      (fun _ after => ∃ ps, Mmu.Footprint h.dataContext w address mmu after ps) fun _ _ => True :=
  Yields.bind (.adapt footprint) fun _ _ written => .pure written

theorem footprint_effect (mmu : Mmu) {w : Width} {address : Word}
    (stores : h.storesTo? i = some (w, address)) :
    Yields (h.effect i bits length) mmu
      (fun _ after => ∃ ps, Mmu.Footprint h.dataContext w address mmu after ps)
      fun _ _ => True := by
  cases i with
  | store op rs2 rs1 offset =>
    cases stores
    exact footprint_accessing h _ (Mmu.write_footprint _)
  | storeFloat width rs2 rs1 offset =>
    cases stores
    cases width with
    | single => exact footprint_accessing h _ (Mmu.write_footprint _)
    | double => exact footprint_accessing h _ (Mmu.write_footprint _)
  | amo op rd rs1 rs2 =>
    cases stores
    exact footprint_accessing h _ (Mmu.update_footprint _)
  | storeConditional rd rs1 rs2 =>
    cases stores
    exact footprint_accessing h _ (Mmu.storeConditional_footprint _)
  | _ => cases stores

end

/-! ## The frame of an instruction -/

/-- An instruction that is carried out, of any kind and in any state, changes the hart and
memory only in what it is there to change. -/
theorem execute_framed {h h' : Hart} {i : Instruction} {bits : Word} {length : Instruction.Length}
    {mmu mmu' : Mmu} {completion : Completion}
    (run : h.execute i bits length mmu = (.ok completion, h', mmu')) :
    Framed h i length h' ∧ MemoryFramed h i mmu mmu' := by
  rw [execute_eq, keep_eq_ok] at run
  have after : (h.effect i bits length mmu).2 = mmu' := congrArg Prod.snd run
  refine ⟨((effect_ends h mmu i bits length).ok run).framed, ?_⟩
  exact {
    unwritten := by
      intro none
      rw [← after]
      exact Parts.ram_of_avoids _ (avoids_effect h i bits length .write (fun _ => none) nofun) mmu
    written := fun w address stores => (footprint_effect h i bits length mmu stores).ok run
    others := by
      intro hart other
      rw [← after]
      exact (Parts.execute bits length i).cache_of_ne other.symm mmu
    kept := by
      intro keeps
      rw [← after]
      exact Parts.kinds_of_avoids _ (avoids_effect h i bits length .forget nofun fun _ => keeps)
        mmu }

/-- An atomic addition, which gives the word it found and changes the word in memory. -/
theorem execute_framed_amo :
    let h := { init ⟨0, 0x1000, false, true⟩ with
      registers := ((RegisterFile.init 0x1000).setX 5 0x80000FFC).setX 6 7 }
    let i : Instruction := .amo .add 7 5 6
    ∃ h' completion mmu', h.execute i 0 .full Mmu.onePage = (.ok completion, h', mmu') ∧
      Framed h i .full h' ∧ MemoryFramed h i Mmu.onePage mmu' ∧
      mmu'.memory.ramByte? 0 0x80000FFC = some 7 := by
  intro h i
  have succeeds : (h.execute i 0 .full Mmu.onePage).1.isOk = true := by decide +kernel
  have stored : (h.execute i 0 .full Mmu.onePage).2.2.memory.ramByte? 0 0x80000FFC = some 7 := by
    decide +kernel
  rcases run : h.execute i 0 .full Mmu.onePage with ⟨e | completion, h', mmu'⟩
  · rw [run] at succeeds
    cases succeeds
  · rw [run] at stored
    obtain ⟨framed, memory⟩ := execute_framed run
    exact ⟨h', completion, mmu', rfl, framed, memory, stored⟩

end Hart
end Rv32
