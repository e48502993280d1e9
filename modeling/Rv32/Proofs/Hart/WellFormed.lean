/-
# `Rv32.Proofs.Hart.WellFormed` — what every state of a hart has in common

A hart starts with all registers zero, and nothing it does takes it out of the states a
hart can be in: register 0 holds zero, the program counter and the addresses traps
return to are even, and every control register holds one of its legal values.

The parts depend on each other.  The program counter stays even because a return from a
trap finds an even address, and that address is even because it once was the program
counter or was written through a filter.  With an even program counter all targets of
jumps and branches are even too; so the exception for a misaligned instruction, though
it can be raised by these instructions and by a fetch, never is.
-/
import Rv32.Proofs.Hart.Legal
import Rv32.Proofs.Hart.Translation
import Rv32.Proofs.Hart.Confinement
import Rv32.Proofs.Register.File

namespace Rv32

/-! ## Even words -/

/-- An address where an instruction can begin. -/
def Word.Even (w : Word) : Prop := w.toNat % 2 = 0

namespace Word.Even

theorem iff_getLsbD {w : Word} : Word.Even w ↔ w.getLsbD 0 = false := by
  rw [Word.Even, ← BitVec.testBit_toNat, Nat.testBit_zero, decide_eq_false_iff_not]
  omega

theorem iff_admits {w : Word} : Word.Even w ↔ Alignment.half.admits w = true := by
  simp only [Word.Even, Alignment.admits, Alignment.half, beq_iff_eq]
  rfl

theorem add {v w : Word} (hv : Word.Even v) (hw : Word.Even w) : Word.Even (v + w) := by
  simp only [Word.Even, BitVec.toNat_add] at *
  omega

theorem clear (w : Word) : Word.Even (w &&& ~~~1#32) := by
  rw [iff_getLsbD, BitVec.getLsbD_and]
  exact Bool.and_false _

theorem branchOffset (offset : BitVec 12) : Word.Even (Instruction.branchOffset offset) := by
  rw [iff_getLsbD, Instruction.branchOffset, BitVec.getLsbD_signExtend, BitVec.getLsbD_append]
  rfl

theorem jumpOffset (offset : BitVec 20) : Word.Even (Instruction.jumpOffset offset) := by
  rw [iff_getLsbD, Instruction.jumpOffset, BitVec.getLsbD_signExtend, BitVec.getLsbD_append]
  rfl

theorem bytes (length : Instruction.Length) : Word.Even length.bytes := by cases length <;> rfl

/-- Every handler begins at an even address. -/
theorem target (v : TrapVector) (cause : Cause) : Word.Even (v.target cause) := by
  have hbase : Word.Even v.base := by
    rw [iff_getLsbD, TrapVector.base, BitVec.getLsbD_append]
    rfl
  have hcode : ∀ i : Interrupt, Word.Even (BitVec.ofNat 32 (4 * i.code)) := by
    intro i
    cases i <;> rfl
  cases cause with
  | exception e => exact hbase
  | interrupt i =>
      simp only [TrapVector.target]
      split
      · exact hbase.add (hcode i)
      · exact hbase

end Word.Even

/-! ## Registers -/

/-- Register 0 holds zero, and an instruction can begin at the program counter. -/
structure RegisterFile.Legal (f : RegisterFile) : Prop where
  zero : f.x Reg.zero = 0
  pc : Word.Even f.pc

namespace RegisterFile.Legal

variable {f : RegisterFile}

theorem init {pc : Word} (even : Word.Even pc) : (RegisterFile.init pc).Legal where
  zero := rfl
  pc := even

theorem setX (l : f.Legal) (r : Reg) (value : Word) : (f.setX r value).Legal where
  zero := (f.zero_setX r value).trans l.zero
  pc := by
    rw [pc_setX]
    exact l.pc

theorem setF (l : f.Legal) (r : Reg) (value : Dword) : (f.setF r value).Legal :=
  ⟨l.zero, l.pc⟩

theorem goto (l : f.Legal) {pc : Word} (even : Word.Even pc) : ({ f with pc } : RegisterFile).Legal :=
  ⟨l.zero, even⟩

theorem advance (l : f.Legal) (length : Instruction.Length) : (f.advance length.bytes).Legal :=
  l.goto (l.pc.add (.bytes length))

end RegisterFile.Legal

/-- Not the exception for a misaligned instruction. -/
def Trap.Aligned (t : Trap) : Prop := t.cause ≠ .exception .instructionAddressMisaligned

namespace Hart

open Attempt

/-! ## Instructions -/

section
variable {h : Hart} (l : h.registers.Legal)
include l

theorem legal_finish (length : Instruction.Length) (rd : Reg) (value : Word) :
    (h.finish length rd value).registers.Legal :=
  (l.setX rd value).advance length

/-- Jumps and branches go to even addresses. -/
theorem even_target {i : Instruction} {target : Word} (goes : i.target? h.registers = some target) :
    Word.Even target := by
  cases i with
  | jal rd offset =>
    cases goes
    exact l.pc.add (.jumpOffset offset)
  | jalr rd rs1 offset =>
    cases goes
    exact .clear _
  | branch condition rs1 rs2 offset =>
    rw [Instruction.target?] at goes
    split at goes
    · cases goes
      exact l.pc.add (.branchOffset offset)
    · cases goes
  | _ => cases goes

/-- What an instruction leaves in the registers.  The addresses traps return to matter to the
instructions that return. -/
theorem Executed.legal (returns : ∀ level, Word.Even (h.csrs.get (Csr.mepc.atLevel level)))
    {i : Instruction} {length : Instruction.Length} {h' : Hart} {mmu : Mmu}
    (e : Executed h i length h' mmu) : h'.registers.Legal := by
  cases e with
  | int value _ _ => exact legal_finish l length _ value
  | float value _ _ => exact (l.setF _ value).advance length
  | skipped _ => exact l.advance length
  | jumped _ _ _ even => exact (l.goto (Word.Even.iff_admits.mpr even)).setX _ _
  | branched _ _ even => exact l.goto (Word.Even.iff_admits.mpr even)
  | wrote c value old _ _ _ _ =>
    refine legal_finish ?_ length _ old
    rw [(writeCsr_frame h c value).2.1]
    exact l
  | returned level _ _ _ => exact l.goto (returns level)

/-- It is not refused for the address it goes to. -/
theorem Refused.aligned {i : Instruction} {t : Trap} (refused : h.Refused i t) : t.Aligned := by
  intro cause
  obtain ⟨target, goes, odd⟩ := refused.misaligned cause
  rw [Word.Even.iff_admits.mp (even_target l goes)] at odd
  cases odd

end

/-- Work on the way to a result ends with legal registers, or with a trap that is not for
a misaligned instruction. -/
abbrev EndsLegal {α : Type} (work : Attempt Trap Mmu α) (mmu : Mmu)
    (registers : α → RegisterFile) : Prop :=
  Yields work mmu (fun a _ => (registers a).Legal) fun t _ => t.Aligned

section
variable {h : Hart} (mmu : Mmu)

/-- What an instruction leaves in the registers, if the hart was well-formed before. -/
theorem effect_legal (l : h.registers.Legal)
    (returns : ∀ level, Word.Even (h.csrs.get (Csr.mepc.atLevel level))) (i : Instruction)
    (bits : Word) (length : Instruction.Length) :
    EndsLegal (h.effect i bits length) mmu (·.1.registers) :=
  (h.effect_ends mmu i bits length).mono (fun _ _ executed => executed.legal l returns)
    fun _ _ refused => refused.aligned l

/-! ## Fetching -/

/-- A parcel at an even address is not misaligned. -/
theorem fetchParcel_aligned {address : Word} (even : Word.Even address) :
    Yields (h.fetchParcel address) mmu (fun _ _ => True) fun t _ => t.Aligned := by
  have hfetch : Yields (Mmu.fetchParcel h.fetchContext address) mmu (fun _ _ => True)
      fun fault _ => fault ≠ .misaligned := by
    simp only [Mmu.fetchParcel, Word.Even.iff_admits.mp even, Bool.not_true, Bool.false_eq_true,
      if_false]
    refine Yields.bind (Mmu.translate_fault _ _ _ mmu) fun physical mmu' _ => ?_
    refine (Mmu.physically_fault _ mmu').mono (fun _ _ _ => trivial) fun fault _ hfault => ?_
    rw [hfault]
    exact fun e => nomatch e
  refine .adapt (hfetch.mono (fun _ _ _ => trivial) fun fault _ hfault => ?_)
  cases fault with
  | misaligned => exact absurd rfl hfault
  | access => exact fun e => nomatch e
  | page => exact fun e => nomatch e

theorem decoded_aligned (bits : Word) (decoding : Except DecodeError Instruction) :
    Yields (liftM (h.decoded bits decoding) : Attempt Trap Mmu Instruction) mmu
      (fun _ _ => True) fun t _ => t.Aligned := by
  cases decoding with
  | ok i => trivial
  | error e => exact fun e => nomatch e

theorem fetch_aligned (even : Word.Even h.registers.pc) :
    Yields h.fetch mmu (fun _ _ => True) fun t _ => t.Aligned := by
  have hnext : Word.Even (h.registers.pc + 2) := even.add rfl
  simp only [fetch]
  refine Yields.bind (fetchParcel_aligned mmu even) fun low mmu' _ => ?_
  split
  · exact Yields.bind (p := fun _ _ => True) (.pure trivial) fun _ mmu'' _ =>
      Yields.bind (decoded_aligned mmu'' _ _) fun _ _ _ => .pure trivial
  · exact Yields.bind (fetchParcel_aligned mmu' hnext) fun _ mmu'' _ =>
      Yields.bind (decoded_aligned mmu'' _ _) fun _ _ _ => .pure trivial

theorem attempt_legal (l : h.registers.Legal)
    (returns : ∀ level, Word.Even (h.csrs.get (Csr.mepc.atLevel level))) :
    EndsLegal h.attempt mmu (·.1.registers) :=
  Yields.bind (fetch_aligned mmu l.pc) fun (i, bits, length) mmu' _ =>
    effect_legal mmu' l returns i bits length

end

/-! ## Steps -/

/-- What is kept by every step of a hart. -/
structure Legal (h : Hart) : Prop where
  registers : h.registers.Legal
  csrs : h.csrs.Legal

namespace Legal

variable {h : Hart}

theorem init {config : HartConfig} (even : Word.Even config.resetVector) :
    (Hart.init config).Legal :=
  ⟨.init even, .init⟩

/-- Traps return to even addresses. -/
theorem returns (l : h.Legal) (level : Privilege) :
    Word.Even (h.csrs.get (Csr.mepc.atLevel level)) := by
  have hword := l.csrs.words (Csr.mepc.atLevel level)
  have hstorable : (Csr.mepc.atLevel level).storable = ~~~(1#32 <<< 0) := by cases level <;> rfl
  rw [hstorable, Word.Within.not_bit (by decide)] at hword
  exact Word.Even.iff_getLsbD.mpr hword

theorem count (l : h.Legal) : h.count.Legal := ⟨l.registers, l.csrs⟩

/-- A trap that came from an even address. -/
theorem deliver (l : h.Legal) {t : Trap} (epc : t.epc = h.registers.pc) :
    (h.deliver t).Legal where
  registers := l.registers.goto (.target _ _)
  csrs := by
    refine legal_saveTrap l.csrs ?_ _
    rw [epc, ← Word.Even.iff_getLsbD]
    exact l.registers.pc

/-- No step is refused for a misaligned instruction. -/
theorem aligned (l : h.Legal) {mmu : Mmu} {t : Trap} (trapped : (h.step mmu).1 = .trapped t) :
    t.Aligned := by
  have hends := attempt_legal mmu l.count.registers l.count.returns
  rw [step_eq] at trapped
  split at trapped
  · cases trapped
  · cases trapped
  · rename_i run
    cases trapped
    exact hends.error run

theorem outcome {h' : Hart} {mmu : Mmu} (l : h.Legal) (o : Outcome h mmu h')
    (registers : h'.registers.Legal) : h'.Legal := by
  cases o with
  | computed r => exact ⟨registers, l.csrs⟩
  | wrote c value r _ _ => exact ⟨registers, legal_writeCsr l.csrs c value⟩
  | returned level _ => exact ⟨registers, legal_trapReturn l.csrs level⟩

/-- A step that does not trap ends as an instruction can, with legal registers. -/
theorem step_quiet (l : h.Legal) {mmu : Mmu} (quiet : ∀ t, (h.step mmu).1 ≠ .trapped t) :
    (h.step mmu).2.1.Legal := by
  have houtcome := step_outcome quiet
  refine l.count.outcome houtcome ?_
  have hends := attempt_legal mmu l.count.registers l.count.returns
  rw [step_eq] at quiet ⊢
  split at quiet
  · rename_i run
    exact hends.ok run
  · rename_i run
    exact hends.ok run
  · exact absurd rfl (quiet _)

theorem step (l : h.Legal) (mmu : Mmu) : (h.step mmu).2.1.Legal := by
  cases hr : (h.step mmu).1 with
  | trapped t =>
      obtain ⟨⟨e, tval, rfl⟩, hdeliver⟩ := step_trapped hr
      rw [hdeliver]
      exact l.count.deliver rfl
  | completed => exact l.step_quiet fun t ht => nomatch hr.symm.trans ht
  | stopped => exact l.step_quiet fun t ht => nomatch hr.symm.trans ht

theorem interrupt (l : h.Legal) (mmu : Mmu) : (h.checkInterrupts mmu).2.1.Legal := by
  unfold checkInterrupts
  split
  · exact l
  · exact l.deliver rfl

end Legal

/-- Every reachable state is legal, since a hart keeps the configuration it started with. -/
theorem Reachable.legal {h : Hart} (r : Reachable h) (even : Word.Even h.config.resetVector) :
    h.Legal := by
  induction r with
  | start config => exact .init even
  | step mmu _ ih =>
      rw [step_config] at even
      exact (ih even).step mmu
  | interrupt mmu _ ih =>
      rw [checkInterrupts_config] at even
      exact (ih even).interrupt mmu

/-! ## Well-formed states -/

/-- What can be read off a hart in any state it gets into. -/
structure WellFormed (h : Hart) : Prop where
  zero : h.registers.x Reg.zero = 0
  pc : h.registers.pc.toNat % 2 = 0
  uepc : (h.csrs.get Csr.uepc).toNat % 2 = 0
  sepc : (h.csrs.get Csr.sepc).toNat % 2 = 0
  mepc : (h.csrs.get Csr.mepc).toNat % 2 = 0
  /-- MPP is user, supervisor or machine mode. -/
  mpp : (h.csrs.get Csr.mstatus).extractLsb' 11 2 ∈ [0b00#2, 0b01#2, 0b11#2]
  xs : (h.csrs.get Csr.mstatus).extractLsb' 15 2 = 0b00#2
  sd : (h.csrs.get Csr.mstatus).getLsbD 31 = true ↔
    (h.csrs.get Csr.mstatus).extractLsb' 13 2 = 0b11#2
  /-- The interrupt enable bits, present and previous, SPP, MPP, FS, MPRV, SUM, MXR, TVM,
  TW, TSR and SD; nothing else is ever set. -/
  bits : h.csrs.get Csr.mstatus &&& ~~~0x807E79BB#32 = 0
  mprv : (h.csrs.get Csr.mstatus).getLsbD 17 = true → h.privilege = .machine
  utvec : (h.csrs.get Csr.utvec).extractLsb' 0 2 ∈ [0b00#2, 0b01#2]
  stvec : (h.csrs.get Csr.stvec).extractLsb' 0 2 ∈ [0b00#2, 0b01#2]
  mtvec : (h.csrs.get Csr.mtvec).extractLsb' 0 2 ∈ [0b00#2, 0b01#2]
  mie : h.csrs.get Csr.mie &&& ~~~0xBBB#32 = 0
  mip : h.csrs.get Csr.mip &&& ~~~0x333#32 = 0
  medeleg : h.csrs.get Csr.medeleg &&& ~~~0xB3FF#32 = 0
  sedeleg : h.csrs.get Csr.sedeleg &&& ~~~0xB3FF#32 = 0
  mideleg : h.csrs.get Csr.mideleg &&& ~~~0x333#32 = 0
  sideleg : h.csrs.get Csr.sideleg &&& ~~~0x111#32 = 0
  readOnly : ∀ c, c.isReadOnly = true → h.csrs.get c = 0
  float : ∀ c ∈ [Csr.fflags, Csr.frm, Csr.fcsr], h.csrs.get c = 0

/-- A field of two bits whose upper one is clear. -/
theorem extractLsb'_of_within {w : Word} (h : Word.Within w (~~~(1#32 <<< 1))) :
    w.extractLsb' 0 2 ∈ [0b00#2, 0b01#2] := by
  rw [Word.Within.not_bit (by decide)] at h
  have hbit : (w.extractLsb' 0 2).getLsbD 1 = false := by
    rw [BitVec.getLsbD_extractLsb']
    exact h
  revert hbit
  generalize w.extractLsb' 0 2 = field
  revert field
  decide

theorem Legal.wellFormed {h : Hart} (l : h.Legal) (s : Sound h) : WellFormed h := by
  have hword : ∀ c, h.csrs.get c &&& ~~~c.storable = 0 := fun c =>
    Word.Within.iff_and_not.mp (l.csrs.words c)
  have hnone : ∀ c, c.storable = 0 → h.csrs.get c = 0 := by
    intro c hc
    have hw := hword c
    rw [hc, show ~~~(0 : Word) = BitVec.allOnes 32 from rfl, BitVec.and_allOnes] at hw
    exact hw
  have hstatus := l.csrs.status
  refine
    { zero := l.registers.zero
      pc := l.registers.pc
      uepc := l.returns .user
      sepc := l.returns .supervisor
      mepc := l.returns .machine
      mpp := ?mpp
      xs := hstatus.xs
      sd := ?sd
      bits := hword Csr.mstatus
      mprv := s.mprv
      utvec := extractLsb'_of_within (l.csrs.words Csr.utvec)
      stvec := extractLsb'_of_within (l.csrs.words Csr.stvec)
      mtvec := extractLsb'_of_within (l.csrs.words Csr.mtvec)
      mie := hword Csr.mie
      mip := hword Csr.mip
      medeleg := hword Csr.medeleg
      sedeleg := hword Csr.sedeleg
      mideleg := hword Csr.mideleg
      sideleg := hword Csr.sideleg
      readOnly := fun c hc => hnone c (by rw [Csr.storable, if_pos hc])
      float := fun c hc => hnone c ?float }
  case mpp =>
    have hmpp : (h.csrs.get Csr.mstatus).extractLsb' 11 2 ≠ 0b10#2 := hstatus.mpp
    revert hmpp
    generalize (h.csrs.get Csr.mstatus).extractLsb' 11 2 = field
    revert field
    decide
  case sd =>
    have hsd : (h.csrs.get Csr.mstatus).getLsbD 31 =
        ((h.csrs.get Csr.mstatus).extractLsb' 13 2 == 0b11#2) := hstatus.settled
    rw [hsd, beq_iff_eq]
  case float =>
    simp only [List.mem_cons, List.not_mem_nil, or_false] at hc
    rcases hc with rfl | rfl | rfl <;> rfl

/-- A hart that starts at an even address is well-formed in every state it gets into,
whatever memory and the clock do, and none of its steps raises the exception for a
misaligned instruction. -/
theorem reachable_wellFormed {h : Hart} (r : Reachable h)
    (even : h.config.resetVector.toNat % 2 = 0) :
    WellFormed h ∧ ∀ mmu t, (h.step mmu).1 = .trapped t →
      t.cause ≠ .exception .instructionAddressMisaligned :=
  ⟨(r.legal even).wellFormed r.sound, fun _ _ trapped => (r.legal even).aligned trapped⟩

/-- A hart whose first instruction sets the five lowest bits of the status register: the
middle one means nothing, and stays clear. -/
theorem reachable_wellFormed_of_low_bits :
    let mmu := Mmu.ofProgram [0x73, 0xE0, 0x0F, 0x30]
    let h := ((Hart.init ⟨0, 0, false, true⟩).step mmu).2.1
    h.csrs.get Csr.mstatus = 0b11011 ∧ WellFormed h ∧
      ∀ mmu t, (h.step mmu).1 = .trapped t →
        t.cause ≠ .exception .instructionAddressMisaligned := by
  exact ⟨by decide +kernel, reachable_wellFormed (.step _ (.start _)) (by decide +kernel)⟩

end Hart
end Rv32
