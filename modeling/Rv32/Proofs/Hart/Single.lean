/-
# `Rv32.Proofs.Hart.Single` — singles are boxed, and nothing but singles is read

An instruction on singles writes a single boxed, and reads registers as singles, so that a
register that holds none is as good as one that holds the canonical NaN.  The exceptions move
bits: the move to an integer register, and stores.  A NaN that comes out of arithmetic is the
canonical one; one that is loaded, moved in, or given a sign, is kept as it is.

None of this depends on the arithmetic.  `executeOn` executes instructions with the arithmetic of
any host, and with exact arithmetic it is what harts do.
-/
import Rv32.Proofs.Hart.Executed
import Rv32.Proofs.Mmu.Basic
import Rv32.Proofs.Register.File
import Rv32.Proofs.Single.Arithmetic
import Rv32.Proofs.Word

namespace Rv32

open Single (Arithmetic canonical)

/-! ## Boxes -/

namespace RegisterFile

theorem high_box (bits : Word) : Dword.high (box bits) = 0xFFFFFFFF#32 := Dword.high_ofHalves _ _

theorem unbox_box (bits : Word) : unbox (box bits) = bits := by
  rw [unbox, if_pos (high_box bits), box, Dword.low_ofHalves]

/-- What holds no single is read as the canonical NaN. -/
theorem unbox_of_unmarked {value : Dword} (unmarked : Dword.high value ≠ 0xFFFFFFFF#32) :
    unbox value = Single.canonicalNaN := if_neg unmarked

end RegisterFile

/-! ## Instructions on singles -/

namespace Instruction

/-- Operations on singles, fused ones, and the load of a single. -/
def isSingle : Instruction → Bool
  | .loadFloat .single .. | .floatArith .. | .floatSqrt .. | .floatPick .. | .floatCompare ..
  | .floatToInt .. | .floatOfInt .. | .floatMoveOut .. | .floatMoveIn .. | .floatClass ..
  | .fused .. => true
  | _ => false

/-- What an instruction computes from registers, with the arithmetic of a host. -/
def computed? (A : Arithmetic) (r : RegisterFile) : Instruction → Option Word
  | .floatArith op _ rs1 rs2 _ => some (canonical (A.arith op (r.single rs1) (r.single rs2)))
  | .floatSqrt _ rs1 _ => some (canonical (A.sqrt (r.single rs1)))
  | .floatPick op _ rs1 rs2 => some (A.pick op (r.single rs1) (r.single rs2))
  | .floatCompare op _ rs1 rs2 =>
    some (Word.ofBool (A.compare op (r.single rs1) (r.single rs2)))
  | .floatToInt sign _ rs1 rounding => some (A.convert sign rounding (r.single rs1))
  | .floatOfInt sign _ rs1 _ => some (canonical (A.ofWord sign (r.x rs1)))
  | .floatMoveOut _ rs1 => some (Dword.low (r.f rs1))
  | .floatMoveIn _ rs1 => some (r.x rs1)
  | .floatClass _ rs1 => some (Single.classMask (r.single rs1))
  | .fused op _ rs1 rs2 rs3 _ =>
    some (canonical (A.fused op (r.single rs1) (r.single rs2) (r.single rs3)))
  | _ => none

/-- The registers that an instruction reads a single from. -/
def singleSources : Instruction → List Reg
  | .floatArith _ _ rs1 rs2 _ | .floatPick _ _ rs1 rs2 | .floatCompare _ _ rs1 rs2 => [rs1, rs2]
  | .floatSqrt _ rs1 _ | .floatToInt _ _ rs1 _ | .floatClass _ rs1 => [rs1]
  | .fused _ _ rs1 rs2 rs3 _ => [rs1, rs2, rs3]
  | _ => []

/-- Whether a NaN that an instruction gives is the canonical one. -/
def givesCanonical : Instruction → Bool
  | .floatArith .. | .floatSqrt .. | .floatPick .min .. | .floatPick .max .. | .floatOfInt ..
  | .fused .. => true
  | _ => false

/-- Register files that differ in floating-point registers only, and there not in what an
instruction reads. -/
structure Alike (i : Instruction) (r r' : RegisterFile) : Prop where
  pc : r'.pc = r.pc
  ints : r'.ints = r.ints
  singles : ∀ s ∈ i.singleSources, r'.single s = r.single s
  moved : ∀ rd rs1, i = .floatMoveOut rd rs1 → Dword.low (r'.f rs1) = Dword.low (r.f rs1)

variable {i : Instruction} {r r' : RegisterFile}

theorem Alike.refl (i : Instruction) (r : RegisterFile) : Alike i r r :=
  ⟨rfl, rfl, fun _ _ => rfl, fun _ _ _ => rfl⟩

theorem Alike.x (alike : Alike i r r') (s : Reg) : r'.x s = r.x s := by
  rw [RegisterFile.x, alike.ints, ← RegisterFile.x]

/-- A register without a single can be given the canonical NaN, unless its bits are moved. -/
theorem alike_setSingle {s : Reg} (unmarked : Dword.high (r.f s) ≠ 0xFFFFFFFF#32)
    (stays : ∀ rd, i ≠ .floatMoveOut rd s) : Alike i r (r.setSingle s Single.canonicalNaN) where
  pc := rfl
  ints := rfl
  singles := fun q _ => by
    rw [RegisterFile.single, RegisterFile.single, RegisterFile.setSingle, RegisterFile.f_setF]
    split
    case isTrue same =>
      rw [RegisterFile.unbox_box, same, RegisterFile.unbox_of_unmarked unmarked]
    case isFalse => rfl
  moved := fun rd rs1 move => by
    have other : rs1 ≠ s := by
      rintro rfl
      exact stays rd move
    rw [RegisterFile.setSingle, RegisterFile.f_setF, if_neg other]

/-- What is computed depends on what is read. -/
theorem computed?_alike (A : Arithmetic) (alike : Alike i r r') :
    i.computed? A r' = i.computed? A r := by
  have singles := alike.singles
  cases i with
  | floatArith op rd rs1 rs2 rounding =>
    rw [computed?, computed?, singles rs1 (by simp [singleSources]),
      singles rs2 (by simp [singleSources])]
  | floatSqrt rd rs1 rounding => rw [computed?, computed?, singles rs1 (by simp [singleSources])]
  | floatPick op rd rs1 rs2 =>
    rw [computed?, computed?, singles rs1 (by simp [singleSources]),
      singles rs2 (by simp [singleSources])]
  | floatCompare op rd rs1 rs2 =>
    rw [computed?, computed?, singles rs1 (by simp [singleSources]),
      singles rs2 (by simp [singleSources])]
  | floatToInt sign rd rs1 rounding =>
    rw [computed?, computed?, singles rs1 (by simp [singleSources])]
  | floatOfInt sign rd rs1 rounding => rw [computed?, computed?, alike.x]
  | floatMoveOut rd rs1 => rw [computed?, computed?, alike.moved rd rs1 rfl]
  | floatMoveIn rd rs1 => rw [computed?, computed?, alike.x]
  | floatClass rd rs1 => rw [computed?, computed?, singles rs1 (by simp [singleSources])]
  | fused op rd rs1 rs2 rs3 rounding =>
    rw [computed?, computed?, singles rs1 (by simp [singleSources]),
      singles rs2 (by simp [singleSources]), singles rs3 (by simp [singleSources])]
  | _ => rfl

/-- Where a NaN is to be canonical, it is. -/
theorem computed?_clean {A : Arithmetic} {value : Word} (gives : i.givesCanonical = true)
    (computes : i.computed? A r = some value) : Single.Clean value := by
  cases i with
  | floatArith op rd rs1 rs2 rounding =>
    cases computes
    exact Single.clean_canonical _
  | floatSqrt rd rs1 rounding =>
    cases computes
    exact Single.clean_canonical _
  | floatPick op rd rs1 rs2 =>
    cases computes
    cases op with
    | min => exact Arithmetic.clean_extreme _ _ _ _
    | max => exact Arithmetic.clean_extreme _ _ _ _
    | sign | signNot | signXor => cases gives
  | floatOfInt sign rd rs1 rounding =>
    cases computes
    exact Single.clean_canonical _
  | fused op rd rs1 rs2 rs3 rounding =>
    cases computes
    exact Single.clean_canonical _
  | _ => cases gives

/-- An instruction on singles computes something, or it is the load. -/
theorem computes_or_loads (A : Arithmetic) (r : RegisterFile) (single : i.isSingle = true) :
    (∃ value, i.computed? A r = some value) ∨
      ∃ rd rs1 offset, i = .loadFloat .single rd rs1 offset := by
  cases i with
  | loadFloat width rd rs1 offset =>
    cases width with
    | single => exact .inr ⟨rd, rs1, offset, rfl⟩
    | double => cases single
  | floatArith | floatSqrt | floatPick | floatCompare | floatToInt | floatOfInt | floatMoveOut
  | floatMoveIn | floatClass | fused => exact .inl ⟨_, rfl⟩
  | _ => cases single

theorem destination?_of_isSingle (single : i.isSingle = true) : ∃ d, i.destination? = some d := by
  cases i with
  | loadFloat | floatArith | floatSqrt | floatPick | floatCompare | floatToInt | floatOfInt
  | floatMoveOut | floatMoveIn | floatClass | fused => exact ⟨_, rfl⟩
  | _ => cases single

end Instruction

/-! ## Execution with the arithmetic of a host -/

namespace Hart

/-- The hart past an instruction that writes a word to an integer register, or a single to a
floating-point register. -/
def finishAt (h : Hart) (length : Instruction.Length) : Destination → Word → Hart
  | .int rd, value => h.finish length rd value
  | .float rd, value => h.finishSingle length rd value

/-- Executes an instruction with the arithmetic of a host. -/
def executeOn (A : Arithmetic) (h : Hart) (i : Instruction) (bits : Word)
    (length : Instruction.Length) (mmu : Mmu) : Except Trap Completion × Hart × Mmu :=
  match i.destination?, i.computed? A h.registers with
  | some d, some value => (.ok .proceed, h.finishAt length d value, mmu)
  | _, _ => h.execute i bits length mmu

section
variable {A : Arithmetic} {h : Hart} {i : Instruction} {bits : Word}
  {length : Instruction.Length}

theorem executeOn_of_computed {d : Destination} {value : Word} (writes : i.destination? = some d)
    (computes : i.computed? A h.registers = some value) (mmu : Mmu) :
    h.executeOn A i bits length mmu = (.ok .proceed, h.finishAt length d value, mmu) := by
  rw [executeOn, writes, computes]

/-- With exact arithmetic, this is how harts execute instructions. -/
theorem executeOn_exact (h : Hart) (i : Instruction) (bits : Word) (length : Instruction.Length) :
    h.executeOn .exact i bits length = h.execute i bits length := by
  funext mmu
  cases i with
  | floatArith op rd rs1 rs2 rounding =>
    rw [executeOn_of_computed rfl rfl, Arithmetic.arith_exact]
    rfl
  | floatSqrt rd rs1 rounding =>
    rw [executeOn_of_computed rfl rfl, Arithmetic.sqrt_exact]
    rfl
  | floatPick op rd rs1 rs2 =>
    rw [executeOn_of_computed rfl rfl, Arithmetic.pick_exact]
    rfl
  | floatToInt sign rd rs1 rounding =>
    rw [executeOn_of_computed rfl rfl, Arithmetic.convert_exact]
    rfl
  | floatOfInt sign rd rs1 rounding =>
    rw [executeOn_of_computed rfl rfl, Arithmetic.ofWord_exact]
    rfl
  | fused op rd rs1 rs2 rs3 rounding =>
    rw [executeOn_of_computed rfl rfl, Arithmetic.fused_exact]
    rfl
  | _ => rfl

/-- A load depends on no floating-point register. -/
theorem loadFrom_alike {r : RegisterFile} (pc : r.pc = h.registers.pc) (w : Width)
    (address : Word) :
    loadFrom { h with registers := r } w address = h.loadFrom w address := by
  simp only [loadFrom, accessing, raise, pc]
  rfl

end

/-! ## Singles in registers -/

/-- What is executed on singles in front of some memory.  `result` is the word that is written, or
the trap; it is what the arithmetic and the singles in the sources make it. -/
structure Disciplined (A : Arithmetic) (h : Hart) (i : Instruction) (bits : Word)
    (length : Instruction.Length) (mmu : Mmu) (d : Destination) (result : Except Trap Word)
    (mmu' : Mmu) : Prop where
  destination : i.destination? = some d
  /-- All register files that agree in what is read give the same. -/
  runs : ∀ r, Instruction.Alike i h.registers r →
    executeOn A { h with registers := r } i bits length mmu =
      keep { h with registers := r }
        (result.map fun value => (finishAt { h with registers := r } length d value, .proceed), mmu')
  /-- Only the load can trap, or look at memory. -/
  computes : (∀ rd rs1 offset, i ≠ .loadFloat .single rd rs1 offset) →
    mmu' = mmu ∧ ∃ value, result = .ok value
  /-- A floating-point register that was written has all ones above the single. -/
  boxed : ∀ rd, d = .float rd → ∀ h' completion mmu₁,
    h.executeOn A i bits length mmu = (.ok completion, h', mmu₁) →
      Dword.high (h'.registers.f rd) = 0xFFFFFFFF#32
  /-- A source without a single could have held the canonical NaN. -/
  unmarked : ∀ s, Dword.high (h.registers.f s) ≠ 0xFFFFFFFF#32 →
    (∀ rd, i ≠ .floatMoveOut rd s) →
    Instruction.Alike i h.registers (h.registers.setSingle s Single.canonicalNaN)
  canonical : i.givesCanonical = true → ∀ value, result = .ok value →
    Single.isNaN value = true → value = 0x7FC00000
  /-- Giving a sign keeps all other bits, also of a NaN. -/
  signs : ∀ op rd rs1 rs2, i = .floatPick op rd rs1 rs2 → op ∈ [.sign, .signNot, .signXor] →
    ∃ value, result = .ok value ∧
      value.extractLsb' 0 31 = (h.registers.single rs1).extractLsb' 0 31
  movedIn : ∀ rd rs1, i = .floatMoveIn rd rs1 → result = .ok (h.registers.x rs1)
  /-- The move to an integer register does not ask whether there is a single. -/
  movedOut : ∀ rd rs1, i = .floatMoveOut rd rs1 → result = .ok (Dword.low (h.registers.f rs1))
  loaded : ∀ rd rs1 offset, i = .loadFloat .single rd rs1 offset →
    h.loadFrom .word (h.dataAddress rs1 offset) mmu = (result, mmu')

section
variable {A : Arithmetic} {h : Hart} {i : Instruction} {bits : Word}
  {length : Instruction.Length} {mmu : Mmu}

theorem high_f_finishAt (h : Hart) (length : Instruction.Length) (rd : Reg) (value : Word) :
    Dword.high ((h.finishAt length (.float rd) value).registers.f rd) = 0xFFFFFFFF#32 := by
  have written : (h.finishAt length (.float rd) value).registers.f rd = RegisterFile.box value :=
    (RegisterFile.f_setF h.registers rd rd _).trans (if_pos rfl)
  rw [written, RegisterFile.high_box]

/-- From what is written, whatever else a register file holds. -/
theorem boxed_of_runs {d : Destination} {result : Except Trap Word} {mmu' : Mmu}
    (runs : h.executeOn A i bits length mmu =
      h.keep (result.map fun value => (h.finishAt length d value, .proceed), mmu'))
    {rd : Reg} (float : d = .float rd) {h' : Hart} {completion : Completion} {mmu₁ : Mmu}
    (run : h.executeOn A i bits length mmu = (.ok completion, h', mmu₁)) :
    Dword.high (h'.registers.f rd) = 0xFFFFFFFF#32 := by
  subst float
  rw [runs] at run
  cases result with
  | error t => cases run
  | ok value =>
    cases run
    exact high_f_finishAt h length rd value

/-- The instructions that compute a word from registers. -/
theorem disciplined_of_computed {d : Destination} {value : Word}
    (writes : i.destination? = some d) (computes : i.computed? A h.registers = some value) :
    Disciplined A h i bits length mmu d (.ok value) mmu := by
  have runs (r : RegisterFile) (alike : Instruction.Alike i h.registers r) :
      executeOn A { h with registers := r } i bits length mmu =
        keep { h with registers := r } ((Except.ok value : Except Trap Word).map fun value =>
          (finishAt { h with registers := r } length d value, .proceed), mmu) := by
    have computes' : i.computed? A r = some value :=
      (Instruction.computed?_alike A alike).trans computes
    rw [executeOn_of_computed (h := { h with registers := r }) writes computes']
    rfl
  exact
    { destination := writes
      runs := runs
      computes := fun _ => ⟨rfl, value, rfl⟩
      boxed := fun rd float h' completion mmu₁ run =>
        boxed_of_runs (runs h.registers (.refl i _)) float run
      unmarked := fun s unmarked stays => Instruction.alike_setSingle unmarked stays
      canonical := fun gives value' same => by
        cases same
        exact Instruction.computed?_clean gives computes
      signs := fun op rd rs1 rs2 picks sign => by
        subst picks
        cases computes
        exact ⟨_, rfl, A.low_pick sign _ _⟩
      movedIn := fun rd rs1 moves => by
        subst moves
        cases computes
        rfl
      movedOut := fun rd rs1 moves => by
        subst moves
        cases computes
        rfl
      loaded := fun rd rs1 offset loads => by
        subst loads
        cases computes }

/-- The load of a single. -/
theorem disciplined_load (A : Arithmetic) (h : Hart) (rd rs1 : Reg) (offset : BitVec 12)
    (bits : Word) (length : Instruction.Length) (mmu : Mmu) :
    Disciplined A h (.loadFloat .single rd rs1 offset) bits length mmu (.float rd)
      (h.loadFrom .word (h.dataAddress rs1 offset) mmu).1
      (h.loadFrom .word (h.dataAddress rs1 offset) mmu).2 := by
  have runs (r : RegisterFile)
      (alike : Instruction.Alike (.loadFloat .single rd rs1 offset) h.registers r) :
      executeOn A { h with registers := r } (.loadFloat .single rd rs1 offset) bits length mmu =
        keep { h with registers := r }
          ((h.loadFrom .word (h.dataAddress rs1 offset) mmu).1.map fun value =>
            (finishAt { h with registers := r } length (.float rd) value, .proceed),
            (h.loadFrom .word (h.dataAddress rs1 offset) mmu).2) := by
    have address : dataAddress { h with registers := r } rs1 offset = h.dataAddress rs1 offset :=
      congrArg (· + Instruction.immediate offset) (alike.x rs1)
    show Hart.execute { h with registers := r } (.loadFloat .single rd rs1 offset) bits length mmu = _
    rw [execute_eq]
    refine congrArg (keep { h with registers := r }) ?_
    show (loadFrom { h with registers := r } .word (dataAddress { h with registers := r } rs1 offset)
      >>= fun value => (pure (finishAt { h with registers := r } length (.float rd) value, .proceed) :
        Attempt Trap Mmu (Hart × Completion))) mmu = _
    rw [Attempt.bind_run, address, loadFrom_alike alike.pc]
    rcases h.loadFrom .word (h.dataAddress rs1 offset) mmu with ⟨_ | _, _⟩ <;> rfl
  exact
    { destination := rfl
      runs := runs
      computes := fun other => absurd rfl (other rd rs1 offset)
      boxed := fun rd' float h' completion mmu₁ run =>
        boxed_of_runs (runs h.registers (.refl _ _)) float run
      unmarked := fun s unmarked stays => Instruction.alike_setSingle unmarked stays
      canonical := nofun
      signs := nofun
      movedIn := nofun
      movedOut := nofun
      loaded := fun rd' rs1' offset' same => by
        cases same
        rfl }

/-- Instructions on singles keep singles boxed and read nothing but singles, with any arithmetic;
and exact arithmetic is the one that harts execute with.  Stores take the bits there are. -/
theorem executeOn_disciplined (A : Arithmetic) (h : Hart) {i : Instruction}
    (single : i.isSingle = true) (bits : Word) (length : Instruction.Length) (mmu : Mmu) :
    (∃ d result mmu', Disciplined A h i bits length mmu d result mmu') ∧
      h.executeOn .exact i bits length = h.execute i bits length ∧
      ∀ rs2 rs1 offset,
        h.execute (.storeFloat .single rs2 rs1 offset) bits length mmu = h.keep ((do
          h.storeTo .word (h.dataAddress rs1 offset) (Dword.low (h.registers.f rs2))
          return (h.skip length, .proceed) : Attempt Trap Mmu (Hart × Completion)) mmu) ∧
        h.execute (.storeFloat .double rs2 rs1 offset) bits length mmu = h.keep ((do
          h.storeTo .dword (h.dataAddress rs1 offset) (h.registers.f rs2)
          return (h.skip length, .proceed) : Attempt Trap Mmu (Hart × Completion)) mmu) := by
  refine ⟨?_, h.executeOn_exact i bits length,
    fun rs2 rs1 offset => ⟨h.execute_eq _ _ _ _, h.execute_eq _ _ _ _⟩⟩
  rcases Instruction.computes_or_loads A h.registers single with
    ⟨value, computes⟩ | ⟨rd, rs1, offset, rfl⟩
  case inl =>
    obtain ⟨d, writes⟩ := Instruction.destination?_of_isSingle single
    exact ⟨d, .ok value, mmu, disciplined_of_computed writes computes⟩
  case inr => exact ⟨_, _, _, disciplined_load A h rd rs1 offset bits length mmu⟩

/-- A host whose sums are all a NaN with its own bits, and registers that hold no single: the sum
is the canonical NaN, in its box. -/
theorem executeOn_disciplined_of_foreign_nan :
    let A : Arithmetic := { Arithmetic.exact with arith := fun _ _ _ => 0xFF800001 }
    let i : Instruction := .floatArith .add 2 1 1 .dynamic
    let h := Hart.init ⟨0, 0, false, true⟩
    let add := (h.executeOn A i 0 .full Mmu.onePage).2.1.registers.f 2
    i.isSingle = true ∧ Dword.high (h.registers.f 1) = 0 ∧
      (∃ d result mmu', Disciplined A h i 0 .full Mmu.onePage d result mmu') ∧
      add = 0xFFFFFFFF7FC00000 := by
  intro A i h add
  exact ⟨rfl, by decide +kernel,
    (executeOn_disciplined A h (i := i) rfl 0 .full Mmu.onePage).1, by decide +kernel⟩

end
end Hart
end Rv32
