/-
# `Rv32.Proofs.Hart.Parts` — what instructions do to memory

An instruction is fetched and executed with the parts of accesses only, in the
contexts of the hart that executes it: those of its own mode for a fetch, and those of
the mode it borrows, if it borrows one, for loads and stores.
-/
import Rv32.Proofs.Mmu.Parts
import Rv32.Proofs.Hart.Effect

namespace Rv32.Parts

variable {h : Hart}

def accessing {α : Type} {work : Attempt Fault Mmu α} (access : Access) (address : Word)
    (parts : Parts h work) : Parts h (h.accessing access address work) :=
  .adapt _ parts

def loadFrom (w : Width) (address : Word) : Parts h (h.loadFrom w address) :=
  accessing .read address (load h.dataPrivilege address w)

def storeTo (w : Width) (address : Word) (value : BitVec w.bits) :
    Parts h (h.storeTo w address value) :=
  accessing .write address (store h.dataPrivilege address w value)

/-- What goes on with the hart that a piece has made. -/
def proceed {piece : Attempt Trap Mmu Hart} (parts : Parts h piece) :
    Parts h (piece >>= fun h' =>
      (pure (h', Completion.proceed) : Attempt Trap Mmu (Hart × Completion))) :=
  .bind parts fun h' => .done (.ok (h', Completion.proceed))

/-- What goes on, past the instruction, with what memory has given. -/
def goOn {α : Type} {work : Attempt Trap Mmu α} (parts : Parts h work) (next : α → Hart) :
    Parts h (work >>= fun a =>
      (pure (next a, Completion.proceed) : Attempt Trap Mmu (Hart × Completion))) :=
  .bind parts fun a => .done (.ok (next a, Completion.proceed))

def useCsr (bits : Word) (length : Instruction.Length) (op : CsrOp) (rd : Reg)
    (operand : CsrOperand) (c : Csr) : Parts h (h.useCsr bits length op rd operand c) :=
  .choice _ (.done (.error (h.illegal bits)))
    (.bind .look fun _ =>
      .choice _
        (.choice _ (.bind .forget fun _ => .done (.ok _)) (.done (.ok _)))
        (.done (.ok _)))

def execute (bits : Word) (length : Instruction.Length) :
    (i : Instruction) → Parts h (h.effect i bits length)
  | .opImm .. | .shiftImm .. | .auipc .. | .lui .. | .opReg .. | .fence | .fenceI
  | .waitForInterrupt | .floatArith .. | .floatSqrt .. | .floatPick .. | .floatCompare ..
  | .floatToInt .. | .floatOfInt .. | .floatMoveOut .. | .floatMoveIn .. | .floatClass ..
  | .fused .. | .breakHint => .done (.ok _)
  | .ecall => .done (.error _)
  | .ebreak => .choice _ (.done (.ok _)) (.done (.error _))
  | .jal .. | .jalr .. | .branch .. => proceed (.done _)
  | .trapReturn _ => .choice _ (.done (.ok _)) (.done (.error _))
  | .fenceTranslations .. =>
    .choice _ (.bind .forget fun _ => .done (.ok _)) (.done (.error _))
  | .csr op rd operand c => proceed (useCsr bits length op rd operand c)
  | .load op rd rs1 offset =>
    goOn (loadFrom op.width (h.dataAddress rs1 offset)) fun value =>
      h.finish length rd (op.extend value)
  | .store op rs2 rs1 offset =>
    goOn (storeTo op.width (h.dataAddress rs1 offset) ((h.registers.x rs2).setWidth _)) fun _ =>
      h.skip length
  | .loadFloat .single rd rs1 offset =>
    goOn (loadFrom .word (h.dataAddress rs1 offset)) fun value => h.finishSingle length rd value
  | .loadFloat .double rd rs1 offset =>
    goOn (loadFrom .dword (h.dataAddress rs1 offset)) fun value => h.finishDouble length rd value
  | .storeFloat .single rs2 rs1 offset =>
    goOn (storeTo .word (h.dataAddress rs1 offset) (Dword.low (h.registers.f rs2))) fun _ =>
      h.skip length
  | .storeFloat .double rs2 rs1 offset =>
    goOn (storeTo .dword (h.dataAddress rs1 offset) (h.registers.f rs2)) fun _ => h.skip length
  | .amo op rd rs1 rs2 =>
    goOn (accessing .write (h.registers.x rs1)
      (update h.dataPrivilege (h.registers.x rs1) fun old => op.apply old (h.registers.x rs2)))
      fun old => h.finish length rd old
  | .loadReserved rd rs1 =>
    goOn (accessing .read (h.registers.x rs1) (loadReserved h.dataPrivilege (h.registers.x rs1)))
      fun value => h.finish length rd value
  | .storeConditional rd rs1 rs2 =>
    goOn (accessing .write (h.registers.x rs1)
      (storeConditional h.dataPrivilege (h.registers.x rs1) (h.registers.x rs2)))
      fun stored => h.finish length rd (Word.ofBool !stored)

/-- The second parcel, if the first asks for it, and the decoding. -/
def fetchRest (low : Half) : (length : Instruction.Length) →
    Parts h (do
      let high ← match length with
        | .compressed => pure 0
        | .full => h.fetchParcel (h.registers.pc + 2)
      let bits : Word := high ++ low
      let i ← h.decoded bits (Instruction.ofWord bits)
      return (i, bits, length))
  | .compressed => .bind (.done (.ok 0)) fun _ => .bind (.done _) fun _ => .done (.ok _)
  | .full =>
    .bind (accessing .execute _ (fetchParcel h.privilege _)) fun _ =>
      .bind (.done _) fun _ => .done (.ok _)

def fetch : Parts h h.fetch :=
  .bind (accessing .execute _ (fetchParcel h.privilege _)) fun low =>
    fetchRest low (Instruction.length low)

def attempt : Parts h h.attempt :=
  .bind fetch fun (i, bits, length) => execute bits length i

end Rv32.Parts
