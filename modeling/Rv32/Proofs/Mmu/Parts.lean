/-
# `Rv32.Proofs.Mmu.Parts` — what accesses are made of

Whatever a hart does to memory is made of a few operations: it translates an address
in one of its contexts, reads or writes physical addresses, makes or ends its
reservation, and drops what is remembered for it.  A value of `Parts h work` says how
`work` is put together from these; there is one for every load, store, fetch and
atomic access.  It is a value and not just a fact, because a question like "in which
memories did this work begin to translate?" has an answer only when it is known how
the work is put together.  `moments` is that answer.

The type says that the parts make up the work itself: each constructor is about one
way of building work.
-/
import Rv32.Hart.Basic
import Rv32.Mmu.Atomic

namespace Rv32

/-- How work on the memory management unit is put together from what hart `h` may do. -/
inductive Parts (h : Hart) : {ε α : Type} → Attempt ε Mmu α → Type 1
  /-- A result, or a failure, that does not depend on the state. -/
  | done {ε α : Type} (result : Except ε α) : Parts h (fun mmu => (result, mmu))
  | look {ε : Type} : Parts h (get : Attempt ε Mmu Mmu)
  | translate (privilege : Privilege) (address : Word) (access : Access) :
      Parts h (Mmu.translate (h.context privilege) address access)
  | read (w : Width) (address : Word) : Parts h (Mmu.physically (·.read w address))
  | write (w : Width) (address : Word) (value : BitVec w.bits) :
      Parts h (Mmu.physically (·.write w address value))
  | reserve (address : Word) :
      Parts h (Mmu.physically fun m => (.ok (), m.reserve h.config.id address))
  | release (address : Word) :
      Parts h (Mmu.physically fun m =>
        let (held, m) := m.takeReservation h.config.id address
        (.ok held, m))
  | forget {ε : Type} : Parts h (modify (·.invalidate h.config.id) : Attempt ε Mmu PUnit)
  | choice {ε α : Type} {yes no : Attempt ε Mmu α} (b : Bool) :
      Parts h yes → Parts h no → Parts h (if b = true then yes else no)
  | bind {ε α β : Type} {first : Attempt ε Mmu α} {rest : α → Attempt ε Mmu β} :
      Parts h first → (∀ a, Parts h (rest a)) → Parts h (first >>= rest)
  | adapt {ε ε' α : Type} {work : Attempt ε Mmu α} (f : ε → ε') :
      Parts h work → Parts h (ExceptT.adapt f work : Attempt ε' Mmu α)

namespace Parts

variable {h : Hart}

/-- The memories in which work begins to translate, the latest first, on top of those
of the past; up to the last time the hart drops what is remembered for it. -/
def moments {ε α : Type} {work : Attempt ε Mmu α} :
    Parts h work → Mmu → List Memory → List Memory
  | .translate .., mmu, past => mmu.memory :: past
  | .forget, _, _ => []
  | .choice b yes no, mmu, past => if b = true then yes.moments mmu past else no.moments mmu past
  | @bind _ _ _ _ first _ parts rest, mmu, past =>
    match first mmu with
    | (.ok a, mmu') => (rest a).moments mmu' (parts.moments mmu past)
    | (.error _, _) => parts.moments mmu past
  | .adapt _ parts, mmu, past => parts.moments mmu past
  | .done .., _, past | .look, _, past | .read .., _, past | .write .., _, past
  | .reserve .., _, past | .release .., _, past => past

/-! ## The parts of accesses -/

section
variable (privilege : Privilege) (address : Word)

/-- Each byte is translated and read. -/
def readBytes : (n : Nat) → (address : Word) →
    Parts h (Mmu.readBytes (h.context privilege) address n)
  | 0, _ => .done (.ok [])
  | n + 1, address =>
    .bind (.translate privilege address .read) fun physical =>
      .bind (.read .byte physical) fun byte =>
        .bind (readBytes n (address + 1)) fun rest => .done (.ok (byte :: rest))

def load (w : Width) : Parts h (Mmu.read (h.context privilege) w address) :=
  .bind (.done (Mmu.inOnePiece (h.context privilege) w address)) fun one =>
    .choice one
      (.bind (.translate privilege address .read) fun physical => .read w physical)
      (.bind (readBytes privilege w.bytes address) fun _ => .done (.ok _))

/-- Each byte is translated. -/
def translateBytes : (n : Nat) → (address : Word) →
    Parts h (Mmu.translateBytes (h.context privilege) address n)
  | 0, _ => .done (.ok [])
  | n + 1, address =>
    .bind (.translate privilege address .write) fun physical =>
      .bind (translateBytes n (address + 1)) fun rest => .done (.ok (physical :: rest))

/-- Each byte is written. -/
def writeBytes : (bytes : List (Word × Byte)) → Parts h (Mmu.writeBytes bytes)
  | [] => .done (.ok ())
  | (physical, byte) :: rest => .bind (.write .byte physical byte) fun _ => writeBytes rest

def store (w : Width) (value : BitVec w.bits) :
    Parts h (Mmu.write (h.context privilege) w address value) :=
  .bind (.done (Mmu.inOnePiece (h.context privilege) w address)) fun one =>
    .choice one
      (.bind (.translate privilege address .write) fun physical => .write w physical value)
      (.bind (translateBytes privilege w.bytes address) fun _ => writeBytes _)

def fetchParcel : Parts h (Mmu.fetchParcel (h.context privilege) address) :=
  .choice _ (.done (.error Fault.misaligned))
    (.bind (.translate privilege address .execute) fun physical => .read .half physical)

def atomicAddress (access : Access) :
    Parts h (Mmu.atomicAddress (h.context privilege) address access) :=
  .choice _ (.done (.error Fault.misaligned)) (.translate privilege address access)

def update (f : Word → Word) : Parts h (Mmu.update (h.context privilege) address f) :=
  .bind (atomicAddress privilege address .write) fun physical =>
    .bind (.read .word physical) fun old =>
      .bind (.write .word physical (f old)) fun _ => .done (.ok old)

def loadReserved : Parts h (Mmu.loadReserved (h.context privilege) address) :=
  .bind (atomicAddress privilege address .read) fun physical =>
    .bind (.read .word physical) fun value =>
      .bind (.reserve physical) fun _ => .done (.ok value)

def storeConditional (value : Word) :
    Parts h (Mmu.storeConditional (h.context privilege) address value) :=
  .bind (atomicAddress privilege address .write) fun physical =>
    .bind (.release physical) fun held =>
      .choice held
        (.bind (.write .word physical value) fun _ => .done (.ok true))
        (.done (.ok false))

end
end Parts
end Rv32
