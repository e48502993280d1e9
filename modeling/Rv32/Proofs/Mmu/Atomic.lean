/-
# `Rv32.Proofs.Mmu.Atomic` — atomic accesses lose no update

Harts take turns on a word of main memory, each at an address of its own, in a context of its
own.  A turn is an atomic instruction or a read-modify-write by other means; between turns, harts
and the host do what they like to the rest of memory.

Every such turn is an `Exchange`: it gives back the word as it was, and puts a function of it in
its place.  One exchange finds what the one before has left, because nothing in between writes
there (`Parts.spared`).  So the exchanges of a run are those of its functions, applied to the word
one after the other (`exchanges`), however many harts there are and in whatever order they take
their turns.
-/
import Mathlib.Data.BitVec
import Rv32.Proofs.Hart.Effect
import Rv32.Proofs.Mmu.Bytes
import Rv32.Proofs.Mmu.Recorded
import Rv32.Proofs.Register.File

namespace Rv32

open Attempt Memory

/-! ## Bytes that are not written -/

/-- No byte that a deed has written is at this address. -/
def Deed.Spares (q : Word) : Deed → Prop
  | .wrote w address => ∀ i < w.bytes, q ≠ address + BitVec.ofNat 32 i
  | .reserved .. | .claimed _ => True

instance (q : Word) : (d : Deed) → Decidable (d.Spares q)
  | .wrote w address => inferInstanceAs (Decidable (∀ i < w.bytes, q ≠ address + BitVec.ofNat 32 i))
  | .reserved .. | .claimed _ => isTrue trivial

/-- A write changes no byte that it has spared if it was done at all. -/
theorem Memory.ramByte?_write_spared {m : Memory} {w : Width} {address q : Word} {index : Nat}
    {past : List Deed} (value : BitVec w.bits)
    (spares : ∀ d ∈ if m.mapped address then .wrote w address :: past else past, d.Spares q) :
    (m.write w address value).2.ramByte? index q = m.ramByte? index q := by
  refine ramByte?_write_out fun routed i hi => ?_
  rw [if_pos (mapped_of_route routed)] at spares
  exact spares _ List.mem_cons_self i hi

namespace Parts

variable {h : Hart} {ε α : Type} {work : Attempt ε Mmu α}

/-- Nothing is taken back. -/
theorem mem_deeds (parts : Parts h work) {d : Deed} :
    ∀ mmu past, d ∈ past → d ∈ parts.deeds mmu past := by
  induction parts with
  | done | look | translate | read | forget => exact fun _ _ before => before
  | reserve | release => exact fun _ _ before => List.mem_cons_of_mem _ before
  | write w address value =>
    intro mmu past before
    rw [deeds]
    split
    · exact List.mem_cons_of_mem _ before
    · exact before
  | choice b yes no ihYes ihNo =>
    intro mmu past before
    cases b with
    | true => exact ihYes mmu past before
    | false => exact ihNo mmu past before
  | @bind _ _ _ first rest parts _ ihFirst ihRest =>
    intro mmu past before
    rw [deeds]
    split
    · exact ihRest _ _ _ (ihFirst mmu past before)
    · exact ihFirst mmu past before
  | adapt f _ ih => exact ih

/-- Work changes no byte that its deeds have spared. -/
theorem spared (parts : Parts h work) {index : Nat} {q : Word} :
    ∀ mmu past, (∀ d ∈ parts.deeds mmu past, d.Spares q) →
      (work mmu).2.memory.ramByte? index q = mmu.memory.ramByte? index q := by
  induction parts with
  | done | look | reserve | release | forget => exact fun _ _ _ => rfl
  | translate privilege address access =>
    intro mmu past _
    have kept := Yields.state.mp
      (Mmu.translate_undisturbed (.refl mmu.memory) (h.context privilege) address access)
    exact kept.ram index q
  | read w address => exact fun mmu _ _ => (Undisturbed.read mmu.memory w address).ram index q
  | write w address value =>
    intro mmu past spares
    rw [deeds] at spares
    rw [Mmu.physicalWrite_run]
    exact ramByte?_write_spared value spares
  | choice b yes no ihYes ihNo =>
    intro mmu past spares
    cases b with
    | true => exact ihYes mmu past spares
    | false => exact ihNo mmu past spares
  | @bind _ _ _ first rest parts next ihFirst ihRest =>
    intro mmu past spares
    rw [deeds] at spares
    rw [Attempt.bind_run]
    rcases run : first mmu with ⟨e | a, mmu'⟩
    · rw [run] at spares
      have first := ihFirst mmu past spares
      rwa [run] at first
    · rw [run] at spares
      have first := ihFirst mmu past fun d hd => spares d ((next a).mem_deeds _ _ hd)
      rw [run] at first
      exact (ihRest a mmu' _ spares).trans first
  | adapt f _ ih => exact ih

/-- No device is moved. -/
theorem route_eq (parts : Parts h work) :
    ∀ mmu, (work mmu).2.memory.route = mmu.memory.route := by
  induction parts with
  | done | look | reserve | release | forget => exact fun _ => rfl
  | translate privilege address access =>
    intro mmu
    have kept := Yields.state.mp
      (Mmu.translate_undisturbed (.refl mmu.memory) (h.context privilege) address access)
    exact kept.route
  | read w address => exact fun mmu => (Undisturbed.read mmu.memory w address).route
  | write w address value =>
    intro mmu
    rw [Mmu.physicalWrite_run]
    exact route_write mmu.memory w address value
  | choice b yes no ihYes ihNo =>
    cases b with
    | true => exact ihYes
    | false => exact ihNo
  | @bind _ _ _ first rest _ _ ihFirst ihRest =>
    intro mmu
    have begun := ihFirst mmu
    rw [Attempt.bind_run]
    rcases run : first mmu with ⟨e | a, mmu'⟩
    · rwa [run] at begun
    · rw [run] at begun
      exact (ihRest a mmu').trans begun
  | adapt f _ ih => exact ih

end Parts

namespace MemoryAction

theorem perform_hart (c : AccessContext) (operation : Mmu.Operation) (mmu : Mmu) :
    (hart c operation).perform mmu =
      (Mmu.perform ((Hart.ofContext c).context c.privilege) operation mmu).2 := by
  rw [Hart.ofContext_context]
  rfl

theorem spared {a : MemoryAction} {mmu : Mmu} {index : Nat} {q : Word}
    (spares : ∀ d ∈ a.deeds mmu [], d.Spares q) :
    (a.perform mmu).memory.ramByte? index q = mmu.memory.ramByte? index q := by
  cases a with
  | hart c operation =>
    rw [perform_hart]
    refine (Parts.operation c.privilege operation).spared mmu [] ?_
    rwa [Parts.deeds_operation, Hart.ofContext_context]
  | host w address value => exact ramByte?_write_spared value spares

theorem route_eq (a : MemoryAction) (mmu : Mmu) :
    (a.perform mmu).memory.route = mmu.memory.route := by
  cases a with
  | hart c operation =>
    rw [perform_hart]
    exact (Parts.operation (h := Hart.ofContext c) c.privilege operation).route_eq mmu
  | host w address value => exact route_write mmu.memory w address value

end MemoryAction

/-! ## Read, modify and write -/

namespace Mmu

variable {c : AccessContext} {address word v : Word} {access : Access} {mmu s : Mmu} {index : Nat}

/-- An address that is translated to an aligned one is aligned itself. -/
theorem atomicAddress_of_translate (aligned : Alignment.word.admits word = true)
    (translated : translate c address access mmu = (.ok word, s)) :
    atomicAddress c address access mmu = (.ok word, s) := by
  have place := congrArg BitVec.toNat (offsetOf_translate translated)
  rw [Paging.toNat_offsetOf, Paging.toNat_offsetOf, Paging.pageSize] at place
  have admitted : Alignment.word.admits address = true := by
    simp only [Alignment.admits, beq_iff_eq] at aligned ⊢
    replace aligned : word.toNat % 4 = 0 := aligned
    show address.toNat % 4 = 0
    omega
  rw [atomicAddress, admitted]
  exact translated

theorem update_run (aligned : Alignment.word.admits word = true)
    (translated : translate c address .write mmu = (.ok word, s))
    (holds : mmu.memory.Holds .word word index (byteOf v)) (f : Word → Word) :
    update c address f mmu = (.ok v, ⟨(s.memory.write .word word (f v)).2, s.cache⟩) ∧
      s.memory.Holds .word word index (byteOf v) := by
  have kept := undisturbed_of_translate translated
  have held : s.memory.Holds .word word index (byteOf v) :=
    holds.congr kept.route fun i _ => kept.ram index _
  refine ⟨?_, held⟩
  rw [update, bind_run, atomicAddress_of_translate aligned translated]
  dsimp only
  rw [bind_run, physicalRead_run held, Width.combine_byteOf]
  dsimp only
  rw [bind_run, physicalWrite_run, mapped_of_route held.route]
  rfl

end Mmu

/-! ## Turns -/

/-- Whose turn it is: a hart that executes an atomic instruction, somebody else who replaces a
word by a function of it, or anybody who accesses memory otherwise. -/
inductive Turn where
  | amo (h : Hart) (op : AmoOp) (rd rs1 rs2 : Reg) (bits : Word) (length : Instruction.Length)
  | update (c : AccessContext) (address : Word) (f : Word → Word)
  | other (action : MemoryAction)

namespace Turn

/-- What is asked of a word: where it is, and what is to become of it. -/
structure Request where
  context : AccessContext
  address : Word
  function : Word → Word

/-- What a turn asks of the word, if it is one of those that do. -/
def request? : Turn → Option Request
  | .amo h op _ rs1 rs2 _ _ =>
    some ⟨h.dataContext, h.registers.x rs1, fun old => op.apply old (h.registers.x rs2)⟩
  | .update c address f => some ⟨c, address, f⟩
  | .other _ => none

def perform (mmu : Mmu) : Turn → Mmu
  | .amo h op rd rs1 rs2 bits length => (h.execute (.amo op rd rs1 rs2) bits length mmu).2.2
  | .update c address f => (Mmu.update c address f mmu).2
  | .other action => action.perform mmu

/-- The word is what a turn is about, or is spared by it. -/
def Meets (word : Word) (mmu : Mmu) : Turn → Prop
  | .amo h _ _ rs1 _ _ _ =>
    (Mmu.translate h.dataContext (h.registers.x rs1) .write mmu).1 = .ok word
  | .update c address _ => (Mmu.translate c address .write mmu).1 = .ok word
  | .other action =>
    ∀ d ∈ action.deeds mmu [], ∀ i < Width.word.bytes, d.Spares (word + BitVec.ofNat 32 i)

instance (word : Word) (mmu : Mmu) : (turn : Turn) → Decidable (turn.Meets word mmu)
  | .amo .. | .update .. => inferInstanceAs (Decidable (_ = _))
  | .other action => inferInstanceAs (Decidable (∀ d ∈ action.deeds mmu [], ∀ i < _, d.Spares _))

/-- What is given back: the result of the call, or by an instruction its register, if that
can be written.  The other registers stay as they are. -/
def Gives (mmu : Mmu) (old : Word) : Turn → Prop
  | .amo h op rd rs1 rs2 bits length => ∃ h' mmu',
    h.execute (.amo op rd rs1 rs2) bits length mmu = (.ok .proceed, h', mmu') ∧
      ∀ r, h'.registers.x r = if r = rd ∧ rd ≠ Reg.zero then old else h.registers.x r
  | .update c address f => (Mmu.update c address f mmu).1 = .ok old
  | .other _ => True

theorem amo_run (h : Hart) (op : AmoOp) (rd rs1 rs2 : Reg) (bits : Word)
    (length : Instruction.Length) {mmu s : Mmu} {old : Word}
    (run : Mmu.update h.dataContext (h.registers.x rs1)
      (fun old => op.apply old (h.registers.x rs2)) mmu = (.ok old, s)) :
    h.execute (.amo op rd rs1 rs2) bits length mmu =
      (.ok .proceed, h.finish length rd old, s) := by
  rw [Hart.execute_eq, Hart.effect]
  dsimp only
  rw [bind_run, Hart.accessing, adapt_run, run]
  rfl

/-- A turn on a word does what it asks of it. -/
theorem run {turn : Turn} {r : Request} (request : turn.request? = some r) {mmu s : Mmu}
    {old : Word} (update : Mmu.update r.context r.address r.function mmu = (.ok old, s)) :
    turn.Gives mmu old ∧ turn.perform mmu = s := by
  cases turn with
  | amo h op rd rs1 rs2 bits length =>
    cases request
    have run := amo_run h op rd rs1 rs2 bits length update
    refine ⟨⟨h.finish length rd old, s, run, fun q => ?_⟩, congrArg (·.2.2) run⟩
    exact h.registers.x_setX rd q old
  | update c address f =>
    cases request
    exact ⟨congrArg Prod.fst update, congrArg Prod.snd update⟩
  | other => cases request

theorem Meets.translate {turn : Turn} {r : Request} (request : turn.request? = some r)
    {word : Word} {mmu : Mmu} (meets : turn.Meets word mmu) :
    ∃ s, Mmu.translate r.context r.address .write mmu = (.ok word, s) := by
  cases turn with
  | amo | update =>
    cases request
    exact ⟨_, Prod.ext meets rfl⟩
  | other => cases request

end Turn

/-- A turn gives back what a word was, puts something else in its place, and changes no other
byte of main memory. -/
structure Exchange (word : Word) (index : Nat) (turn : Turn) (mmu : Mmu) (old new : Word) :
    Prop where
  atomic : turn.request?.isSome = true
  gives : turn.Gives mmu old
  held : mmu.memory.Holds .word word index (byteOf old)
  holds : (turn.perform mmu).memory.Holds .word word index (byteOf new)
  others : ∀ i q, (i = index → ∀ k < Width.word.bytes, q ≠ word + BitVec.ofNat 32 k) →
    (turn.perform mmu).memory.ramByte? i q = mmu.memory.ramByte? i q

section
variable {word v : Word} {index : Nat} {turn : Turn} {mmu : Mmu}

/-- A turn on the word is an exchange. -/
theorem Turn.Meets.exchange {r : Turn.Request} (meets : turn.Meets word mmu)
    (request : turn.request? = some r) (aligned : Alignment.word.admits word = true)
    (holds : mmu.memory.Holds .word word index (byteOf v)) :
    Exchange word index turn mmu v (r.function v) := by
  obtain ⟨s, translated⟩ := meets.translate request
  obtain ⟨update, held⟩ := Mmu.update_run aligned translated holds r.function
  obtain ⟨gives, after⟩ := Turn.run request update
  have kept := Mmu.undisturbed_of_translate translated
  refine ⟨by rw [request]; rfl, gives, holds, ?_, fun i q out => ?_⟩
  · rw [after]
    exact held.write (r.function v)
  · rw [after, ← kept.ram]
    refine ramByte?_write_out fun routed k hk => ?_
    exact out (Option.some.inj (routed.symm.trans held.route)) k hk

/-- Another turn leaves the word as it was. -/
theorem Turn.Meets.holds (meets : turn.Meets word mmu) (request : turn.request? = none)
    (holds : mmu.memory.Holds .word word index (byteOf v)) :
    (turn.perform mmu).memory.Holds .word word index (byteOf v) := by
  cases turn with
  | amo | update => cases request
  | other action =>
    refine holds.congr (action.route_eq mmu) fun i hi => ?_
    exact MemoryAction.spared fun d hd => meets d hd i hi

end

/-! ## Turns in a row -/

/-- Each turn meets the word, in the memory that the turns before it have left. -/
def Turn.Meet (word : Word) : List Turn → Mmu → Prop
  | [], _ => True
  | turn :: turns, mmu => turn.Meets word mmu ∧ Meet word turns (turn.perform mmu)

instance Turn.decidableMeet (word : Word) :
    (turns : List Turn) → (mmu : Mmu) → Decidable (Turn.Meet word turns mmu)
  | [], _ => isTrue trivial
  | turn :: turns, mmu =>
    have := decidableMeet word turns (turn.perform mmu)
    inferInstanceAs (Decidable (turn.Meets word mmu ∧ Turn.Meet word turns (turn.perform mmu)))

/-- The exchanges of a run, in the order of the turns. -/
inductive Exchanged (word : Word) (index : Nat) : List Turn → Mmu → List (Word × Word) → Prop
  | nil (mmu : Mmu) : Exchanged word index [] mmu []
  | other {turn : Turn} {turns : List Turn} {mmu : Mmu} {exchanges : List (Word × Word)} :
      turn.request? = none → Exchanged word index turns (turn.perform mmu) exchanges →
      Exchanged word index (turn :: turns) mmu exchanges
  | exchange {turn : Turn} {turns : List Turn} {mmu : Mmu} {old new : Word}
      {exchanges : List (Word × Word)} :
      Exchange word index turn mmu old new →
      Exchanged word index turns (turn.perform mmu) exchanges →
      Exchanged word index (turn :: turns) mmu ((old, new) :: exchanges)

/-- What a value becomes, one function after the other. -/
def applied (v : Word) (fs : List (Word → Word)) : Word := fs.foldl (fun v f => f v) v

/-- The values before and after each function. -/
def exchanges (v : Word) : List (Word → Word) → List (Word × Word)
  | [] => []
  | f :: fs => (v, f v) :: exchanges (f v) fs

theorem exchanges_getElem? (v : Word) (fs : List (Word → Word)) {i : Nat} (hi : i < fs.length) :
    (exchanges v fs)[i]? = some (applied v (fs.take i), applied v (fs.take (i + 1))) := by
  induction fs generalizing v i with
  | nil => cases hi
  | cons f fs ih =>
    cases i with
    | zero => rfl
    | succ i => exact ih (f v) (Nat.lt_of_succ_lt_succ hi)

/-- Each starts from what the one before has left. -/
theorem isChain_exchanges (v : Word) (fs : List (Word → Word)) :
    (exchanges v fs).IsChain fun e e' => e.2 = e'.1 := by
  induction fs generalizing v with
  | nil => exact .nil
  | cons f fs ih =>
    cases fs with
    | nil => exact .singleton _
    | cons g fs => exact .cons_cons rfl (ih (f v))

/-- What is asked of the word in a run. -/
def Turn.functions (turns : List Turn) : List (Word → Word) :=
  turns.filterMap fun turn => turn.request?.map (·.function)

/-- What an atomic addition adds. -/
def Turn.addend? : Turn → Option Word
  | .amo h .add _ _ rs2 _ _ => some (h.registers.x rs2)
  | _ => none

theorem applied_add {turns : List Turn} (v : Word)
    (adds : ∀ turn ∈ turns, turn.request?.isSome = true → turn.addend?.isSome = true) :
    applied v (Turn.functions turns) = v + (turns.filterMap Turn.addend?).sum := by
  induction turns generalizing v with
  | nil => exact (BitVec.add_zero v).symm
  | cons turn turns ih =>
    obtain ⟨first, others⟩ := List.forall_mem_cons.mp adds
    cases turn with
    | amo h op rd rs1 rs2 bits length =>
      cases op with
      | add =>
        have rest := ih (v + h.registers.x rs2) others
        rw [BitVec.add_assoc, ← List.sum_cons] at rest
        exact rest
      | swap | xor | and | or | min | max | minu | maxu => cases first rfl
    | update => cases first rfl
    | other action => exact ih v others

/-- A run is the exchanges of its functions, and leaves the word as they do. -/
theorem Turn.Meet.exchanged {word : Word} {index : Nat}
    (aligned : Alignment.word.admits word = true) {turns : List Turn} {mmu : Mmu} {v : Word}
    (meet : Turn.Meet word turns mmu) (holds : mmu.memory.Holds .word word index (byteOf v)) :
    Exchanged word index turns mmu (exchanges v (Turn.functions turns)) ∧
      (turns.foldl Turn.perform mmu).memory.Holds .word word index
        (byteOf (applied v (Turn.functions turns))) := by
  induction turns generalizing mmu v with
  | nil => exact ⟨.nil mmu, holds⟩
  | cons turn turns ih =>
    obtain ⟨meets, meet⟩ := meet
    cases request : turn.request? with
    | none =>
      have same : Turn.functions (turn :: turns) = Turn.functions turns :=
        List.filterMap_cons_none (by rw [request]; rfl)
      obtain ⟨exchanged, final⟩ := ih meet (meets.holds request holds)
      rw [same]
      exact ⟨.other request exchanged, final⟩
    | some r =>
      have more : Turn.functions (turn :: turns) = r.function :: Turn.functions turns :=
        List.filterMap_cons_some (by rw [request]; rfl)
      have exchange := meets.exchange request aligned holds
      obtain ⟨exchanged, final⟩ := ih meet exchange.holds
      rw [more]
      exact ⟨.exchange exchange exchanged, final⟩

/-- Whatever turns harts take on a word, in whatever order, each gives back what the turns before
it have made of the word, and the last one leaves what all of them make of it.  So what one turn
gives back is what the one before has put there; and additions add up. -/
theorem atomics_lose_no_update {word v : Word} {index : Nat} {turns : List Turn} {mmu : Mmu}
    (aligned : Alignment.word.admits word = true)
    (holds : mmu.memory.Holds .word word index (byteOf v))
    (meet : Turn.Meet word turns mmu) :
    Exchanged word index turns mmu (exchanges v (Turn.functions turns)) ∧
      (turns.foldl Turn.perform mmu).memory.Holds .word word index
        (byteOf (applied v (Turn.functions turns))) ∧
      (∀ i < (Turn.functions turns).length, (exchanges v (Turn.functions turns))[i]? =
        some (applied v ((Turn.functions turns).take i),
          applied v ((Turn.functions turns).take (i + 1)))) ∧
      ((exchanges v (Turn.functions turns)).IsChain fun e e' => e.2 = e'.1) ∧
      ((∀ turn ∈ turns, turn.request?.isSome = true → turn.addend?.isSome = true) →
        applied v (Turn.functions turns) = v + (turns.filterMap Turn.addend?).sum) := by
  obtain ⟨exchanged, final⟩ := meet.exchanged aligned holds
  exact ⟨exchanged, final, fun i hi => exchanges_getElem? v _ hi, isChain_exchanges v _,
    applied_add v⟩

/-- A hart in supervisor mode, for which a page table maps the word elsewhere, and one in machine
mode; in between, stores to other words. -/
def contended : List Turn :=
  let registers := ((RegisterFile.init 0).setX 5 0x1010).setX 6 5
  let guest : Hart :=
    { Hart.ofContext Mmu.supervisor with privilege := .supervisor, registers := registers }
  let owner : Hart := { Hart.init ⟨1, 0, false, true⟩ with
    registers := ((RegisterFile.init 0).setX 5 0x80001010).setX 6 3 }
  [.amo guest .add 5 5 6 0 .full,
    .other (.hart Mmu.supervisor (.write .word 0x1FFE 0x11223344)),
    .update (.machine 2) 0x80001010 fun old => AmoOp.maxu.apply old 9,
    .other (.host .dword 0x80001014 0x1122334455667788),
    .amo owner .add 0 5 6 0 .full]

theorem atomics_lose_no_update_of_aliases :
    Exchanged 0x80001010 0 contended Mmu.swapped [(0, 5), (5, 9), (9, 12)] ∧
      (contended.foldl Turn.perform Mmu.swapped).memory.Holds .word 0x80001010 0
        (byteOf 12#32) := by
  have holds : Mmu.swapped.memory.Holds .word 0x80001010 0 (byteOf 0#32) :=
    ⟨by unfold InPage; decide, by decide +kernel, by decide +kernel⟩
  have meet : Turn.Meet 0x80001010 contended Mmu.swapped := by decide +kernel
  obtain ⟨exchanged, final, -⟩ := atomics_lose_no_update (by decide) holds meet
  have same : exchanges 0#32 (Turn.functions contended) = [(0, 5), (5, 9), (9, 12)] := by
    decide +kernel
  have sum : applied 0#32 (Turn.functions contended) = 12 := by decide +kernel
  rw [same] at exchanged
  rw [sum] at final
  exact ⟨exchanged, final⟩

end Rv32
