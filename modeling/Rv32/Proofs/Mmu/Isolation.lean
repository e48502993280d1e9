/-
# `Rv32.Proofs.Mmu.Isolation` — user mode cannot reach protected pages

Whatever a hart asks of memory in user mode, pages that are isolated from it neither
change nor have a say in the answers.  Both are shown at once, by comparing two runs
from memories that are alike but for these pages.

That no user page holds words of the page table is not enough for the table to stay as
it is.  Its words must also be steady: a word in a channel changes when the walk reads
it, and a word in a window on the timers can be written through another window.
-/
import Rv32.Bytes
import Rv32.Proofs.Mmu.Agreement

namespace Rv32.Mmu

/-! ## What is asked of memory -/

/-- What a hart can ask of the memory management unit. -/
inductive Operation where
  | read (w : Width) (address : Word)
  | write (w : Width) (address : Word) (value : BitVec w.bits)
  | fetchParcel (address : Word)
  | loadReserved (address : Word)
  | storeConditional (address : Word) (value : Word)
  | update (address : Word) (f : Word → Word)

/-- What it answers. -/
inductive Answer where
  | value (w : Width) (value : BitVec w.bits)
  | written
  | stored (held : Bool)

/-- Does what is asked. -/
def perform (c : AccessContext) : Operation → Attempt Fault Mmu Answer
  | .read w address => do return .value w (← read c w address)
  | .write w address value => do
    write c w address value
    return .written
  | .fetchParcel address => do return .value .half (← fetchParcel c address)
  | .loadReserved address => do return .value .word (← loadReserved c address)
  | .storeConditional address value => do return .stored (← storeConditional c address value)
  | .update address f => do return .value .word (← update c address f)

/-- Does what is asked, one after the other, whether or not it fails. -/
def performAll (c : AccessContext) : List Operation → Mmu → List (Except Fault Answer) × Mmu
  | [], mmu => ([], mmu)
  | operation :: rest, mmu =>
    let (answer, mmu) := perform c operation mmu
    let (answers, mmu) := performAll c rest mmu
    (answer :: answers, mmu)

variable {c : AccessContext} {protect : Page → Prop} {m m' : Memory} {mmu : Mmu}

theorem Agrees.perform (compared : Compared c protect m m') (operation : Operation) :
    Agrees c protect m m' (Mmu.perform c operation) fun _ => True := by
  cases operation with
  | read w address => exact .bind (.load compared w address) fun _ _ => .pure trivial
  | write w address value =>
      exact .bind (.store compared w address value) fun _ _ => .pure trivial
  | fetchParcel address => exact .bind (.fetchParcel compared address) fun _ _ => .pure trivial
  | loadReserved address => exact .bind (.loadReserved compared address) fun _ _ => .pure trivial
  | storeConditional address value =>
      exact .bind (.storeConditional compared address value) fun _ _ => .pure trivial
  | update address f => exact .bind (.update compared address f) fun _ _ => .pure trivial

/-! ## Runs -/

/-- Runs that begin alike answer the same and end alike. -/
theorem performAll_alike (compared : Compared c protect m m') (operations : List Operation)
    {mmu mmu' : Mmu} (halike : Alike c protect m m' mmu mmu') :
    (performAll c operations mmu').1 = (performAll c operations mmu).1 ∧
      Alike c protect m m' (performAll c operations mmu).2 (performAll c operations mmu').2 := by
  induction operations generalizing mmu mmu' with
  | nil => exact ⟨rfl, halike⟩
  | cons operation rest ih =>
      obtain ⟨hanswer, -, halike'⟩ := Agrees.perform compared operation mmu mmu' halike
      obtain ⟨hanswers, hend⟩ := ih halike'
      exact ⟨congrArg₂ List.cons hanswer hanswers, hend⟩

/-- A unit that remembers nothing for the hart is where its memory begins. -/
theorem untouched_of_forgets (forgets : mmu.cache.Forgets c.hart) :
    Untouched c protect mmu.memory mmu := by
  refine ⟨.refl _ _, fun address access physical hfound => ?_⟩
  rw [TranslationCache.find?_of_forgets forgets] at hfound
  cases hfound

/-- In user mode, from memories that are alike but for pages that are isolated, a hart
gets the same answers whatever it asks, and leaves the pages as they were. -/
theorem performAll_isolated {mmu' : Mmu} (user : c.privilege = .user)
    (table : c.satp.getLsbD 31 = true) (isolated : Isolated c protect mmu.memory)
    (same : Memory.SameOn (fun page => ¬protect page) mmu.memory mmu'.memory)
    (forgets : mmu.cache.Forgets c.hart) (forgets' : mmu'.cache.Forgets c.hart)
    (operations : List Operation) :
    (performAll c operations mmu').1 = (performAll c operations mmu).1 ∧
      Memory.Keeps protect mmu.memory (performAll c operations mmu).2.memory ∧
      Memory.Keeps protect mmu'.memory (performAll c operations mmu').2.memory := by
  have hpaging : c.paging = true := by
    simp only [AccessContext.paging, user, table]
    rfl
  have hcompared : Compared c protect mmu.memory mmu'.memory :=
    ⟨user, hpaging, isolated, isolated.congr same, isolated.trail_eq same⟩
  have hbegin : Alike c protect mmu.memory mmu'.memory mmu mmu' :=
    ⟨same, untouched_of_forgets forgets, untouched_of_forgets forgets'⟩
  obtain ⟨hanswers, hend⟩ := performAll_alike hcompared operations hbegin
  exact ⟨hanswers, hend.left.kept.mono fun _ => .inl, hend.right.kept.mono fun _ => .inl⟩

/-! ## Machines with one large user page -/

/-- If the page table maps one large page at most, pages are fenced that are apart from
it and from the table. -/
theorem fenced_of_mapsOnly {large : BitVec 10}
    (only : ∀ index, Paging.mapsOnly c m large index = true)
    (table : ¬protect (c.root.setWidth 20))
    (frames : ∀ index : BitVec 10, ¬protect (large ++ index) ∧
      large ++ index ≠ c.root.setWidth 20) :
    Fenced c protect m := by
  have hword : ∀ word, Paging.IsTableWord c m word → Paging.pageOf word = c.root.setWidth 20 := by
    rintro word ⟨address, hmem⟩
    obtain ⟨entry, htrail, -⟩ := Paging.trail_of_mapsOnly only address
    rw [Paging.reads, htrail] at hmem
    rw [List.eq_of_mem_singleton hmem]
    exact Paging.pageOf_entryAddress _ _
  have hframe : ∀ frame, Paging.IsUserFrame c m frame →
      ∃ index : BitVec 10, frame = large ++ index := by
    rintro frame ⟨address, e, hleaf, -⟩
    obtain ⟨entry, htrail, hlarge⟩ := Paging.trail_of_mapsOnly only address
    rw [htrail] at hleaf
    unfold Paging.leafOf at hleaf
    split at hleaf
    · rename_i word first hsingle
      cases hsingle
      split at hleaf
      · rename_i hvalid
        cases hleaf
        simp only [Bool.and_eq_true] at hvalid
        refine ⟨Paging.secondIndex address, ?_⟩
        simp only [Paging.frameOf, hlarge _ rfl hvalid.1.1, if_true]
      · cases hleaf
    · rename_i hpair
      cases hpair
    · cases hleaf
  refine ⟨fun word h => ?_, fun frame h => ?_, fun frame word h h' => ?_⟩
  · rw [hword word h]
    exact table
  · obtain ⟨index, rfl⟩ := hframe frame h
    exact (frames index).1
  · obtain ⟨index, rfl⟩ := hframe frame h
    rw [hword word h']
    exact (frames index).2

/-- Hart 0 in user mode, with a page table. -/
def guest (satp : Word) : AccessContext := ⟨0, .user, satp, false, false, true⟩

/-- A page table in read-only memory that maps one large page, main memory in that page,
and main memory elsewhere with a secret. -/
def vault (secret : Byte) : Mmu :=
  ofMemory
    { devices := #[.rom ⟨0, Bytes.pack [0xDF, 0x00, 0x10, 0x00]⟩,
        .ram ⟨0x00400000, 0x1000, .zero, 0⟩,
        .ram ⟨0x00800000, 0x1000, Cells.zero.set 0 secret, 1⟩]
      map := ⟨#[(⟨0, 3, by decide⟩, 0), (⟨0x00400000, 0x00400FFF, by decide⟩, 1),
        (⟨0x00800000, 0x00800FFF, by decide⟩, 2)]⟩
      reservations := .none
      clint := Clint.init 1
      lengths := ⟨#[0x1000, 0x1000]⟩
      journal := Journal.empty 0 }

/-- The page of the secret. -/
def vaultPage (page : Page) : Prop := page = Paging.pageOf 0x00800000

theorem vault_same (secret secret' : Byte) :
    Memory.SameOn (fun page => ¬vaultPage page) (vault secret).memory (vault secret').memory := by
  refine ⟨rfl, rfl, rfl, rfl, fun i => ?_⟩
  match i with
  | 0 => exact .some (.refl _)
  | 1 => exact .some (.refl _)
  | 2 => exact .some (.ofPage (by decide) _ _ _)
  | _ + 3 => exact .none

theorem vault_isolated : Isolated (guest 0x80000000) vaultPage (vault 1).memory := by
  have honly : ∀ index, Paging.mapsOnly (guest 0x80000000) (vault 1).memory 1 index = true := by
    decide +kernel
  have hframes : ∀ index : BitVec 10, ¬(1#10 ++ index) = Paging.pageOf 0x00800000 ∧
      1#10 ++ index ≠ (guest 0x80000000).root.setWidth 20 := by
    decide +kernel
  have hfenced : Fenced (guest 0x80000000) vaultPage (vault 1).memory :=
    fenced_of_mapsOnly honly (by unfold vaultPage; decide) hframes
  exact { hfenced with steady := fun word _ => Memory.steadyAt_of_all rfl word }

/-- Two machines with different secrets. -/
theorem performAll_isolated_of_secrets :
    let operations := [.write .word 0x10 7, .read .dword 0xE, .read .byte 0x00800000]
    (performAll (guest 0x80000000) operations (vault 2)).1 =
        (performAll (guest 0x80000000) operations (vault 1)).1 ∧
      Memory.Keeps vaultPage (vault 1).memory
        (performAll (guest 0x80000000) operations (vault 1)).2.memory ∧
      Memory.Keeps vaultPage (vault 2).memory
        (performAll (guest 0x80000000) operations (vault 2)).2.memory :=
  performAll_isolated rfl rfl vault_isolated (vault_same 1 2)
    (fun _ h => absurd h List.not_mem_nil) (fun _ h => absurd h List.not_mem_nil) _

/-! ## Words that are not steady -/

/-- A channel in the place of the page table, and main memory on page 0.  The entry is
first invalid; once a walk has read it, it is a leaf for page 0. -/
def channelTable : Mmu :=
  ofMemory
    { devices := #[.ram ⟨0, 0x1000, .zero, 0⟩, .fifo ⟨0x10001000, [0x00, 0xDF], #[], false⟩]
      map := ⟨#[(pageZero, 0), (⟨0x10001000, 0x10001002, by decide⟩, 1)]⟩
      reservations := .none
      clint := Clint.init 1
      lengths := ⟨#[0x1000]⟩
      journal := Journal.empty 0 }

/-- The comparator of a hart in the place of the first two entries of the page table, and
main memory on page 0.  The second entry maps another window on the comparator. -/
def timerTable : Mmu :=
  ofMemory
    { devices := #[.ram ⟨0, 0x1000, .zero, 0⟩, .clint 0x02000000, .clint 0x03000000]
      map := ⟨#[(pageZero, 0), (⟨0x02000000, 0x0200FFFF, by decide⟩, 1),
        (⟨0x03000000, 0x0300FFFF, by decide⟩, 2)]⟩
      reservations := .none
      clint := (Clint.init 1).setCompare 0 0x00C000DF00000000
      lengths := ⟨#[0x1000]⟩
      journal := Journal.empty 0 }

theorem channelTable_fenced : Fenced (guest 0x80010001) (· = 0) channelTable.memory := by
  have honly : ∀ index,
      Paging.mapsOnly (guest 0x80010001) channelTable.memory 1 index = true := by
    decide +kernel
  exact fenced_of_mapsOnly honly (by decide) (by decide +kernel)

theorem timerTable_fenced : Fenced (guest 0x80002004) (· = 0) timerTable.memory := by
  have honly : ∀ index,
      Paging.mapsOnly (guest 0x80002004) timerTable.memory 12 index = true := by
    decide +kernel
  exact fenced_of_mapsOnly honly (by decide) (by decide +kernel)

/-- That pages are fenced does not keep them: in a channel the second walk meets another
entry than the first, and through a window on the timers user mode writes an entry. -/
theorem fenced_not_kept :
    (Fenced (guest 0x80010001) (· = 0) channelTable.memory ∧
      ¬Memory.Keeps (· = 0) channelTable.memory
        (performAll (guest 0x80010001) [.write .byte 0 1, .write .byte 0 1] channelTable).2.memory) ∧
    Fenced (guest 0x80002004) (· = 0) timerTable.memory ∧
      ¬Memory.Keeps (· = 0) timerTable.memory
        (performAll (guest 0x80002004) [.write .word 0x00404000 0xDF, .write .byte 0 1]
          timerTable).2.memory := by
  have hchannel : channelTable.memory.SteadyAt 0 := Memory.steadyAt_of_route rfl rfl rfl
  have htimer : timerTable.memory.SteadyAt 0 := Memory.steadyAt_of_route rfl rfl rfl
  exact ⟨⟨channelTable_fenced, Memory.not_keeps (by decide) hchannel (by decide +kernel)⟩,
    timerTable_fenced, Memory.not_keeps (by decide) htimer (by decide +kernel)⟩

end Rv32.Mmu
