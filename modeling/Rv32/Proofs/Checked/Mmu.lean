/-
# `Rv32.Proofs.Checked.Mmu` — translating and accessing

A translation looks into the cache of the hart, which has entries for user and for
supervisor mode only, and walks the page table with products and shifts.  It is never
asked for in machine mode, because nothing is translated there; and the hart has a cache,
because there is one for each hart of the machine.

The work of a hart is checked part by part, so nothing a hart does to memory is left out
(`Parts.safe`).
-/
import Rv32.Proofs.Checked.Memory
import Rv32.Proofs.Mmu.Parts

namespace Rv32

/-! ## Work on memory alone -/

namespace CheckedAttempt

variable {ε α : Type}

def onMemory (work : CheckedAttempt ε Memory α) : CheckedAttempt ε Mmu α := fun ⟨memory, cache⟩ => do
  let (result, memory) ← work memory
  return (result, ⟨memory, cache⟩)

def physically (work : Memory → Checked (Except Unmapped α × Memory)) :
    CheckedAttempt Fault Mmu α :=
  onMemory fun memory => do
    let (result, memory) ← work memory
    return (result.mapError fun _ => .access, memory)

/-- The devices of a memory management unit are where the map says. -/
def Ready (mmu : Mmu) : Prop := mmu.memory.Routable

theorem Safe.onMemory {checked : CheckedAttempt ε Memory α} {work : Attempt ε Memory α}
    (h : Safe Memory.Routable checked work) : Safe Ready (onMemory checked) (Mmu.onMemory work) := by
  intro mmu hmmu
  obtain ⟨hrun, hafter⟩ := h mmu.memory hmmu
  refine ⟨?_, hafter⟩
  show (checked mmu.memory >>= fun r => .ok (r.1, (⟨r.2, mmu.cache⟩ : Mmu))) = _
  rw [hrun]
  rfl

theorem Safe.physically {checked : Memory → Checked (Except Unmapped α × Memory)}
    {work : Memory → Except Unmapped α × Memory}
    (h : ∀ m : Memory, m.Routable → checked m = .ok (work m) ∧ (work m).2.Routable) :
    Safe Ready (physically checked) (Mmu.physically work) := by
  refine Safe.onMemory fun m hm => ?_
  obtain ⟨hrun, hafter⟩ := h m hm
  refine ⟨?_, hafter⟩
  show (checked m >>= fun r => .ok (r.1.mapError fun _ => Fault.access, r.2)) = _
  rw [hrun]
  rfl

end CheckedAttempt

open CheckedAttempt

namespace Checked

/-! ## Walking the page table -/

/-- The address of an entry: the page of the table, and the index, cut out of an address, times
the size of an entry. -/
def entryAddress (table : BitVec 22) (address : Word) (low : Nat) : Checked Word := do
  let index := (address >>> (← amount 32 low)) &&& 0x3FF#32
  let offset ← product 32 index.toNat 4
  return table.setWidth 32 * 4096#32 + BitVec.ofNat 32 offset

theorem entryAddress_eq (table : BitVec 22) (address : Word) {low : Nat} (hlow : low < 32) :
    entryAddress table address low =
      .ok (Paging.entryAddress table (address.extractLsb' low 10)) := by
  have hindex := cut_toNat address low (show 1023 = 2 ^ 10 - 1 from rfl) (by decide)
  have hlt := (address.extractLsb' low 10).isLt
  simp only [entryAddress, amount_eq hlow, ok_bind, hindex]
  rw [product_eq (by omega), ok_bind]
  refine congrArg Except.ok (BitVec.eq_of_toNat_eq ?_)
  have hwide (a b k : Nat) (hb : b < 2 ^ k) : a <<< k ||| b = a * 2 ^ k + b := by
    rw [← Nat.shiftLeft_add_eq_or_of_lt hb, Nat.shiftLeft_eq]
  rw [Paging.entryAddress, BitVec.toNat_append, BitVec.toNat_append, hwide _ _ 10 hlt,
    hwide _ _ 2 (by decide)]
  simp only [BitVec.toNat_add, BitVec.toNat_mul, BitVec.toNat_setWidth, BitVec.toNat_ofNat]
  have := table.isLt
  omega

def readEntry (address : Word) : CheckedAttempt Fault Memory PageEntry := fun m => do
  match ← read m .word address with
  | (.ok bits, m) => return (.ok ⟨bits⟩, m)
  | (.error _, m) => return (.error .access, m)

/-- The number of a kind of access, which is the bit of the permission for it. -/
def kind : Access → Nat
  | .read => 0
  | .write => 1
  | .execute => 2

/-- The shifts by which permissions are tested and the address is put together. -/
def shifts (access : Access) : Checked Unit := do
  discard (amount 32 (kind access))
  discard (amount 32 12)
  discard (amount 32 22)

def walk (c : AccessContext) (address : Word) (access : Access) :
    CheckedAttempt Fault Memory Word := do
  let entry ← check (entryAddress c.root address 22)
  let first ← readEntry entry
  if !first.valid then
    throw .page
  else if first.isLeaf then
    if first.targetLow ≠ 0 || !c.allows first access then
      throw .page
    else
      check (shifts access)
      return Paging.join (first.targetHigh ++ Paging.secondIndex address) (Paging.offsetOf address)
  else
    let entry ← check (entryAddress first.target address 12)
    let second ← readEntry entry
    if !second.valid || !second.isLeaf || !c.allows second access then
      throw .page
    else
      check (shifts access)
      return Paging.join (second.targetHigh ++ second.targetLow) (Paging.offsetOf address)

theorem kind_lt (access : Access) : kind access < 3 := by cases access <;> decide

theorem shifts_eq (access : Access) : shifts access = .ok () := by
  rw [shifts, amount_eq (Nat.lt_trans (kind_lt access) (by decide))]
  rfl

theorem readEntry_safe (address : Word) :
    Safe Memory.Routable (readEntry address) (Paging.readEntry address) := by
  intro m hm
  have hafter := hm.read .word address
  unfold readEntry Paging.readEntry
  rw [read_eq hm, ok_bind]
  rcases hread : m.read .word address with ⟨_ | bits, m'⟩
  · rw [hread] at hafter
    exact ⟨rfl, hafter⟩
  · rw [hread] at hafter
    exact ⟨rfl, hafter⟩

theorem walk_safe (c : AccessContext) (address : Word) (access : Access) :
    Safe Memory.Routable (walk c address access) (Paging.walk c address access) := by
  refine .check (entryAddress_eq c.root address (by decide)) ?_
  refine .bind (readEntry_safe _) fun first => ?_
  refine .ite (fun _ => .throw _) fun _ => .ite (fun _ => ?_) fun _ => ?_
  · exact .ite (fun _ => .throw _) fun _ => .check (shifts_eq access) (.pure _)
  · refine .check (entryAddress_eq first.target address (by decide)) ?_
    refine .bind (readEntry_safe _) fun second => ?_
    exact .ite (fun _ => .throw _) fun _ => .check (shifts_eq access) (.pure _)

/-! ## Translating -/

/-- The row of a cache that is for a mode. -/
def row : Privilege → Checked Nat
  | .user => return 0
  | .supervisor => return 1
  | .machine => throw .unreachable

/-- Looks up the entry of an access.  There is a cache for each hart, and one is added for a
hart that has none. -/
def cacheEntry (caches : Nat) (c : AccessContext) (access : Access) : Checked Unit := do
  let row ← row c.privilege
  let size ← if caches ≤ c.hart then sum 64 c.hart 1 else pure caches
  discard (index size c.hart)
  discard (index 2 row)
  discard (index 3 (kind access))

def translate (caches : Nat) (c : AccessContext) (address : Word) (access : Access) :
    CheckedAttempt Fault Mmu Word := do
  if c.paging then
    check (cacheEntry caches c access)
    match (← get).cache.find? c address access with
    | some physical => return physical
    | none =>
      let physical ← onMemory (walk c address access)
      modify fun ⟨memory, cache⟩ =>
        ⟨memory.record (.translated address physical access c.privilege),
          cache.insert c address physical access⟩
      return physical
  else
    return address

/-- Machine mode does not get here. -/
theorem cacheEntry_eq {caches : Nat} {c : AccessContext} (hart : c.hart < caches)
    (paging : c.paging = true) (access : Access) : cacheEntry caches c access = .ok () := by
  have hkind := index_eq (kind_lt access)
  have hsize : ¬caches ≤ c.hart := Nat.not_le.mpr hart
  rw [cacheEntry]
  cases hp : c.privilege with
  | user | supervisor =>
      simp only [row, pure_eq, ok_bind, if_neg hsize, index_eq hart, hkind]
      rfl
  | machine =>
      rw [AccessContext.paging, hp] at paging
      cases paging

theorem translate_safe {caches : Nat} {c : AccessContext} (hart : c.hart < caches)
    (address : Word) (access : Access) :
    Safe Ready (translate caches c address access) (Mmu.translate c address access) := by
  refine .ite (fun paging => ?_) fun _ => .pure address
  refine .check (cacheEntry_eq hart paging access) ?_
  refine .bind .get fun mmu => ?_
  cases mmu.cache.find? c address access with
  | some physical => exact .pure physical
  | none =>
      refine .bind (.onMemory (walk_safe c address access)) fun physical => ?_
      exact .bind (.modify fun _ h => h) fun _ => .pure physical

end Checked

/-! ## The parts of work -/

namespace Parts

open Checked

variable {h : Hart} {ε α : Type} {work : Attempt ε Mmu α}

/-- Work that is checked in each of its parts.  There are caches for so many harts. -/
def checked (caches : Nat) {ε α : Type} {work : Attempt ε Mmu α} :
    Parts h work → CheckedAttempt ε Mmu α
  | .done result => fun mmu => .ok (result, mmu)
  | .look => get
  | .translate privilege address access =>
    Checked.translate caches (h.context privilege) address access
  | .read w address => physically (Checked.read · w address)
  | .write w address value => physically (Checked.write · w address value)
  | .reserve address => physically fun m => return (.ok (), m.reserve h.config.id address)
  | .release address => physically fun m => do
    let (held, m) ← takeReservation m h.config.id address
    return (.ok held, m)
  | .forget => modify (·.invalidate h.config.id)
  | .choice b yes no => if b = true then yes.checked caches else no.checked caches
  | .bind first rest => do
    let a ← first.checked caches
    (rest a).checked caches
  | .adapt f parts => ExceptT.adapt f (parts.checked caches)

/-- Nothing a hart does to memory panics, if there is a cache for the hart. -/
theorem safe {caches : Nat} (hart : h.config.id < caches) (parts : Parts h work) :
    Safe Ready (parts.checked caches) work := by
  induction parts with
  | done result => exact .done result
  | look => exact .get
  | translate privilege address access => exact translate_safe hart address access
  | read w address => exact .physically fun m hm => ⟨read_eq hm w address, hm.read w address⟩
  | write w address value =>
      exact .physically fun m hm => ⟨write_eq hm w address value, hm.write w address value⟩
  | reserve address => exact .physically fun m hm => ⟨rfl, hm⟩
  | release address =>
      refine .physically fun m hm => ⟨?_, hm⟩
      rw [takeReservation_eq]
      rfl
  | forget => exact .modify fun _ hs => hs
  | choice b yes no ihYes ihNo => exact .ite (fun _ => ihYes) fun _ => ihNo
  | bind first rest ihFirst ihRest => exact .bind ihFirst ihRest
  | adapt f parts ih => exact .adapt f ih

end Parts

namespace Checked

/-! ## Widths -/

/-- The case for an access of so many bytes. -/
def widthOf : Nat → Checked Width
  | 1 => return .byte
  | 2 => return .half
  | 4 => return .word
  | 8 => return .dword
  | _ => throw .unreachable

/-- What a load or store does with its width: it asks whether the access leaves its page, and
either copies the value, or translates each byte, for which there is room for eight addresses. -/
def access (w : Width) (address : Word) : Checked Unit := do
  discard (sum 32 (address.toNat % Paging.pageSize) w.bytes)
  copy w.bytes (← widthOf w.bytes).bytes
  discard (index (8 + 1) w.bytes)

theorem access_eq (w : Width) (address : Word) : access w address = .ok () := by
  have hbytes : w.bytes ≤ 8 := by cases w <;> decide
  have hsum : address.toNat % Paging.pageSize + w.bytes < 2 ^ 32 := by
    have : address.toNat % Paging.pageSize < 4096 := Nat.mod_lt _ (by decide)
    omega
  rw [access, sum_eq hsum]
  cases w <;> rfl

end Checked
end Rv32
