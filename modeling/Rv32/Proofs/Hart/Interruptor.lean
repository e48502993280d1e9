/-
# `Rv32.Proofs.Hart.Interruptor` — the interruptor is an exact register file

Guests reach the registers of the interruptor through a window, the host directly.  Whatever
the two have done, every word of every register is the one it was last given, or what it was at
the start; the window shows it at its own offset, and where there is no register it shows zero
and takes nothing.  An access of a double word is one of each of its words, and smaller ones do
nothing.

What harts are interrupted by is exactly what their own registers say: in no state that a hart
gets into is one of these two interrupts stored in the hart.
-/
import Mathlib.Data.List.Induction
import Rv32.Memory.Access
import Rv32.Proofs.Device.Clint
import Rv32.Proofs.Hart.Legal
import Rv32.Proofs.Hart.Confinement

namespace Rv32

/-! ## A window -/

namespace Memory

variable {m : Memory} {index : Nat} {start : Word}

/-- A device that an access leaves alone stays in its place. -/
theorem modify_window (window : m.devices[index]? = some (.clint start)) {f : Device → Device}
    (alone : f (.clint start) = .clint start) : m.devices.modify index f = m.devices := by
  apply Array.ext_getElem?
  intro i
  rw [Array.getElem?_modify]
  split
  case isTrue own =>
    subst own
    rw [window, Option.map_some, alone]
  case isFalse => rfl

/-- A read of a window is reported, and nothing else comes of it. -/
theorem readDevice_window (window : m.devices[index]? = some (.clint start)) (w : Width)
    (address : Word) :
    m.readDevice index w address =
      (m.clint.read w (address - start),
        { m with journal := m.journal.recordAll (Clint.events .read w address) }) := by
  have devices := modify_window window (f := (·.afterRead address)) rfl
  rw [readDevice, window, devices]
  rfl

theorem writeDevice_window (window : m.devices[index]? = some (.clint start)) {w : Width}
    (address : Word) (value : BitVec w.bits) :
    m.writeDevice index w address value =
      { m with
        clint := m.clint.write w (address - start) value
        journal := m.journal.recordAll (Clint.events .write w address) } := by
  have devices := modify_window window (f := (·.afterWrite w address value)) rfl
  rw [writeDevice, window]
  dsimp only
  rw [devices]
  rfl

end Memory

namespace Clint

/-! ## Uses -/

/-- An offset of the window at which a word begins. -/
structure Slot where
  offset : Word
  aligned : offset.toNat % 4 = 0
  inside : offset.toNat < windowLength.toNat

/-- Something that a guest does with the window, or the host with the registers. -/
inductive Use where
  | read (w : Width) (slot : Slot)
  | write (w : Width) (slot : Slot) (value : BitVec w.bits)
  | setSoftware (hart : Nat) (value : Bool)
  | setCompare (hart : Nat) (value : Dword)
  | setTime (value : Dword)

/-- Uses the window that a device is, or the registers behind it. -/
def use (index : Nat) (start : Word) (m : Memory) : Use → Memory
  | .read w slot => (m.readDevice index w (start + slot.offset)).2
  | .write w slot value => m.writeDevice index w (start + slot.offset) value
  | .setSoftware hart value => { m with clint := m.clint.setSoftware hart value }
  | .setCompare hart value => { m with clint := m.clint.setCompare hart value }
  | .setTime value => { m with clint := m.clint.setTime value }

def useAll (index : Nat) (start : Word) (m : Memory) (us : List Use) : Memory :=
  us.foldl (use index start) m

/-- What a use gives to a word of the registers. -/
def Use.given? (p : Place) : Use → Option Word
  | .read .. => none
  | .write .byte .. | .write .half .. => none
  | .write .word slot value => if p.offset? = some slot.offset.toNat then some value else none
  | .write .dword slot value =>
    if p.offset? = some slot.offset.toNat then some (Dword.low value)
    else if p.offset? = some (slot.offset.toNat + 4) then some (Dword.high value)
    else none
  | .setSoftware hart value => if p = .software hart then some (if value then 1 else 0) else none
  | .setCompare hart value =>
    if p = .compareLow hart then some (Dword.low value)
    else if p = .compareHigh hart then some (Dword.high value)
    else none
  | .setTime value =>
    if p = .timeLow then some (Dword.low value)
    else if p = .timeHigh then some (Dword.high value)
    else none

/-- What a word was given last, or what it was before. -/
def held (before : Clint) (us : List Use) (p : Place) : Word :=
  ((us.filterMap (·.given? p)).getLast?).getD (p.word before)

/-- The double word of two halves. -/
def heldTwo (before : Clint) (us : List Use) (high low : Place) : Dword :=
  Dword.ofHalves (held before us high) (held before us low)

/-- The word that the window shows at an offset. -/
def shown (index : Nat) (start : Word) (m : Memory) (offset : Nat) : Word :=
  (m.readDevice index .word (start + BitVec.ofNat 32 offset)).1

/-- After some uses, the window and the registers are as an exact register file is. -/
structure Exact (index : Nat) (start : Word) (before : Clint) (us : List Use) (m : Memory) :
    Prop where
  /-- An interrupt bit is the lowest bit of the word that was given last. -/
  software : ∀ hart < before.harts.size, 4 * hart < 0x4000 →
    shown index start m (4 * hart) = held before us (.software hart) &&& 1
  compareLow : ∀ hart < before.harts.size, 0x4000 + 8 * hart < 0xBFF8 →
    shown index start m (0x4000 + 8 * hart) = held before us (.compareLow hart)
  compareHigh : ∀ hart < before.harts.size, 0x4000 + 8 * hart < 0xBFF8 →
    shown index start m (0x4000 + 8 * hart + 4) = held before us (.compareHigh hart)
  timeLow : shown index start m 0xBFF8 = held before us .timeLow
  timeHigh : shown index start m 0xBFFC = held before us .timeHigh
  /-- Nothing is shown of harts that are not there. -/
  missing : ∀ hart ≥ before.harts.size,
    (4 * hart < 0x4000 → shown index start m (4 * hart) = 0) ∧
      (0x4000 + 8 * hart < 0xBFF8 → shown index start m (0x4000 + 8 * hart) = 0 ∧
        shown index start m (0x4000 + 8 * hart + 4) = 0)
  unused : ∀ offset, 0xC000 ≤ offset → offset < 0x10000 → offset % 4 = 0 →
    shown index start m offset = 0
  /-- The registers hold what was given last, also those that the window has no room for. -/
  registers : m.clint.harts.size = before.harts.size ∧
    (∀ hart < before.harts.size,
      m.clint.software hart = (held before us (.software hart)).getLsbD 0 ∧
        m.clint.compare hart = heldTwo before us (.compareHigh hart) (.compareLow hart)) ∧
    m.clint.time = heldTwo before us .timeHigh .timeLow
  /-- The clock goes on from what it was given. -/
  onward : ∀ microseconds, m.clint.clock.elapsed + microseconds < 0x8000000000000000 →
    (m.clint.later microseconds).time =
      heldTwo before us .timeHigh .timeLow + BitVec.ofNat 64 microseconds
  /-- A word that is written changes no other one. -/
  alone : ∀ (slot : Slot) (value : Word) (p : Place), p.Present m.clint →
    p.offset? ≠ some slot.offset.toNat →
    p.word (use index start m (.write .word slot value)).clint = p.word m.clint
  /-- An access of a double word is one of each of its words, the lower one first. -/
  readWide : ∀ address, m.readDevice index .dword address =
    let (low, m₁) := m.readDevice index .word address
    let (high, m₂) := m₁.readDevice index .word (address + 4)
    (Dword.ofHalves high low, m₂)
  writeWide : ∀ address value, m.writeDevice index .dword address value =
    (m.writeDevice index .word address (Dword.low value)).writeDevice index .word (address + 4)
      (Dword.high value)
  /-- An access of less than a word is reported, and does nothing. -/
  readNarrow : ∀ w ∈ [Width.byte, .half], ∀ address,
    ∃ journal, m.readDevice index w address = (0, { m with journal })
  writeNarrow : ∀ w ∈ [Width.byte, .half], ∀ address value,
    ∃ journal, m.writeDevice index w address value = { m with journal }
  /-- A hart has the interrupts of the interruptor that its own registers tell. -/
  pending : ∀ h : Hart, h.Reachable → h.config.id < before.harts.size →
    ((h.pending m.clint).getLsbD 3 = true ↔ held before us (.software h.config.id) &&& 1 = 1) ∧
      ((h.pending m.clint).getLsbD 7 = true ↔
        (heldTwo before us (.compareHigh h.config.id) (.compareLow h.config.id)).toNat ≤
          (heldTwo before us .timeHigh .timeLow).toNat)

/-! ## One use -/

section
variable {index : Nat} {start : Word} {m : Memory} {p : Place}

theorem offset_of_address (start offset : Word) : start + offset - start = offset := by
  rw [BitVec.add_comm, BitVec.add_sub_cancel]

/-- The window stays where it is. -/
theorem devices_use (window : m.devices[index]? = some (.clint start)) (u : Use) :
    (use index start m u).devices = m.devices := by
  cases u with
  | read w slot => rw [use, Memory.readDevice_window window]
  | write w slot value => rw [use, Memory.writeDevice_window window]
  | setSoftware hart value => rfl
  | setCompare hart value => rfl
  | setTime value => rfl

theorem clint_use_write (window : m.devices[index]? = some (.clint start)) (w : Width)
    (slot : Slot) (value : BitVec w.bits) :
    (use index start m (.write w slot value)).clint = m.clint.write w slot.offset value := by
  rw [use, Memory.writeDevice_window window]
  exact congrArg (m.clint.write w · value) (offset_of_address start slot.offset)

theorem size_use (window : m.devices[index]? = some (.clint start)) (u : Use) :
    (use index start m u).clint.harts.size = m.clint.harts.size := by
  cases u with
  | read w slot => rw [use, Memory.readDevice_window window]
  | write w slot value =>
    rw [clint_use_write window]
    cases w with
    | byte => rfl
    | half => rfl
    | word => exact size_writeWord _ _ _
    | dword => exact (size_writeWord _ _ _).trans (size_writeWord _ _ _)
  | setSoftware hart value => exact m.clint.size_setSoftware hart value
  | setCompare hart value => exact m.clint.size_setCompare hart value
  | setTime value => rfl

/-- The word after an offset of the window. -/
theorem toNat_next (slot : Slot) : (slot.offset + 4).toNat = slot.offset.toNat + 4 := by
  have inside : slot.offset.toNat < 0x10000 := slot.inside
  rw [BitVec.toNat_add, show (4 : Word).toNat = 4 from rfl]
  exact Nat.mod_eq_of_lt (by omega)

/-- A double word that is written gives its halves to two words. -/
theorem word_writeTwo {c : Clint} (there : p.Present c) (slot : Slot) (value : Dword) :
    p.word (c.write .dword slot.offset value) =
      (((Use.write .dword slot value).given? p).map p.keeps).getD (p.word c) := by
  have there' : p.Present (c.writeWord slot.offset (Dword.low value)) := by
    rw [Place.present_congr (size_writeWord c _ _)]
    exact there
  have aligned : (slot.offset + 4).toNat % 4 = 0 := by
    rw [toNat_next, Nat.add_mod_right]
    exact slot.aligned
  rw [write, word_writeWord there' aligned, word_writeWord there slot.aligned, toNat_next,
    Use.given?]
  split
  case isTrue upper =>
    rw [if_neg (by rw [upper, Option.some.injEq]; omega)]
    rfl
  case isFalse => split <;> rfl

/-- A double word that the host sets gives its halves to two words. -/
theorem given_halves {low high : Place} {a b w : Word} (keepsLow : low.keeps a = a)
    (keepsHigh : high.keeps b = b) :
    (if p = low then a else if p = high then b else w) =
      ((if p = low then some a else if p = high then some b else none).map p.keeps).getD w := by
  split
  case isTrue own =>
    subst own
    exact keepsLow.symm
  case isFalse =>
    split
    case isTrue own =>
      subst own
      exact keepsHigh.symm
    case isFalse => rfl

/-- After a use, a word is what it was given, or what it was. -/
theorem word_use (window : m.devices[index]? = some (.clint start)) (there : p.Present m.clint)
    (u : Use) :
    p.word (use index start m u).clint =
      ((u.given? p).map p.keeps).getD (p.word m.clint) := by
  cases u with
  | read w slot =>
    rw [use, Memory.readDevice_window window]
    rfl
  | write w slot value =>
    rw [clint_use_write window]
    cases w with
    | byte => rfl
    | half => rfl
    | word =>
      rw [write, word_writeWord there slot.aligned, Use.given?]
      split <;> rfl
    | dword => exact word_writeTwo there slot value
  | setSoftware hart value =>
    refine (word_setSoftware there hart value).trans ?_
    rw [Use.given?]
    split
    case isTrue own =>
      subst own
      cases value <;> rfl
    case isFalse => rfl
  | setCompare hart value => exact (word_setCompare there hart value).trans (given_halves rfl rfl)
  | setTime value => exact (word_setTime value).trans (given_halves rfl rfl)

/-! ## Many uses -/

theorem useAll_concat (us : List Use) (u : Use) :
    useAll index start m (us ++ [u]) = use index start (useAll index start m us) u :=
  List.foldl_append

theorem held_concat (before : Clint) (us : List Use) (u : Use) (p : Place) :
    held before (us ++ [u]) p = (u.given? p).getD (held before us p) := by
  rw [held, List.filterMap_append, List.getLast?_append]
  cases given : u.given? p with
  | none => simp [given, held]
  | some value => simp [given]

theorem devices_useAll (window : m.devices[index]? = some (.clint start)) (us : List Use) :
    (useAll index start m us).devices = m.devices := by
  induction us using List.reverseRecOn with
  | nil => rfl
  | append_singleton us u ih =>
    rw [useAll_concat, devices_use (by rw [ih]; exact window), ih]

theorem size_useAll (window : m.devices[index]? = some (.clint start)) (us : List Use) :
    (useAll index start m us).clint.harts.size = m.clint.harts.size := by
  induction us using List.reverseRecOn with
  | nil => rfl
  | append_singleton us u ih =>
    rw [useAll_concat, size_use (by rw [devices_useAll window]; exact window), ih]

/-- A register keeps what it holds. -/
theorem keeps_word {c : Clint} (there : p.Present c) : p.keeps (p.word c) = p.word c := by
  cases p with
  | software hart =>
    rw [Place.word]
    cases c.software hart <;> rfl
  | compareLow hart => rfl
  | compareHigh hart => rfl
  | timeLow => rfl
  | timeHigh => rfl
  | unused => rfl

/-- After many uses, a word is what it was given last. -/
theorem word_useAll (window : m.devices[index]? = some (.clint start))
    (there : p.Present m.clint) (us : List Use) :
    p.word (useAll index start m us).clint = p.keeps (held m.clint us p) := by
  induction us using List.reverseRecOn with
  | nil => exact (keeps_word there).symm
  | append_singleton us u ih =>
    have there' : p.Present (useAll index start m us).clint := by
      rw [Place.present_congr (size_useAll window us)]
      exact there
    rw [useAll_concat, word_use (by rw [devices_useAll window]; exact window) there', ih,
      held_concat]
    cases u.given? p <;> rfl

/-! ## What the window shows -/

theorem shown_eq_readWord (window : m.devices[index]? = some (.clint start)) (offset : Nat) :
    shown index start m offset = m.clint.readWord (BitVec.ofNat 32 offset) := by
  rw [shown, Memory.readDevice_window window]
  exact congrArg m.clint.readWord (offset_of_address _ _)

/-- At the offset of a word, the window shows it. -/
theorem shown_of_present (window : m.devices[index]? = some (.clint start))
    (there : p.Present m.clint) {offset : Nat} (own : p.offset? = some offset) :
    shown index start m offset = p.word m.clint := by
  rw [shown_eq_readWord window, readWord_of_present (by rw [place_of_offset? own]; exact there),
    place_of_offset? own]

theorem shown_of_missing (window : m.devices[index]? = some (.clint start))
    (missing : ¬p.Present m.clint) {offset : Nat} (own : p.offset? = some offset) :
    shown index start m offset = 0 := by
  rw [shown_eq_readWord window]
  exact readWord_of_missing (by rw [place_of_offset? own]; exact missing)

/-- Behind the clock, the window shows nothing. -/
theorem shown_behind (window : m.devices[index]? = some (.clint start)) {offset : Nat}
    (behind : 0xC000 ≤ offset) (inside : offset < 0x10000) : shown index start m offset = 0 := by
  have same : (BitVec.ofNat 32 offset).toNat = offset := Nat.mod_eq_of_lt (by omega)
  have nowhere : place (BitVec.ofNat 32 offset) = .unused := by
    simp only [place, same]
    rw [if_neg (by omega), if_neg (by omega), if_neg (by omega), if_neg (by omega)]
  rw [shown_eq_readWord window, readWord, nowhere]

/-- An access of less than a word does nothing but be reported. -/
theorem readDevice_narrow (window : m.devices[index]? = some (.clint start)) {w : Width}
    (narrow : w ∈ [Width.byte, .half]) (address : Word) :
    ∃ journal, m.readDevice index w address = (0, { m with journal }) := by
  have read := Memory.readDevice_window window w address
  simp only [List.mem_cons, List.not_mem_nil, or_false] at narrow
  rcases narrow with rfl | rfl
  · exact ⟨_, read⟩
  · exact ⟨_, read⟩

theorem writeDevice_narrow (window : m.devices[index]? = some (.clint start)) {w : Width}
    (narrow : w ∈ [Width.byte, .half]) (address : Word) (value : BitVec w.bits) :
    ∃ journal, m.writeDevice index w address value = { m with journal } := by
  have written := Memory.writeDevice_window window address value
  simp only [List.mem_cons, List.not_mem_nil, or_false] at narrow
  rcases narrow with rfl | rfl
  · exact ⟨_, written⟩
  · exact ⟨_, written⟩

end

end Clint

/-! ## Harts -/

/-- A write of a control register stores no interrupt of the interruptor. -/
theorem CsrWrite.pending_within {f f' : CsrFile} {c : Csr} {value : Word}
    (w : CsrWrite f c value f')
    (within : Word.Within (f.get Csr.mip) (Csr.pendingWritable .machine)) :
    Word.Within (f'.get Csr.mip) (Csr.pendingWritable .machine) := by
  cases w with
  | unchanged => exact within
  | own stored noView _ =>
    have other : Csr.mip ≠ c := by
      rintro rfl
      exact nomatch noView
    rw [CsrFile.get_set_ne other]
    exact within
  | status view _ =>
    rw [CsrFile.get_setStatus_ne (by decide)]
    exact within
  | enabled view _ =>
    rw [CsrFile.get_setMasked_ne (by decide)]
    exact within
  | pending view _ =>
    rw [CsrFile.setMasked, CsrFile.get_set_self]
    exact within.masked (by cases view <;> decide) value

namespace Hart

theorem pending_within_outcome {h h' : Hart} {mmu : Mmu} (o : Outcome h mmu h')
    (within : Word.Within (h.csrs.get Csr.mip) (Csr.pendingWritable .machine)) :
    Word.Within (h'.csrs.get Csr.mip) (Csr.pendingWritable .machine) := by
  cases o with
  | computed registers => exact within
  | wrote c value registers _ _ => exact (writeCsr_csrs h c value).pending_within within
  | returned level _ =>
    rw [show (h.trapReturn level).csrs.get Csr.mip = _ from
      CsrFile.get_setStatus_ne (by decide) _ _]
    exact within

theorem get_mip_deliver (h : Hart) (t : Trap) :
    (h.deliver t).csrs.get Csr.mip = h.csrs.get Csr.mip :=
  get_saveTrap_out h t _ (by cases h.handler t.cause <;> decide)

/-- In every state that a hart gets into, the pending interrupts it has stored are none of the
interruptor's. -/
theorem Reachable.pending_within {h : Hart} (r : Reachable h) :
    Word.Within (h.csrs.get Csr.mip) (Csr.pendingWritable .machine) := by
  induction r with
  | start config =>
    rw [show (Hart.init config).csrs.get Csr.mip = 0 from CsrFile.get_init _]
    exact .zero _
  | step mmu reachable ih =>
    rename_i h
    cases answer : (h.step mmu).1 with
    | trapped t =>
      rw [(step_trapped answer).2, get_mip_deliver]
      exact ih
    | completed =>
      exact pending_within_outcome (step_outcome fun t trapped => nomatch answer.symm.trans trapped)
        ih
    | stopped =>
      exact pending_within_outcome (step_outcome fun t trapped => nomatch answer.symm.trans trapped)
        ih
  | interrupt mmu reachable ih =>
    rename_i h
    unfold checkInterrupts
    cases h.nextInterrupt mmu.memory.clint with
    | none => exact ih
    | some i =>
      show Word.Within ((h.deliver (Trap.ofInterrupt i h.registers.pc)).csrs.get Csr.mip) _
      rw [get_mip_deliver]
      exact ih

/-- The software interrupt of machine mode is the interruptor's. -/
theorem Reachable.pending_software {h : Hart} (r : Reachable h) (clint : Clint) :
    (h.pending clint).getLsbD 3 = clint.software h.config.id := by
  rw [getLsbD_pending_or, r.pending_within 3 (by decide),
    show Interrupt.machineSoftware.mask.getLsbD 3 = true from rfl,
    show Interrupt.machineTimer.mask.getLsbD 3 = false from rfl]
  simp only [Bool.false_or, Bool.and_true, Bool.and_false, Bool.or_false]

/-- So is the timer interrupt. -/
theorem Reachable.pending_timer {h : Hart} (r : Reachable h) (clint : Clint) :
    (h.pending clint).getLsbD 7 = decide (clint.compare h.config.id ≤ clint.time) := by
  rw [getLsbD_pending_or, r.pending_within 7 (by decide),
    show Interrupt.machineSoftware.mask.getLsbD 7 = false from rfl,
    show Interrupt.machineTimer.mask.getLsbD 7 = true from rfl]
  simp only [Bool.false_or, Bool.and_false, Bool.and_true]

end Hart

namespace Clint

section
variable {index : Nat} {start : Word} {m : Memory}

/-! ## The register file -/

/-- After many uses, the registers hold what they were given last. -/
theorem registers_useAll (window : m.devices[index]? = some (.clint start)) (us : List Use) :
    (useAll index start m us).clint.harts.size = m.clint.harts.size ∧
      (∀ hart < m.clint.harts.size,
        (useAll index start m us).clint.software hart =
            (held m.clint us (.software hart)).getLsbD 0 ∧
          (useAll index start m us).clint.compare hart =
            heldTwo m.clint us (.compareHigh hart) (.compareLow hart)) ∧
      (useAll index start m us).clint.time = heldTwo m.clint us .timeHigh .timeLow := by
  refine ⟨size_useAll window us, fun hart inside => ⟨?software, ?compare⟩, ?time⟩
  case software =>
    have word := word_useAll window (p := .software hart) inside us
    rw [Place.word, Place.keeps, ← bit_eq_and_one] at word
    revert word
    cases (useAll index start m us).clint.software hart <;>
      cases (held m.clint us (.software hart)).getLsbD 0 <;> decide
  case compare =>
    rw [heldTwo, ← show _ = held _ _ _ from word_useAll window (p := .compareHigh hart) inside us,
      ← show _ = held _ _ _ from word_useAll window (p := .compareLow hart) inside us]
    exact (Dword.ofHalves_high_low _).symm
  case time =>
    rw [heldTwo, ← show _ = held _ _ _ from word_useAll window (p := .timeHigh) trivial us,
      ← show _ = held _ _ _ from word_useAll window (p := .timeLow) trivial us]
    exact (Dword.ofHalves_high_low _).symm

theorem next_of_address (start address : Word) :
    address + 4 - start = address - start + 4 := by bv_omega

/-- A double word is read as its two words are. -/
theorem readDevice_dword (window : m.devices[index]? = some (.clint start)) (address : Word) :
    m.readDevice index .dword address =
      let (low, m₁) := m.readDevice index .word address
      let (high, m₂) := m₁.readDevice index .word (address + 4)
      (Dword.ofHalves high low, m₂) := by
  simp only [Memory.readDevice_window window]
  rw [Memory.readDevice_window (by exact window), next_of_address]
  rfl

theorem writeDevice_dword (window : m.devices[index]? = some (.clint start)) (address : Word)
    (value : Dword) :
    m.writeDevice index .dword address value =
      (m.writeDevice index .word address (Dword.low value)).writeDevice index .word (address + 4)
        (Dword.high value) := by
  simp only [Memory.writeDevice_window window]
  rw [Memory.writeDevice_window (by exact window), next_of_address]
  rfl

/-- The window is an exact register file. -/
theorem window_exact (window : m.devices[index]? = some (.clint start)) (us : List Use) :
    Exact index start m.clint us (useAll index start m us) := by
  have devices := devices_useAll window us
  have window' : (useAll index start m us).devices[index]? = some (.clint start) := by
    rw [devices]
    exact window
  have size := size_useAll window us
  obtain ⟨_, harts, time⟩ := registers_useAll window us
  have present {p : Place} : p.Present (useAll index start m us).clint ↔ p.Present m.clint :=
    Place.present_congr size
  have shows {p : Place} {offset : Nat} (there : p.Present m.clint)
      (own : p.offset? = some offset) :
      shown index start (useAll index start m us) offset = p.keeps (held m.clint us p) :=
    (shown_of_present window' (present.mpr there) own).trans (word_useAll window there us)
  have hides {p : Place} {offset : Nat} (missing : ¬p.Present m.clint)
      (own : p.offset? = some offset) : shown index start (useAll index start m us) offset = 0 :=
    shown_of_missing window' (fun there => missing (present.mp there)) own
  refine
    { software := fun hart inside room => shows (p := .software hart) inside (if_pos room)
      compareLow := fun hart inside room => shows (p := .compareLow hart) inside (if_pos room)
      compareHigh := fun hart inside room => shows (p := .compareHigh hart) inside (if_pos room)
      timeLow := shows (p := .timeLow) trivial rfl
      timeHigh := shows (p := .timeHigh) trivial rfl
      missing := fun hart outside => ?missing
      unused := fun offset behind inside _ => shown_behind window' behind inside
      registers := ⟨size, harts, time⟩
      onward := fun _ fits => (TimeBase.now_later _ fits).trans (congrArg (· + _) time)
      alone := fun slot value p there other => ?alone
      readWide := readDevice_dword window'
      writeWide := writeDevice_dword window'
      readNarrow := fun w narrow address => readDevice_narrow window' narrow address
      writeNarrow := fun w narrow address value => writeDevice_narrow window' narrow address value
      pending := fun h reachable inside => ?pending }
  case missing =>
    have absent : ¬hart < m.clint.harts.size := Nat.not_lt.mpr outside
    exact ⟨fun room => hides (p := .software hart) absent (if_pos room), fun room =>
      ⟨hides (p := .compareLow hart) absent (if_pos room),
        hides (p := .compareHigh hart) absent (if_pos room)⟩⟩
  case alone =>
    rw [word_use window' there, Use.given?, if_neg other]
    rfl
  case pending =>
    obtain ⟨software, compare⟩ := harts h.config.id inside
    constructor
    · rw [reachable.pending_software, software, ← bit_eq_and_one]
      cases (held m.clint us (.software h.config.id)).getLsbD 0 <;> decide
    · rw [reachable.pending_timer, compare, time, decide_eq_true_eq]
      exact Iff.rfl

/-- Two harts, and a clock that has been going for a while: a guest gives all bits of a word to
the interrupt bit of the second hart, and a double word to its comparator; then the host sets the
clock. -/
theorem window_exact_of_two_harts :
    let m : Memory :=
      { Memory.empty ((Clint.init 2).later 500) (.empty 0) with devices := #[.clint 0x2000000] }
    let us : List Use :=
      [.write .word ⟨4, rfl, by decide⟩ 0xFFFFFFFF,
        .write .dword ⟨0x4008, rfl, by decide⟩ 0x200000001, .setTime 0x200000001]
    let m' := useAll 0 0x2000000 m us
    m.devices[0]? = some (.clint 0x2000000) ∧ Exact 0 0x2000000 m.clint us m' ∧
      [0, 4, 8, 0x4008, 0x400C, 0xBFF8, 0xBFFC].map (shown 0 0x2000000 m') =
        [0, 1, 0, 1, 2, 1, 2] := by
  intro m us m'
  exact ⟨rfl, window_exact rfl us, by decide +kernel⟩

end

end Clint
end Rv32
