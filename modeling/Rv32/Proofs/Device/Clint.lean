/-
# `Rv32.Proofs.Device.Clint` — the registers of the interruptor, word by word

The registers of all harts and the clock are made of words, and the window shows some of them:
a hart's interrupt bit and the two halves of its comparator where there is room for the hart,
and the two halves of the clock (`Place.offset?`).  So an offset of the window belongs to one
word or to none.

A write at an offset gives the word that belongs to it to its register, and no other word
changes, of this hart or of another; the host's own writes change whole registers and no other
ones.

The clock is no register that holds what it is given: it has an offset from a count, and is read
back because the count is in both (`now_set`).
-/
import Rv32.Device.Clint
import Rv32.Proofs.Word

namespace Rv32

/-! ## The clock -/

namespace TimeBase

/-- A clock shows what it was set to, while it stands still. -/
theorem now_set (t : TimeBase) (value : Dword) : (t.set value).now = value := by
  show t.count + (value - t.count) = value
  rw [BitVec.add_comm, BitVec.sub_add_cancel]

/-- It goes on from there, for as long as there are numbers for the count. -/
theorem now_later (t : TimeBase) {microseconds : Nat}
    (fits : t.elapsed + microseconds < 0x8000000000000000) :
    (t.later microseconds).now = t.now + BitVec.ofNat 64 microseconds := by
  have before : t.elapsed < 0x8000000000000000 := Nat.lt_of_le_of_lt (Nat.le_add_right ..) fits
  have count : (t.later microseconds).count = t.count + BitVec.ofNat 64 microseconds := by
    show (if _ then _ else _) = (if _ then _ else _) + _
    rw [later, if_pos fits, if_pos before, BitVec.ofNat_add]
  rw [now, now, count, later, BitVec.add_assoc, BitVec.add_assoc,
    BitVec.add_comm (BitVec.ofNat 64 microseconds)]

end TimeBase

namespace Clint

/-! ## Registers -/

section
variable (c : Clint) (hart : Nat)

theorem size_setSoftware (value : Bool) : (c.setSoftware hart value).harts.size = c.harts.size :=
  Array.size_modify

theorem size_setCompare (value : Dword) : (c.setCompare hart value).harts.size = c.harts.size :=
  Array.size_modify

theorem software_setCompare (value : Dword) (i : Nat) :
    (c.setCompare hart value).software i = c.software i := by
  unfold software setCompare
  rw [Array.getElem?_modify]
  by_cases own : hart = i
  · rw [if_pos own]
    cases c.harts[i]? <;> rfl
  · rw [if_neg own]

theorem compare_setCompare (value : Dword) (inside : hart < c.harts.size) :
    (c.setCompare hart value).compare hart = value := by
  unfold compare setCompare
  rw [Array.getElem?_modify, if_pos rfl, Array.getElem?_eq_getElem inside]
  rfl

theorem compare_setCompare_ne (value : Dword) {i : Nat} (other : i ≠ hart) :
    (c.setCompare hart value).compare i = c.compare i := by
  unfold compare setCompare
  rw [Array.getElem?_modify, if_neg (Ne.symm other)]

/-- A comparator that was set to something else can be set back to what it was. -/
theorem setCompare_back (value : Dword) :
    (c.setCompare hart value).setCompare hart (c.compare hart) = c := by
  have hharts : ((c.setCompare hart value).setCompare hart (c.compare hart)).harts = c.harts := by
    apply Array.ext_getElem?
    intro i
    unfold setCompare compare
    rw [Array.getElem?_modify, Array.getElem?_modify]
    by_cases own : hart = i
    · subst own
      rw [if_pos rfl, if_pos rfl]
      cases c.harts[hart]? <;> rfl
    · rw [if_neg own, if_neg own]
  exact congrArg (Clint.mk · c.clock) hharts

theorem compare_setSoftware (value : Bool) (i : Nat) :
    (c.setSoftware hart value).compare i = c.compare i := by
  unfold compare setSoftware
  rw [Array.getElem?_modify]
  by_cases own : hart = i
  · rw [if_pos own]
    cases c.harts[i]? <;> rfl
  · rw [if_neg own]

theorem software_setSoftware (value : Bool) (inside : hart < c.harts.size) :
    (c.setSoftware hart value).software hart = value := by
  unfold software setSoftware
  rw [Array.getElem?_modify, if_pos rfl, Array.getElem?_eq_getElem inside]
  rfl

theorem software_setSoftware_ne (value : Bool) {i : Nat} (other : i ≠ hart) :
    (c.setSoftware hart value).software i = c.software i := by
  unfold software setSoftware
  rw [Array.getElem?_modify, if_neg (Ne.symm other)]

theorem software_of_missing (missing : c.harts.size ≤ hart) : c.software hart = false := by
  unfold software
  rw [Array.getElem?_eq_none missing]

end

/-! ## Words -/

theorem bit_eq_and_one (value : Word) :
    (if value.getLsbD 0 then 1 else 0 : Word) = value &&& 1 := by
  rw [show (1 : Word) = 1#32 from rfl, BitVec.and_one_eq_setWidth_ofBool_getLsbD]
  cases value.getLsbD 0 <;> rfl

namespace Place

/-- Whether there is a register for a word. -/
def Present (c : Clint) : Place → Prop
  | .software hart | .compareLow hart | .compareHigh hart => hart < c.harts.size
  | .timeLow | .timeHigh => True
  | .unused => False

/-- The word of a register. -/
def word (c : Clint) : Place → Word
  | .software hart => if c.software hart then 1 else 0
  | .compareLow hart => Dword.low (c.compare hart)
  | .compareHigh hart => Dword.high (c.compare hart)
  | .timeLow => Dword.low c.time
  | .timeHigh => Dword.high c.time
  | .unused => 0

/-- What a register keeps of a word it is given: for an interrupt bit, the lowest bit. -/
def keeps : Place → Word → Word
  | .software _, value => value &&& 1
  | .compareLow _, value | .compareHigh _, value | .timeLow, value | .timeHigh, value => value
  | .unused, _ => 0

/-- The offset at which the window shows a word. -/
def offset? : Place → Option Nat
  | .software hart => if 4 * hart < 0x4000 then some (4 * hart) else none
  | .compareLow hart => if 0x4000 + 8 * hart < 0xBFF8 then some (0x4000 + 8 * hart) else none
  | .compareHigh hart =>
    if 0x4000 + 8 * hart < 0xBFF8 then some (0x4000 + 8 * hart + 4) else none
  | .timeLow => some 0xBFF8
  | .timeHigh => some 0xBFFC
  | .unused => none

end Place

/-- An offset belongs to the word that the window shows there. -/
theorem place_eq_iff {offset : Word} (aligned : offset.toNat % 4 = 0) {p : Place}
    (used : p ≠ .unused) : place offset = p ↔ p.offset? = some offset.toNat := by
  unfold place
  dsimp only
  cases p with
  | software hart | compareLow hart | compareHigh hart =>
    rw [Place.offset?, Option.ite_none_right_eq_some, Option.some.injEq]
    repeat' split
    all_goals simp only [Place.software.injEq, Place.compareLow.injEq, Place.compareHigh.injEq,
      reduceCtorEq, false_iff]
    all_goals omega
  | timeLow | timeHigh =>
    rw [Place.offset?, Option.some.injEq]
    repeat' split
    all_goals simp only [reduceCtorEq, true_iff, false_iff]
    all_goals omega
  | unused => exact absurd rfl used

/-- Every word that the window shows has an offset where a word begins. -/
theorem Place.offset?_aligned {p : Place} {offset : Nat} (own : p.offset? = some offset) :
    offset < 0x10000 ∧ offset % 4 = 0 := by
  cases p with
  | software hart | compareLow hart | compareHigh hart =>
    rw [Place.offset?, Option.ite_none_right_eq_some, Option.some.injEq] at own
    omega
  | timeLow | timeHigh =>
    cases own
    decide
  | unused => cases own

theorem place_of_offset? {p : Place} {offset : Nat} (own : p.offset? = some offset) :
    place (BitVec.ofNat 32 offset) = p := by
  obtain ⟨inside, aligned⟩ := Place.offset?_aligned own
  have same : (BitVec.ofNat 32 offset).toNat = offset := Nat.mod_eq_of_lt (by omega)
  refine (place_eq_iff (by rw [same]; exact aligned) ?_).mpr (by rw [same]; exact own)
  rintro rfl
  cases own

variable {c : Clint} {p : Place}

theorem Place.present_congr {c c' : Clint} (size : c'.harts.size = c.harts.size) :
    p.Present c' ↔ p.Present c := by
  cases p <;> simp only [Place.Present, size]

/-- The window shows the word an offset belongs to, if there is a register for it. -/
theorem readWord_of_present {offset : Word} (there : (place offset).Present c) :
    c.readWord offset = (place offset).word c := by
  revert there
  unfold readWord
  cases place offset with
  | software hart => exact fun _ => rfl
  | compareLow hart => exact fun there => if_pos there
  | compareHigh hart => exact fun there => if_pos there
  | timeLow => exact fun _ => rfl
  | timeHigh => exact fun _ => rfl
  | unused => exact fun there => absurd there id

/-- Otherwise it shows zero. -/
theorem readWord_of_missing {offset : Word} (missing : ¬(place offset).Present c) :
    c.readWord offset = 0 := by
  revert missing
  unfold readWord
  cases place offset with
  | software hart =>
    intro missing
    have off := c.software_of_missing hart (Nat.le_of_not_lt missing)
    exact if_neg (by rw [off]; decide)
  | compareLow hart => exact fun missing => if_neg missing
  | compareHigh hart => exact fun missing => if_neg missing
  | timeLow => exact fun missing => absurd trivial missing
  | timeHigh => exact fun missing => absurd trivial missing
  | unused => exact fun _ => rfl

theorem word_setSoftware (there : p.Present c) (hart : Nat) (value : Bool) :
    p.word (c.setSoftware hart value) =
      if p = .software hart then (if value then 1 else 0) else p.word c := by
  cases p with
  | software i =>
    by_cases own : i = hart
    · subst own
      rw [if_pos rfl, Place.word, c.software_setSoftware i value there]
    · rw [if_neg fun h => own (Place.software.inj h), Place.word,
        c.software_setSoftware_ne hart value own]
      rfl
  | compareLow i => exact congrArg Dword.low (c.compare_setSoftware hart value i)
  | compareHigh i => exact congrArg Dword.high (c.compare_setSoftware hart value i)
  | timeLow => rfl
  | timeHigh => rfl
  | unused => rfl

theorem word_setCompare (there : p.Present c) (hart : Nat) (value : Dword) :
    p.word (c.setCompare hart value) =
      if p = .compareLow hart then Dword.low value
      else if p = .compareHigh hart then Dword.high value
      else p.word c := by
  cases p with
  | software i =>
    rw [if_neg nofun, if_neg nofun, Place.word, c.software_setCompare hart value i]
    rfl
  | compareLow i =>
    rw [if_neg (c := Place.compareLow i = .compareHigh hart) nofun]
    by_cases own : i = hart
    · subst own
      rw [if_pos rfl, Place.word, c.compare_setCompare i value there]
    · rw [if_neg fun h => own (Place.compareLow.inj h), Place.word,
        c.compare_setCompare_ne hart value own]
      rfl
  | compareHigh i =>
    rw [if_neg (c := Place.compareHigh i = .compareLow hart) nofun]
    by_cases own : i = hart
    · subst own
      rw [if_pos rfl, Place.word, c.compare_setCompare i value there]
    · rw [if_neg fun h => own (Place.compareHigh.inj h), Place.word,
        c.compare_setCompare_ne hart value own]
      rfl
  | timeLow => rfl
  | timeHigh => rfl
  | unused => rfl

theorem word_setTime (value : Dword) :
    p.word (c.setTime value) =
      if p = .timeLow then Dword.low value
      else if p = .timeHigh then Dword.high value
      else p.word c := by
  have shown : (c.setTime value).time = value := c.clock.now_set value
  cases p with
  | timeLow => exact congrArg Dword.low shown
  | timeHigh => exact congrArg Dword.high shown
  | software | compareLow | compareHigh | unused => rfl

theorem size_writeWord (c : Clint) (offset value : Word) :
    (c.writeWord offset value).harts.size = c.harts.size := by
  unfold writeWord
  cases place offset with
  | software hart => exact c.size_setSoftware hart _
  | compareLow hart => exact c.size_setCompare hart _
  | compareHigh hart => exact c.size_setCompare hart _
  | timeLow => rfl
  | timeHigh => rfl
  | unused => rfl

/-- Of two halves, the lower one was replaced. -/
theorem ite_setLow {low high : Place} {d : Dword} (same : high.word c = Dword.high d)
    (value : Word) :
    (if p = low then Dword.low (d.setLow value)
      else if p = high then Dword.high (d.setLow value) else p.word c) =
      if p = low then value else p.word c := by
  rw [Dword.setLow, Dword.low_ofHalves, Dword.high_ofHalves]
  by_cases other : p = high
  · rw [if_pos other, other, same]
  · rw [if_neg other]

/-- Of two halves, the upper one was replaced. -/
theorem ite_setHigh {low high : Place} {d : Dword} (apart : low ≠ high)
    (same : low.word c = Dword.low d) (value : Word) :
    (if p = low then Dword.low (d.setHigh value)
      else if p = high then Dword.high (d.setHigh value) else p.word c) =
      if p = high then value else p.word c := by
  rw [Dword.setHigh, Dword.low_ofHalves, Dword.high_ofHalves]
  by_cases other : p = low
  · subst other
    rw [if_pos rfl, if_neg apart, same]
  · rw [if_neg other]

/-- A word that is written goes to the register it belongs to, and changes no other word. -/
theorem word_writeWord (there : p.Present c) {offset : Word} (aligned : offset.toNat % 4 = 0)
    (value : Word) :
    p.word (c.writeWord offset value) =
      if p.offset? = some offset.toNat then p.keeps value else p.word c := by
  have used : p ≠ .unused := by
    rintro rfl
    exact there
  have own : (if p = place offset then p.keeps value else p.word c) =
      if p = place offset then (place offset).keeps value else p.word c := by
    split
    case isTrue same => rw [← same]
    case isFalse => rfl
  simp only [← place_eq_iff aligned used, eq_comm (a := place offset)]
  rw [own]
  unfold writeWord
  cases place offset with
  | software hart =>
    rw [word_setSoftware there, bit_eq_and_one]
    rfl
  | compareLow hart =>
    rw [word_setCompare there]
    exact ite_setLow rfl value
  | compareHigh hart =>
    rw [word_setCompare there]
    exact ite_setHigh (by nofun) rfl value
  | timeLow =>
    rw [word_setTime]
    exact ite_setLow rfl value
  | timeHigh =>
    rw [word_setTime]
    exact ite_setHigh (by nofun) rfl value
  | unused => rw [if_neg used]

end Clint
end Rv32
