/-
# `Rv32.Proofs.Device.Ram` — main memory, byte by byte

Main memory is seen through `byteAt?`: the byte at an address, if the memory has the
address.  An access that stays in its page gives what the bytes of the page are, and
changes no byte of another page.

What is kept beyond the length of a memory would come to light when the memory grows, so
there is to be nothing (`Ram.Trim`).  Memory is made so, and stays so whatever is done with it.
The length is kept twice; that the memory tells others its own (`Ram.Tells`) holds when it is
made, and when it is resized.
-/
import Rv32.Device.Ram
import Rv32.Proofs.Memory.Cells
import Rv32.Proofs.Paging.Page

namespace Rv32

/-! ## Accesses inside a page -/

/-- An access none of whose bytes lies in the next page. -/
def InPage (w : Width) (address : Word) : Prop :=
  (Paging.offsetOf address).toNat + w.bytes ≤ Paging.pageSize

theorem inPage_byte (address : Word) : InPage .byte address := by
  have h := (Paging.offsetOf address).isLt
  show (Paging.offsetOf address).toNat + 1 ≤ 4096
  omega

/-- The bytes of an access inside a page have consecutive numbers and the page of the
first. -/
theorem InPage.add {w : Width} {address : Word} (h : InPage w address) {i : Nat}
    (hi : i < w.bytes) :
    (address + BitVec.ofNat 32 i).toNat = address.toNat + i ∧
      Paging.pageOf (address + BitVec.ofNat 32 i) = Paging.pageOf address := by
  have hpage := (Paging.pageOf address).isLt
  have haddress := Paging.toNat_eq address
  simp only [InPage, Paging.pageSize] at h haddress
  have hadd : (address + BitVec.ofNat 32 i).toNat = address.toNat + i := by
    rw [BitVec.toNat_add, BitVec.toNat_ofNat]
    omega
  refine ⟨hadd, BitVec.eq_of_toNat_eq ?_⟩
  have hpage' := Paging.toNat_eq (address + BitVec.ofNat 32 i)
  have hoffset' := (Paging.offsetOf (address + BitVec.ofNat 32 i)).isLt
  simp only [Paging.pageSize] at hpage'
  omega

/-! ## Values and their bytes -/

theorem littleEndian_congr {n : Nat} {cells cells' : Nat → Byte}
    (h : ∀ i < n, cells i = cells' i) : littleEndian n cells = littleEndian n cells' := by
  induction n generalizing cells cells' with
  | zero => rfl
  | succ n ih =>
      simp only [littleEndian]
      rw [h 0 (by omega), ih fun i hi => h (i + 1) (by omega)]

theorem Width.combine_congr (w : Width) {cells cells' : Nat → Byte}
    (h : ∀ i < w.bytes, cells i = cells' i) : w.combine cells = w.combine cells' :=
  congrArg (BitVec.ofNat w.bits) (littleEndian_congr h)

theorem Width.length_split (w : Width) (value : BitVec w.bits) :
    (w.split value).length = w.bytes := by
  rw [split, List.length_map, List.length_range]

theorem Width.combine_byte (cells : Nat → Byte) : Width.byte.combine cells = cells 0 := by
  apply BitVec.eq_of_toNat_eq
  simp only [combine, littleEndian, Nat.mul_zero, Nat.add_zero, BitVec.toNat_ofNat,
    BitVec.toNat_mod_cancel]

/-! ## Main memory -/

namespace Ram

/-- The byte at an address of the memory. -/
def byteAt? (r : Ram) (address : Word) : Option Byte := (r.locate? .byte address).map r.cells.get

theorem locate?_eq_some {r : Ram} {w : Width} {address : Word} {offset : Nat} :
    r.locate? w address = some offset ↔
      r.start.toNat ≤ address.toNat ∧ offset = address.toNat - r.start.toNat ∧
        offset + w.bytes ≤ r.length.toNat := by
  simp only [locate?, offset?, Option.filter_eq_some_iff, decide_eq_true_eq]
  split
  case isTrue h =>
    simp only [Option.some.injEq, h, true_and]
    exact and_congr_left fun _ => eq_comm
  case isFalse h => simp [h]

/-- Memory of one page has no byte of another. -/
theorem byteAt?_of_page_ne {r : Ram} (place : Paging.offsetOf r.start = 0)
    (size : r.length = 0x1000) {address : Word}
    (h : Paging.pageOf address ≠ Paging.pageOf r.start) : r.byteAt? address = none := by
  cases hl : r.locate? .byte address with
  | none => rw [byteAt?, hl, Option.map_none]
  | some offset =>
      obtain ⟨hstart, rfl, hlength⟩ := locate?_eq_some.mp hl
      have hbegin := Paging.toNat_eq r.start
      have haddress := Paging.toNat_eq address
      have hoffset := (Paging.offsetOf address).isLt
      have hsize : r.length.toNat = 4096 := by rw [size]; rfl
      have hplace : (Paging.offsetOf r.start).toNat = 0 := by rw [place]; rfl
      simp only [Width.bytes, Paging.pageSize] at hlength hbegin haddress
      refine absurd (BitVec.eq_of_toNat_eq ?_) h
      omega

/-- Where an access finds its bytes depends on the place and the size only. -/
theorem locate?_congr {r r' : Ram} (start : r'.start = r.start) (length : r'.length = r.length)
    (w : Width) (address : Word) : r'.locate? w address = r.locate? w address := by
  simp only [locate?, offset?, start, length]

/-- The bytes of an access that lies inside. -/
theorem byteAt?_add {r : Ram} {w : Width} {address : Word} (fits : InPage w address)
    {offset : Nat} (located : r.locate? w address = some offset) {i : Nat} (hi : i < w.bytes) :
    r.byteAt? (address + BitVec.ofNat 32 i) = some (r.cells.get (offset + i)) := by
  obtain ⟨hstart, rfl, hlength⟩ := locate?_eq_some.mp located
  have hadd := (fits.add hi).1
  have hbyte : r.locate? .byte (address + BitVec.ofNat 32 i) =
      some (address.toNat - r.start.toNat + i) := by
    rw [locate?_eq_some, hadd]
    simp only [Width.bytes]
    omega
  rw [byteAt?, hbyte]
  rfl

theorem read_congr {r r' : Ram} (start : r'.start = r.start) (length : r'.length = r.length)
    {w : Width} {address : Word} (fits : InPage w address)
    (bytes : ∀ b, Paging.pageOf b = Paging.pageOf address → r'.byteAt? b = r.byteAt? b) :
    r'.read w address = r.read w address := by
  have hlocate := locate?_congr start length w address
  unfold read
  rw [hlocate]
  cases hl : r.locate? w address with
  | none => rfl
  | some offset =>
      refine w.combine_congr fun i hi => ?_
      have hbyte := bytes _ (fits.add hi).2
      rw [byteAt?_add fits (hlocate.trans hl) hi, byteAt?_add fits hl hi] at hbyte
      exact Option.some.inj hbyte

theorem write_start (r : Ram) (w : Width) (address : Word) (value : BitVec w.bits) :
    (r.write w address value).start = r.start := by
  unfold write
  split <;> rfl

theorem write_length (r : Ram) (w : Width) (address : Word) (value : BitVec w.bits) :
    (r.write w address value).length = r.length := by
  unfold write
  split <;> rfl

theorem write_handle (r : Ram) (w : Width) (address : Word) (value : BitVec w.bits) :
    (r.write w address value).handle = r.handle := by
  unfold write
  split <;> rfl

/-- The bytes after a write: those that lie in it are new. -/
theorem byteAt?_write (r : Ram) (w : Width) (address : Word) (value : BitVec w.bits) (b : Word) :
    (r.write w address value).byteAt? b =
      match r.locate? w address with
      | none => r.byteAt? b
      | some offset => (r.locate? .byte b).map fun o =>
          if offset ≤ o ∧ o < offset + w.bytes then (w.split value).getD (o - offset) 0
          else r.cells.get o := by
  unfold write
  cases hl : r.locate? w address with
  | none => rfl
  | some offset =>
      show (r.locate? .byte b).map (r.cells.setAll offset (w.split value)).get = _
      cases r.locate? .byte b with
      | none => rfl
      | some o => simp only [Option.map_some, Cells.get_setAll, w.length_split]

/-- A write changes no byte but its own. -/
theorem byteAt?_write_ne (r : Ram) {w : Width} {address : Word} (value : BitVec w.bits) {b : Word}
    (out : ∀ i < w.bytes, b ≠ address + BitVec.ofNat 32 i) :
    (r.write w address value).byteAt? b = r.byteAt? b := by
  rw [byteAt?_write]
  cases hl : r.locate? w address with
  | none => rfl
  | some offset =>
      obtain ⟨hstart, rfl, -⟩ := locate?_eq_some.mp hl
      cases hb : r.locate? .byte b with
      | none => simp only [byteAt?, hb, Option.map_none]
      | some o =>
          obtain ⟨hstart', rfl, -⟩ := locate?_eq_some.mp hb
          have hnot : ¬(address.toNat - r.start.toNat ≤ b.toNat - r.start.toNat ∧
              b.toNat - r.start.toNat < address.toNat - r.start.toNat + w.bytes) := by
            intro hin
            refine out (b.toNat - address.toNat) (by omega) (BitVec.eq_of_toNat_eq ?_)
            have hlt := b.isLt
            rw [BitVec.toNat_add, BitVec.toNat_ofNat]
            omega
          simp only [byteAt?, hb, Option.map_some, hnot, if_false]

/-- A write inside a page changes no byte of another page. -/
theorem byteAt?_write_out {r : Ram} {w : Width} {address : Word} (fits : InPage w address)
    (value : BitVec w.bits) {b : Word} (out : Paging.pageOf b ≠ Paging.pageOf address) :
    (r.write w address value).byteAt? b = r.byteAt? b :=
  r.byteAt?_write_ne value fun _ hi heq =>
    out ((congrArg Paging.pageOf heq).trans (fits.add hi).2)

/-- The same write on memories that agree on a byte leaves them agreeing on it. -/
theorem byteAt?_write_congr {r r' : Ram} (start : r'.start = r.start)
    (length : r'.length = r.length) (w : Width) (address : Word) (value : BitVec w.bits) {b : Word}
    (same : r'.byteAt? b = r.byteAt? b) :
    (r'.write w address value).byteAt? b = (r.write w address value).byteAt? b := by
  have hb := locate?_congr start length .byte b
  rw [byteAt?_write, byteAt?_write, locate?_congr start length]
  cases r.locate? w address with
  | none => exact same
  | some offset =>
      simp only [byteAt?, hb] at same ⊢
      cases hl : r.locate? .byte b with
      | none => rfl
      | some o =>
          simp only [hl, Option.map_some, Option.some.injEq] at same ⊢
          rw [same]

theorem load_length (r : Ram) (address : Word) (bytes : List Byte) :
    (r.load address bytes).length = r.length := by
  unfold load
  split <;> rfl

theorem load_handle (r : Ram) (address : Word) (bytes : List Byte) :
    (r.load address bytes).handle = r.handle := by
  unfold load
  split <;> rfl

/-! ## Nothing beyond the length -/

/-- Nothing is kept beyond the length. -/
def Trim (r : Ram) : Prop := r.cells.Fits r.length.toNat

theorem fits_iff {start length : Word} :
    fits start length = true ↔
      0 < length.toNat ∧ start.toNat + length.toNat ≤ 0x100000000 := by
  rw [fits, decide_eq_true_iff]
  omega

theorem Trim.write {r : Ram} (h : r.Trim) (w : Width) (address : Word) (value : BitVec w.bits) :
    (r.write w address value).Trim := by
  unfold Ram.write
  cases hl : r.locate? w address with
  | none => exact h
  | some offset =>
      refine Cells.Fits.setAll h ?_
      rw [w.length_split]
      exact (locate?_eq_some.mp hl).2.2

theorem Trim.load {r : Ram} (h : r.Trim) (address : Word) (bytes : List Byte) :
    (r.load address bytes).Trim := by
  unfold Ram.load
  cases r.offset? address with
  | none => exact h
  | some offset =>
      dsimp only
      -- There is room for some bytes, or none is copied.
      rcases Nat.lt_or_ge r.length.toNat offset with hlt | hle
      · rw [Nat.sub_eq_zero_of_le (Nat.le_of_lt hlt), List.take_zero]
        exact h
      · refine Cells.Fits.setAll h ?_
        have := List.length_take_le (r.length.toNat - offset) bytes
        omega

/-- The memory with another length. -/
def resized (r : Ram) (length : Word) : Ram :=
  { r with length, cells := r.cells.truncate length.toNat }

section
variable {r : Ram} {length : Word}

/-- A memory can have any length with which it ends in time. -/
theorem resize_of_fits (ends : fits r.start length = true) (lengths : Lengths) :
    r.resize length lengths = (true, r.resized length, lengths.set r.handle length) :=
  if_pos ends

theorem resize_of_not_fits (ends : ¬fits r.start length = true) (lengths : Lengths) :
    r.resize length lengths = (false, r, lengths) := if_neg ends

theorem trim_resized (r : Ram) (length : Word) : (r.resized length).Trim :=
  Cells.fits_truncate _ _

/-- A memory that grew gets back to what it was. -/
theorem Trim.resized_back (h : r.Trim) (grown : r.length.toNat ≤ length.toNat) :
    (r.resized length).resized r.length = r := by
  simp only [resized]
  rw [(h.mono grown).truncate_eq, Cells.Fits.truncate_eq h]

/-- The bytes of a memory with another length: the old ones, as many as there are, and zeros. -/
theorem get_resized {offset : Nat} (inside : offset < length.toNat) :
    (r.resized length).cells.get offset = r.cells.get offset :=
  (Cells.get_truncate _ _ _).trans (if_pos inside)

end

/-- A byte inside is read as it is kept. -/
theorem read_byte {r : Ram} {address : Word} {offset : Nat}
    (at_offset : address.toNat = r.start.toNat + offset) (inside : offset < r.length.toNat) :
    r.read .byte address = r.cells.get offset := by
  have hlocate : r.locate? .byte address = some offset := by
    rw [locate?_eq_some]
    simp only [Width.bytes]
    omega
  rw [read, hlocate]
  exact Width.combine_byte _

/-! ## The length that is told -/

end Ram

namespace Lengths

variable {l : Lengths} {handle other : Nat} {length : Word}

/-- There is a word under a handle, and it is some length. -/
def Tells (l : Lengths) (handle : Nat) (length : Word) : Prop := l.words[handle]? = some length

theorem Tells.get (h : l.Tells handle length) : l.get handle = length := by
  rw [Lengths.get, Array.getD_eq_getD_getElem?, h, Option.getD_some]

theorem Tells.lt (h : l.Tells handle length) : handle < l.words.size :=
  (Array.getElem?_eq_some_iff.mp h).1

theorem Tells.push (h : l.Tells handle length) (new : Word) :
    (l.push new).Tells handle length := by
  rw [Tells, Lengths.push, Array.getElem?_push, if_neg (Nat.ne_of_lt h.lt)]
  exact h

theorem tells_push (l : Lengths) (length : Word) : (l.push length).Tells l.next length :=
  Array.getElem?_push_size

theorem Tells.set (h : l.Tells handle length) (new : Word) :
    (l.set handle new).Tells handle new := by
  rw [Tells, Lengths.set, Array.getElem?_setIfInBounds, if_pos rfl, if_pos h.lt]

theorem Tells.set_ne (h : l.Tells handle length) (ne : other ≠ handle) (new : Word) :
    (l.set other new).Tells handle length := by
  rw [Tells, Lengths.set, Array.getElem?_setIfInBounds, if_neg ne]
  exact h

/-- What was told before can be told again. -/
theorem Tells.set_set (h : l.Tells handle length) (new : Word) :
    (l.set handle new).set handle length = l := by
  refine congrArg Lengths.mk (Array.ext_getElem? fun i => ?_)
  rw [Lengths.set, Array.setIfInBounds_setIfInBounds, Array.getElem?_setIfInBounds]
  split
  case isTrue heq => rw [← heq, if_pos h.lt, h]
  case isFalse => rfl

@[simp] theorem next_set (l : Lengths) (handle : Nat) (length : Word) :
    (l.set handle length).next = l.next := Array.size_setIfInBounds

@[simp] theorem next_push (l : Lengths) (length : Word) : (l.push length).next = l.next + 1 :=
  Array.size_push length

end Lengths

namespace Ram

/-- What a memory tells others is its length. -/
def Tells (r : Ram) (lengths : Lengths) : Prop := lengths.Tells r.handle r.length

/-- New memory has nothing but zeros, and tells its length under a handle that was not taken. -/
theorem eq_of_create {start length : Word} {lengths lengths' : Lengths} {r : Ram}
    (made : create start length lengths = (some r, lengths')) :
    r = ⟨start, length, .zero, lengths.next⟩ ∧ lengths' = lengths.push length := by
  unfold create at made
  split at made
  · cases made
    exact ⟨rfl, rfl⟩
  · cases made

/-- Where no memory is made, nothing is told. -/
theorem eq_of_create_none {start length : Word} {lengths lengths' : Lengths}
    (made : create start length lengths = (none, lengths')) : lengths' = lengths := by
  unfold create at made
  split at made
  · cases made
  · cases made
    rfl

theorem trim_zero (start length : Word) (handle : Nat) :
    (Ram.mk start length .zero handle).Trim := Cells.fits_zero _

/-! ## Loading -/

/-- `after` is `before` with bytes copied to it from an address on, as far as there are addresses
of the memory for them; nothing else has changed. -/
structure Copied (before : Ram) (address : Word) (bytes : List Byte) (after : Ram) : Prop where
  start : after.start = before.start
  length : after.length = before.length
  copied : ∀ q old, before.byteAt? q = some old → ∀ (i : Nat) (inside : i < bytes.length),
    q.toNat = address.toNat + i → after.byteAt? q = some bytes[i]
  others : ∀ q, q.toNat < address.toNat ∨ address.toNat + bytes.length ≤ q.toNat →
    after.byteAt? q = before.byteAt? q

theorem load_below {r : Ram} {address : Word} (below : address.toNat < r.start.toNat)
    (bytes : List Byte) : r.load address bytes = r := by
  rw [load, offset?, if_neg (Nat.not_le.mpr below)]

/-- From an address that is not below the memory, every byte for which there is an address is
copied. -/
theorem byteAt?_load {r : Ram} {address : Word} (above : r.start.toNat ≤ address.toNat)
    (bytes : List Byte) (q : Word) :
    (r.load address bytes).byteAt? q = (r.byteAt? q).map fun old =>
      if address.toNat ≤ q.toNat then bytes[q.toNat - address.toNat]?.getD old else old := by
  rw [load, offset?, if_pos above]
  show (r.locate? .byte q).map _ = ((r.locate? .byte q).map _).map _
  cases located : r.locate? .byte q with
  | none => rfl
  | some o =>
    obtain ⟨reached, rfl, inside⟩ := locate?_eq_some.mp located
    rw [Width.bytes] at inside
    simp only [Option.map_some, Option.some.injEq, Cells.get_setAll, List.length_take]
    by_cases after : address.toNat ≤ q.toNat
    · have moved : q.toNat - r.start.toNat - (address.toNat - r.start.toNat) =
          q.toNat - address.toNat := by omega
      rw [if_pos after, moved]
      by_cases given : q.toNat - address.toNat < bytes.length
      · rw [if_pos (by omega), List.getD_eq_getElem?_getD, List.getElem?_take_of_lt (by omega),
          List.getElem?_eq_getElem given]
        rfl
      · rw [if_neg (by omega), List.getElem?_eq_none (Nat.le_of_not_lt given)]
        rfl
    · rw [if_neg after, if_neg (by omega)]

theorem copied_load {r : Ram} {address : Word} (above : r.start.toNat ≤ address.toNat)
    (bytes : List Byte) : Copied r address bytes (r.load address bytes) where
  start := by
    unfold load
    split <;> rfl
  length := r.load_length address bytes
  copied q old known i inside place := by
    have offset : q.toNat - address.toNat = i := by omega
    rw [byteAt?_load above, known, Option.map_some, if_pos (by omega), offset,
      List.getElem?_eq_getElem inside]
    rfl
  others q outside := by
    rw [byteAt?_load above]
    rcases outside with before | behind
    · simp only [Nat.not_le.mpr before, if_false, Option.map_id']
    · simp only [List.getElem?_eq_none (show bytes.length ≤ q.toNat - address.toNat by omega),
        Option.getD_none, ite_self, Option.map_id']

/-- Bytes that all lie below the memory are none of it. -/
theorem copied_missed {r : Ram} {address : Word} {bytes : List Byte}
    (missed : address.toNat + bytes.length ≤ r.start.toNat) : Copied r address bytes r where
  start := rfl
  length := rfl
  copied q old known i inside place := by
    obtain ⟨o, located, -⟩ := Option.map_eq_some_iff.mp known
    have reached := (locate?_eq_some.mp located).1
    omega
  others q outside := rfl

/-- Loading copies the bytes that fall inside the memory; only if the first of them is below it,
and others are not, none is copied. -/
theorem load_copied (r : Ram) (address : Word) (bytes : List Byte) :
    (r.start.toNat ≤ address.toNat ∨ address.toNat + bytes.length ≤ r.start.toNat →
      Copied r address bytes (r.load address bytes)) ∧
    (address.toNat < r.start.toNat → r.load address bytes = r) := by
  refine ⟨fun fits => ?_, fun below => load_below below bytes⟩
  by_cases above : r.start.toNat ≤ address.toNat
  case pos => exact copied_load above bytes
  case neg =>
    have missed := fits.resolve_left above
    rw [load_below (Nat.lt_of_not_le above)]
    exact copied_missed missed

/-- The end of four bytes is cut off, and four bytes just below the memory are not copied. -/
theorem load_copied_of_four_bytes :
    let r : Ram := ⟨0x100, 4, .zero, 0⟩
    Copied r 0x102 [1, 2, 3, 4] (r.load 0x102 [1, 2, 3, 4]) ∧
      (r.load 0x102 [1, 2, 3, 4]).toList = [0, 0, 1, 2] ∧
      Copied r 0xFC [1, 2, 3, 4] (r.load 0xFC [1, 2, 3, 4]) ∧ r.load 0xFC [1, 2, 3, 4] = r := by
  intro r
  exact ⟨(load_copied r 0x102 [1, 2, 3, 4]).1 (.inl (by decide)), by decide +kernel,
    (load_copied r 0xFC [1, 2, 3, 4]).1 (.inr (by decide)),
    (load_copied r 0xFC [1, 2, 3, 4]).2 (by decide)⟩

/-- Of four bytes from two below the memory on, the last two fall inside, and are not copied. -/
theorem load_from_below_not_copied :
    let r : Ram := ⟨0x100, 4, .zero, 0⟩
    r.byteAt? 0x100 = some 0 ∧ (r.load 0xFE [1, 2, 3, 4]).toList = [0, 0, 0, 0] ∧
      ¬Copied r 0xFE [1, 2, 3, 4] (r.load 0xFE [1, 2, 3, 4]) := by
  intro r
  refine ⟨by decide +kernel, by decide +kernel, fun copies => ?_⟩
  have third := copies.copied 0x100 0 (by decide +kernel) 2 (by decide) (by decide)
  exact absurd third (by decide +kernel)

end Ram
end Rv32
