/-
# `Rv32.Proofs.Mmu.Bytes` — loads and stores are what their bytes are

An access may be aligned or not, and inside a page or across two; it may be one access to
physical memory or one for each of its bytes.  None of that shows, as long as its bytes are
translated to addresses of main memory.  A load gives the bytes at these addresses, and a store
replaces them (`read_bytes`, `write_bytes`).
-/
import Mathlib.Data.List.TakeWhile
import Rv32.Proofs.Mmu.Store
import Rv32.Proofs.Mmu.Translates

namespace Rv32

/-! ## Bytes stored one by one -/

namespace Memory

theorem stored_storeBytes {ps : List Word} {bytes : List Byte} {m : Memory}
    (distinct : ps.Nodup) (length : bytes.length = ps.length)
    (main : ∀ p ∈ ps, (m.mainByte? p).isSome = true) :
    Stored m (m.storeBytes (ps.zip bytes)) ps (fun i => bytes.getD i 0) := by
  induction ps generalizing bytes m with
  | nil => exact ⟨rfl, fun i hi => (nomatch hi), fun _ _ _ => rfl⟩
  | cons p ps ih =>
    obtain _ | ⟨b, bytes⟩ := bytes
    · cases length
    obtain ⟨apart, distinct⟩ := List.nodup_cons.mp distinct
    obtain ⟨held, main_p⟩ := Option.isSome_iff_exists.mp (main p List.mem_cons_self)
    obtain ⟨index, holds⟩ := Holds.of_byte main_p
    have first := stored_byte main_p b
    have rest := ih (m := (m.write .byte p b).2) distinct (Nat.succ.inj length) fun q hq => by
      rw [first.mainByte?_out fun same => apart (List.mem_singleton.mp same ▸ hq)]
      exact main q (List.mem_cons_of_mem _ hq)
    have all : (fun i => (b :: bytes).getD i 0) =
        fun i => if i = 0 then b else bytes.getD (i - 1) 0 := by
      funext i
      cases i <;> rfl
    rw [all]
    exact first.cons rest apart

end Memory

namespace Mmu

open Attempt Memory

variable {c : AccessContext} {w : Width} {address : Word} {mmu s : Mmu} {ps : List Word}

/-! ## In one piece or byte by byte -/

theorem inOnePiece_inPage (misaligned : c.misaligned = true) (fits : InPage w address) :
    inOnePiece c w address = .ok true := by
  rw [InPage, Paging.toNat_offsetOf] at fits
  unfold inOnePiece
  split
  · rfl
  · rw [misaligned, if_neg (by decide), decide_eq_true fits]

theorem inOnePiece_not_inPage (misaligned : c.misaligned = true) (leaves : ¬InPage w address) :
    inOnePiece c w address = .ok false := by
  unfold inOnePiece
  split
  case isTrue aligned => exact absurd (inPage_of_admits aligned) leaves
  case isFalse =>
    rw [InPage, Paging.toNat_offsetOf] at leaves
    rw [misaligned, if_neg (by decide), decide_eq_false leaves]

theorem read_whole (one : inOnePiece c w address = .ok true) (mmu : Mmu) :
    read c w address mmu =
      (translate c address .read >>= fun p => physically (·.read w p)) mmu := by
  rw [read, bind_run, lift_run, one]
  rfl

theorem read_split (pieces : inOnePiece c w address = .ok false) (mmu : Mmu) :
    read c w address mmu =
      (readBytes c address w.bytes >>= fun bytes =>
        pure (w.combine fun i => bytes.getD i 0)) mmu := by
  rw [read, bind_run, lift_run, pieces]
  rfl

theorem write_whole (one : inOnePiece c w address = .ok true) (value : BitVec w.bits)
    (mmu : Mmu) :
    write c w address value mmu =
      (translate c address .write >>= fun p => physically (·.write w p value)) mmu := by
  rw [write, bind_run, lift_run, one]
  rfl

theorem write_split (pieces : inOnePiece c w address = .ok false) (value : BitVec w.bits)
    (mmu : Mmu) :
    write c w address value mmu =
      (translateBytes c address w.bytes >>= fun physical =>
        writeBytes (physical.zip (w.split value))) mmu := by
  rw [write, bind_run, lift_run, pieces]
  rfl

/-! ## Byte by byte -/

theorem translateBytes_run (h : Translates c .write address mmu ps s) :
    translateBytes c address ps.length mmu = (.ok ps, s) := by
  induction h with
  | nil => rfl
  | cons translated _ ih =>
    rw [List.length_cons, translateBytes, bind_run, translated]
    dsimp only
    rw [bind_run, ih]
    rfl

theorem physicalRead_run {index : Nat} {cells : Nat → Byte} {physical : Word}
    (h : mmu.memory.Holds w physical index cells) :
    physically (·.read w physical) mmu = (.ok (w.combine cells), mmu) := by
  rw [physically_run, h.read]
  rfl

theorem readBytes_run {cells : Nat → Byte} (h : Translates c .read address mmu ps s)
    (main : ∀ (i : Nat) (hi : i < ps.length), mmu.memory.mainByte? ps[i] = some (cells i)) :
    readBytes c address ps.length mmu = (.ok ((List.range ps.length).map cells), s) := by
  induction h generalizing cells with
  | nil => rfl
  | @cons address physical rest mmu mmu₁ s translated tail ih =>
    have kept := undisturbed_of_translate translated
    have first : mmu₁.memory.mainByte? physical = some (cells 0) := by
      rw [kept.mainByte?]
      exact main 0 (Nat.succ_pos _)
    obtain ⟨index, holds⟩ := Holds.of_byte first
    have others : ∀ (i : Nat) (hi : i < rest.length),
        mmu₁.memory.mainByte? rest[i] = some (cells (i + 1)) := by
      intro i hi
      rw [kept.mainByte?]
      exact main (i + 1) (Nat.succ_lt_succ hi)
    rw [List.length_cons, readBytes, bind_run, translated]
    dsimp only
    rw [bind_run, physicalRead_run holds]
    dsimp only
    rw [bind_run, ih others, Width.combine_byte, List.range_succ_eq_map, List.map_cons,
      List.map_map]
    rfl

/-! ## Accesses to main memory -/

/-- The bytes of an access are translated to addresses of main memory; those of an access
inside a page, to addresses of one device. -/
structure Backed (c : AccessContext) (access : Access) (w : Width) (address : Word) (mmu : Mmu)
    (ps : List Word) (s : Mmu) : Prop where
  translates : Translates c access address mmu ps s
  length : ps.length = w.bytes
  main : ∀ p ∈ ps, (mmu.memory.mainByte? p).isSome = true
  one : InPage w address → ∀ p ∈ ps, ∀ q ∈ ps, mmu.memory.route p = mmu.memory.route q

theorem Backed.exists_cells {access : Access} (b : Backed c access w address mmu ps s) :
    ∃ cells : Nat → Byte, ∀ (i : Nat) (hi : i < ps.length),
      mmu.memory.mainByte? ps[i] = some (cells i) := by
  refine ⟨fun i => (ps[i]?.bind mmu.memory.mainByte?).getD 0, fun i hi => ?_⟩
  obtain ⟨byte, main⟩ := Option.isSome_iff_exists.mp (b.main _ (List.getElem_mem hi))
  simp only [List.getElem?_eq_getElem hi, Option.bind_some, main, Option.getD_some]

/-- An access inside a page is one access to main memory, to the addresses that its bytes
have. -/
theorem Backed.holds {access : Access} (b : Backed c access w address mmu ps s)
    (fits₀ : InPage w address) {cells : Nat → Byte}
    (held : ∀ (i : Nat) (hi : i < ps.length), mmu.memory.mainByte? ps[i] = some (cells i)) :
    ∃ physical index, translate c address access mmu = (.ok physical, s) ∧
      s.memory.Holds w physical index cells ∧
      (∀ (i : Nat) (hi : i < ps.length), ps[i] = physical + BitVec.ofNat 32 i) ∧
      ∀ p ∈ ps, s.memory.route p = some index := by
  obtain ⟨physical, translated, fits, place⟩ := b.translates.inPage b.length fits₀
  have kept := b.translates.undisturbed
  have bytes : ∀ i < w.bytes,
      s.memory.mainByte? (physical + BitVec.ofNat 32 i) = some (cells i) := by
    intro i hi
    have inside : i < ps.length := b.length ▸ hi
    rw [kept.mainByte?, ← place i inside]
    exact held i inside
  have first : physical ∈ ps := by
    have inside : 0 < ps.length := b.length ▸ w.bytes_pos
    have same := place 0 inside
    rw [BitVec.add_zero] at same
    exact same ▸ List.getElem_mem inside
  have one : ∀ p ∈ ps, s.memory.route p = s.memory.route physical := by
    intro p hp
    rw [kept.route]
    exact b.one fits₀ p hp physical first
  obtain ⟨index, holds⟩ := Holds.of_mainByte? fits bytes fun i hi => by
    have inside : i < ps.length := b.length ▸ hi
    exact one _ (place i inside ▸ List.getElem_mem inside)
  exact ⟨physical, index, translated, holds, place, fun p hp => (one p hp).trans holds.route⟩

theorem write_bytes (misaligned : c.misaligned = true) (b : Backed c .write w address mmu ps s)
    (value : BitVec w.bits) :
    ∃ after, write c w address value mmu = (.ok (), after) ∧
      Stored mmu.memory after.memory ps (byteOf value) := by
  have kept := b.translates.undisturbed
  by_cases fits : InPage w address
  case pos =>
    obtain ⟨cells, held⟩ := b.exists_cells
    obtain ⟨physical, index, translated, holds, place, one⟩ := b.holds fits held
    refine ⟨⟨(s.memory.write w physical value).2, s.cache⟩, ?_, ?_⟩
    · rw [write_whole (inOnePiece_inPage misaligned fits), bind_run, translated]
      dsimp only
      rw [physicalWrite_run, mapped_of_route holds.route]
      rfl
    · exact (holds.stored value b.length place one).of_undisturbed kept
  case neg =>
    have main : ∀ p ∈ ps, (s.memory.mainByte? p).isSome = true := by
      rw [kept.mainByte?]
      exact b.main
    have mapped : ∀ d ∈ ps.zip (w.split value), s.memory.mapped d.1 = true :=
      fun d hd => mapped_of_mainByte? (main d.1 (List.of_mem_zip hd).1)
    refine ⟨⟨s.memory.storeBytes (ps.zip (w.split value)), s.cache⟩, ?_, ?_⟩
    · rw [write_split (inOnePiece_not_inPage misaligned fits), bind_run, ← b.length,
        translateBytes_run b.translates]
      dsimp only
      rw [writeBytes_run, if_pos (List.all_eq_true.mpr mapped),
        List.takeWhile_eq_self_iff.mpr mapped]
    · have few : ps.length ≤ 4096 := by
        rw [b.length]
        cases w <;> decide
      have length : (w.split value).length = ps.length := w.length_split value ▸ b.length.symm
      have stored := stored_storeBytes (b.translates.nodup few) length main
      refine (stored.congr fun i hi => ?_).of_undisturbed kept
      exact w.getD_split value (b.length ▸ hi)

theorem read_bytes (misaligned : c.misaligned = true) (b : Backed c .read w address mmu ps s)
    {cells : Nat → Byte}
    (held : ∀ (i : Nat) (hi : i < ps.length), mmu.memory.mainByte? ps[i] = some (cells i)) :
    read c w address mmu = (.ok (w.combine cells), s) := by
  by_cases fits : InPage w address
  case pos =>
    obtain ⟨physical, index, translated, holds, -⟩ := b.holds fits held
    rw [read_whole (inOnePiece_inPage misaligned fits), bind_run, translated]
    exact physicalRead_run holds
  case neg =>
    rw [read_split (inOnePiece_not_inPage misaligned fits), bind_run, ← b.length,
      readBytes_run b.translates held]
    have same : ∀ i < w.bytes, ((List.range ps.length).map cells).getD i 0 = cells i := by
      intro i hi
      have inside : i < ((List.range ps.length).map cells).length := by
        rwa [List.length_map, List.length_range, b.length]
      rw [List.getD_eq_getElem?_getD, List.getElem?_eq_getElem inside, Option.getD_some,
        List.getElem_map, List.getElem_range]
    exact congrArg (fun value => (Except.ok value, s)) (w.combine_congr same)

/-- Memory is an array of bytes to loads and stores of every width, at every address.  A store
replaces the bytes at the addresses that its own are translated to, and no others; a load puts
together the bytes at these addresses, and changes none.  So a load after a store finds the
bytes that the store wrote, however the two overlap.

The bytes of an access are translated one after the other.  Each has the address that it would
have on its own, if the access does not leave its page or the remembered pages are up to date. -/
theorem accesses_are_bytes (misaligned : c.misaligned = true) :
    (∀ ps s (value : BitVec w.bits), Backed c .write w address mmu ps s →
      ∃ after, write c w address value mmu = (.ok (), after) ∧
        Stored mmu.memory after.memory ps (byteOf value) ∧
        ∀ (c' : AccessContext) (w' : Width) (address' : Word) ps' s' (cells : Nat → Byte),
          c'.misaligned = true → Backed c' .read w' address' after ps' s' →
          (∀ (j : Nat) (hj : j < ps'.length),
            (∀ (i : Nat) (hi : i < ps.length), ps[i] = ps'[j] → byteOf value i = cells j) ∧
            (ps'[j] ∉ ps → mmu.memory.mainByte? ps'[j] = some (cells j))) →
          read c' w' address' after = (.ok (w'.combine cells), s')) ∧
    (∀ ps s (cells : Nat → Byte), Backed c .read w address mmu ps s →
      (∀ (i : Nat) (hi : i < ps.length), mmu.memory.mainByte? ps[i] = some (cells i)) →
      read c w address mmu = (.ok (w.combine cells), s) ∧
        ∀ index q, s.memory.ramByte? index q = mmu.memory.ramByte? index q) ∧
    ∀ access ps s, Backed c access w address mmu ps s →
      InPage w address ∨ UpToDate c access mmu →
      ∀ (i : Nat) (hi : i < ps.length),
        (translate c (address + BitVec.ofNat 32 i) access mmu).1 = .ok ps[i] := by
  refine ⟨fun ps s value b => ?_, fun ps s cells b held => ?_, fun access ps s b known i hi => ?_⟩
  · obtain ⟨after, written, stored⟩ := write_bytes misaligned b value
    refine ⟨after, written, stored, fun c' w' address' ps' s' cells misaligned' b' now => ?_⟩
    exact read_bytes misaligned' b' fun j hj => stored.mainByte?_eq (now j hj).1 (now j hj).2
  · exact ⟨read_bytes misaligned b held, b.translates.undisturbed.ram⟩
  · obtain fits | current := known
    · exact b.translates.alone_inPage b.length fits i hi
    · exact b.translates.alone current i hi

/-- A page table that swaps the two pages of main memory. -/
def swapped : Mmu :=
  ofMemory
    { devices := #[.ram ⟨0x80000000, 0x2000, .zero, 0⟩,
        .rom ⟨0x1000, Bytes.pack [0x01, 4, 0, 0, 0x07, 4, 0, 0x20, 0x07, 0, 0, 0x20]⟩]
      map := ⟨#[(⟨0x1000, 0x100B, by decide⟩, 1), (⟨0x80000000, 0x80001FFF, by decide⟩, 0)]⟩
      reservations := .none
      clint := Clint.init 1
      lengths := ⟨#[0x2000]⟩
      journal := Journal.empty 0 }

def supervisor : AccessContext := ⟨0, .supervisor, 0x80000001, false, false, true⟩

theorem swapped_backed : ∃ s, Backed supervisor .write .word 0x1FFE swapped
    [0x80001FFE, 0x80001FFF, 0x80000000, 0x80000001] s := by
  have main : ∀ p ∈ [0x80001FFE, 0x80001FFF, 0x80000000, 0x80000001],
      (swapped.memory.mainByte? p).isSome = true := by
    simp only [List.forall_mem_cons, List.not_mem_nil, false_implies, implies_true]
    decide +kernel
  have translates : ∃ s, Translates supervisor .write 0x1FFE swapped
      [0x80001FFE, 0x80001FFF, 0x80000000, 0x80000001] s :=
    ⟨_, .of_run (by decide +kernel) (.of_run (by decide +kernel)
      (.of_run (by decide +kernel) (.of_run (by decide +kernel) (.nil _ _))))⟩
  have leaves : ¬InPage .word 0x1FFE := by unfold InPage; decide
  obtain ⟨s, translates⟩ := translates
  exact ⟨s, translates, rfl, main, fun fits => absurd fits leaves⟩

/-- A word that is stored over the end of a page, so to both ends of main memory; and half of
it, loaded from there. -/
theorem accesses_are_bytes_over_two_pages :
    ∃ after, write supervisor .word 0x1FFE 0x11223344 swapped = (.ok (), after) ∧
      (read supervisor .half 0x1FFF after).1 = .ok 0x2233 := by
  obtain ⟨s, backed⟩ := swapped_backed
  obtain ⟨after, written, -, reads⟩ := (accesses_are_bytes rfl).1 _ s 0x11223344 backed
  refine ⟨after, written, ?_⟩
  obtain rfl : (write supervisor .word 0x1FFE 0x11223344 swapped).2 = after := by rw [written]
  have main : ∀ p ∈ [0x80001FFF, 0x80000000],
      ((write supervisor .word 0x1FFE 0x11223344 swapped).2.memory.mainByte? p).isSome = true := by
    simp only [List.forall_mem_cons, List.not_mem_nil, false_implies, implies_true]
    decide +kernel
  have translates : ∃ s', Translates supervisor .read 0x1FFF
      (write supervisor .word 0x1FFE 0x11223344 swapped).2 [0x80001FFF, 0x80000000] s' :=
    ⟨_, .of_run (by decide +kernel) (.of_run (by decide +kernel) (.nil _ _))⟩
  have leaves : ¬InPage .half 0x1FFF := by unfold InPage; decide
  obtain ⟨s', translates⟩ := translates
  rw [reads supervisor .half 0x1FFF _ s' (fun j => if j = 0 then 0x33 else 0x22) rfl
    ⟨translates, rfl, main, fun fits => absurd fits leaves⟩ (by decide)]
  rfl

end Mmu
end Rv32
