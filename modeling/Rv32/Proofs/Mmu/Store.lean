/-
# `Rv32.Proofs.Mmu.Store` — what a store that fails has done

A store in one piece either writes all of its bytes or none.  A store that leaves its page
is made byte by byte, after every byte has been translated; so a page fault still finds
nothing written.  But that a byte has a physical address does not mean that a device has
this address, and this is found out only when the byte is to be written.  The bytes before
it are in memory by then (`BrokenOff`).
-/
import Rv32.Mmu.Access
import Rv32.Proofs.Memory.Contents

namespace Rv32

/-! ## Bytes written one after the other -/

namespace Memory

/-- The memory after bytes are written, each to an address of its own. -/
def storeBytes (m : Memory) (bytes : List (Word × Byte)) : Memory :=
  bytes.foldl (fun m b => (m.write .byte b.1 b.2).2) m

end Memory

namespace Mmu

open Attempt Memory

/-- Bytes are written up to the first whose address no device has. -/
theorem writeBytes_run (bytes : List (Word × Byte)) (mmu : Mmu) :
    writeBytes bytes mmu =
      (if bytes.all (fun b => mmu.memory.mapped b.1) then .ok () else .error .access,
        ⟨mmu.memory.storeBytes (bytes.takeWhile fun b => mmu.memory.mapped b.1), mmu.cache⟩) := by
  induction bytes generalizing mmu with
  | nil => rfl
  | cons b rest ih =>
      simp only [writeBytes, List.all_cons, List.takeWhile_cons]
      rw [Attempt.bind_run, physicalWrite_run]
      by_cases hb : mmu.memory.mapped b.1 = true
      · simp only [hb, if_true, ih, mapped_congr (map_write _ _ _ _), Bool.true_and]
        rfl
      · have hb := eq_false_of_ne_true hb
        simp only [hb, write_unmapped hb, Bool.false_eq_true, if_false, Bool.false_and]
        rfl

/-! ## Stores -/

variable {c : AccessContext} {w : Width} {address : Word} {value : BitVec w.bits} {mmu : Mmu}

theorem translateBytes_undisturbed {m₀ : Memory} (h : Undisturbed m₀ mmu.memory)
    (c : AccessContext) (address : Word) (n : Nat) :
    Yields (translateBytes c address n) mmu (fun _ mmu' => Undisturbed m₀ mmu'.memory)
      fun _ mmu' => Undisturbed m₀ mmu'.memory := by
  induction n generalizing address mmu with
  | zero => exact .pure h
  | succ n ih =>
      refine Yields.bind (translate_undisturbed h c address .write) fun physical mmu' h' => ?_
      exact Yields.bind (ih h' (address + 1)) fun rest mmu'' h'' => .pure h''

/-- A store that was broken off: all of its bytes were translated, and those before the
first whose address no device has were written. -/
structure BrokenOff (c : AccessContext) (w : Width) (address : Word) (value : BitVec w.bits)
    (mmu : Mmu) (fault : Fault) (after translated : Mmu) (physical : List Word) : Prop where
  /-- The store is misaligned and leaves its page. -/
  pieces : inOnePiece c w address = .ok false
  translation : translateBytes c address w.bytes mmu = (.ok physical, translated)
  undisturbed : Undisturbed mmu.memory translated.memory
  begun : ∃ first ∈ physical.head?, translated.memory.mapped first = true
  unmapped : ∃ p ∈ physical, translated.memory.mapped p = false
  fault : fault = .access
  memory : after.memory = translated.memory.storeBytes
    ((physical.zip (w.split value)).takeWhile fun b => translated.memory.mapped b.1)

/-- A write to one address fails before it has done anything. -/
theorem physicalWrite_failed (mmu : Mmu) (w : Width) (address : Word) (value : BitVec w.bits) :
    Yields (physically (·.write w address value)) mmu (fun _ _ => True)
      fun _ mmu' => mmu' = mmu := by
  unfold Yields
  rw [physicalWrite_run]
  cases h : mmu.memory.mapped address with
  | false =>
      rw [write_unmapped h]
      rfl
  | true => trivial

/-- If a byte cannot be written, the bytes before it are. -/
theorem writeBytes_failed (bytes : List (Word × Byte)) (mmu : Mmu) :
    Yields (writeBytes bytes) mmu (fun _ _ => True) fun fault mmu' =>
      (∃ b ∈ bytes, mmu.memory.mapped b.1 = false) ∧ fault = .access ∧
        mmu'.memory =
          mmu.memory.storeBytes (bytes.takeWhile fun b => mmu.memory.mapped b.1) := by
  unfold Yields
  rw [writeBytes_run]
  cases hall : bytes.all fun b => mmu.memory.mapped b.1 with
  | true => trivial
  | false =>
      obtain ⟨b, hb, hout⟩ := List.all_eq_false.mp hall
      exact ⟨⟨b, hb, eq_false_of_ne_true hout⟩, rfl, rfl⟩

/-- Nothing is written if the first address has no device. -/
theorem takeWhile_zip_eq_nil {physical : List Word} {test : Word → Bool}
    (h : ¬∃ first ∈ physical.head?, test first = true) (bytes : List Byte) :
    (physical.zip bytes).takeWhile (fun b => test b.1) = [] := by
  cases physical with
  | nil => rfl
  | cons first rest =>
      cases bytes with
      | nil => rfl
      | cons byte bytes =>
          rw [List.zip_cons_cons, List.takeWhile_cons, if_neg fun hfirst => h ⟨first, rfl, hfirst⟩]

/-- What a failed store has done: nothing to main memory or to reservations, or it was broken
off. -/
theorem write_failed {fault : Fault} {after : Mmu}
    (failed : write c w address value mmu = (.error fault, after)) :
    Undisturbed mmu.memory after.memory ∨
      ∃ translated physical,
        BrokenOff c w address value mmu fault after translated physical := by
  have hyields : Yields (write c w address value) mmu (fun _ _ => True) fun fault after =>
      Undisturbed mmu.memory after.memory ∨ ∃ translated physical,
        BrokenOff c w address value mmu fault after translated physical := by
    refine Yields.bind (p := fun one mmu' => inOnePiece c w address = .ok one ∧ mmu = mmu') ?_ ?_
    · exact Yields.lift (fun _ h => ⟨h, rfl⟩) fun _ _ => .inl (.refl _)
    rintro one _ ⟨hone, rfl⟩
    cases one with
    | true =>
        refine Yields.bind
          ((translate_undisturbed (.refl _) c address .write).mono (fun _ _ => id) fun _ _ h =>
            .inl h) fun physical mmu' h' => ?_
        refine (physicalWrite_failed mmu' w physical value).mono (fun _ _ => id) ?_
        rintro _ _ rfl
        exact .inl h'
    | false =>
        have hundisturbed := translateBytes_undisturbed (.refl mmu.memory) c address w.bytes
        refine Yields.bind ((Yields.run _ mmu).mono (fun _ _ => id) fun fault _ h =>
          .inl (hundisturbed.error h)) fun physical translated htranslation => ?_
        have htranslated := hundisturbed.ok htranslation
        refine (writeBytes_failed (physical.zip (w.split value)) translated).mono
          (fun _ _ => id) ?_
        rintro fault after ⟨⟨b, hb, hout⟩, hfault, hmemory⟩
        by_cases hbegun : ∃ first ∈ physical.head?, translated.memory.mapped first = true
        · exact .inr ⟨translated, physical, hone, htranslation, htranslated, hbegun,
            ⟨b.1, (List.of_mem_zip hb).1, hout⟩, hfault, hmemory⟩
        · rw [takeWhile_zip_eq_nil hbegun] at hmemory
          rw [hmemory]
          exact .inl htranslated
  exact hyields.error failed

/-- A word stored over the end of the page: the store fails, and is broken off. -/
theorem write_failed_at_end :
    let r := write (.machine 0) .word 0x80000FFE 0x11223344 onePage
    r.1 = .error .access ∧ (Undisturbed onePage.memory r.2.memory ∨
      ∃ translated physical, BrokenOff (.machine 0) .word 0x80000FFE 0x11223344 onePage .access
        r.2 translated physical) := by
  intro r
  have failed : r.1 = .error .access := rfl
  exact ⟨failed, write_failed (Prod.ext failed rfl)⟩

/-- It leaves its first byte behind. -/
theorem write_failed_not_undisturbed :
    let r := write (.machine 0) .word 0x80000FFE 0x11223344 onePage
    r.1 = .error .access ∧ ¬Undisturbed onePage.memory r.2.memory := by
  intro r
  refine ⟨rfl, fun h => ?_⟩
  have hbefore : onePage.memory.ramByte? 0 0x80000FFE = some 0 := by decide +kernel
  have hafter : r.2.memory.ramByte? 0 0x80000FFE = some 0x44 := by decide +kernel
  have hsame := h.ram 0 0x80000FFE
  rw [hbefore, hafter] at hsame
  exact absurd hsame (by decide)

end Mmu
end Rv32
