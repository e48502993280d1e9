/-
# `Rv32.Proofs.Mmu.Conditional` — when a conditional store succeeds

A conditional store succeeds if and only if its hart still holds the block it reserved, as
the past tells it: it reserved an address of the block, nobody has written there since, and
it has not asked before.  If it does not succeed, it has written nothing.  And if it does,
the block still had the bytes it had when it was reserved; so what the hart has computed
from them is not out of date.

This holds after any sequence of accesses by any harts, with writes of the host in between.
-/
import Rv32.Proofs.Mmu.Recorded

namespace Rv32

open Attempt Memory

/-! ## Conditional stores -/

namespace Mmu

variable {c : AccessContext} {address value physical : Word} {mmu translated : Mmu}

theorem atomicAddress_undisturbed {m₀ : Memory} (h : Undisturbed m₀ mmu.memory)
    (c : AccessContext) (address : Word) (access : Access) :
    Yields (atomicAddress c address access) mmu (fun _ mmu' => Undisturbed m₀ mmu'.memory)
      fun _ mmu' => Undisturbed m₀ mmu'.memory := by
  unfold atomicAddress
  split
  · exact .throw h
  · exact translate_undisturbed h c address access

/-- What a conditional store does, when the past is `past` and its address has been translated
to `physical`. -/
structure Conditional (past : List Deed) (c : AccessContext) (physical : Word)
    (translated : Mmu) (result : Except Fault Bool) (after : Mmu) : Prop where
  /-- It succeeds if a device has the address and the hart still holds the block. -/
  succeeds : result = .ok true ↔
    translated.memory.mapped physical = true ∧ Held c.hart (granuleOf physical) past
  /-- If it does not succeed, the reservation is gone, and nothing else differs. -/
  fails : result = .ok false → after =
    ⟨{ translated.memory with reservations := translated.memory.reservations.drop c.hart },
      translated.cache⟩
  /-- If it succeeds, the block was as it had been when it was reserved. -/
  unchanged : result = .ok true → ∀ m₀, HeldSince c.hart (granuleOf physical) m₀ past →
    ∀ index b, granuleOf b = granuleOf physical →
      translated.memory.ramByte? index b = m₀.ramByte? index b

/-- Reservations protect: whatever harts and the host do, in whatever order. -/
theorem storeConditional_contract {start : Mmu} (free : start.memory.reservations = .none)
    (actions : List MemoryAction)
    (translation : atomicAddress c address .write ((Recorded.start start).run actions).mmu =
      (.ok physical, translated)) :
    Conditional ((Recorded.start start).run actions).past c physical translated
      (storeConditional c address value ((Recorded.start start).run actions).mmu).1
      (storeConditional c address value ((Recorded.start start).run actions).mmu).2 := by
  have told : Recorded.Told (.start start) := Chronicle.start free
  have hpast := told.run actions
  generalize (Recorded.start start).run actions = r at translation hpast ⊢
  have hc : Chronicle r.past translated.memory :=
    hpast.undisturbed ((atomicAddress_undisturbed (.refl _) c address .write).ok translation)
  have hheld : (translated.memory.takeReservation c.hart physical).1 = true ↔
      Held c.hart (granuleOf physical) r.past := hc.takeReservation_iff
  have hmapped : (translated.memory.takeReservation c.hart physical).2.mapped =
      translated.memory.mapped := mapped_congr rfl
  have unchanged : ∀ m₀, HeldSince c.hart (granuleOf physical) m₀ r.past →
      ∀ index b, granuleOf b = granuleOf physical →
        translated.memory.ramByte? index b = m₀.ramByte? index b := by
    intro m₀ hsince index b hb
    rw [← hb] at hsince
    exact hc.bytes c.hart m₀ index b hsince
  rw [storeConditional_run translation]
  cases htake : (translated.memory.takeReservation c.hart physical).1 with
  | false =>
      have hlost : ¬Held c.hart (granuleOf physical) r.past := by
        rw [← hheld, htake]
        exact Bool.false_ne_true
      refine ⟨⟨fun h => ?_, fun h => absurd h.2 hlost⟩, fun _ => rfl, fun h => ?_⟩
      · cases h
      · cases h
  | true =>
      have hheld := hheld.mp htake
      simp only [if_true, hmapped]
      cases hm : translated.memory.mapped physical with
      | false =>
          refine ⟨⟨fun h => ?_, fun h => ?_⟩, fun h => ?_, fun h => ?_⟩
          · cases h
          · cases hm.symm.trans h.1
          · cases h
          · cases h
      | true =>
          refine ⟨⟨fun _ => ⟨hm, hheld⟩, fun _ => rfl⟩, fun h => ?_, fun _ => unchanged⟩
          cases h

/-- Hart 0 reserves a block, and both hart 1 and the host write next to it. -/
def quarrel : List MemoryAction :=
  [.hart (.machine 0) (.loadReserved 0x80000010), .hart (.machine 1) (.write .word 0x80000020 7),
    .host .dword 0x80000008 0]

/-- Then hart 0 stores to another word of the block. -/
theorem storeConditional_contract_next_to :
    let r := (Recorded.start onePage).run quarrel
    let s := storeConditional (.machine 0) 0x8000001C 5 r.mmu
    s.1 = .ok true ∧ Conditional r.past (.machine 0) 0x8000001C r.mmu s.1 s.2 := by
  intro r s
  exact ⟨rfl, storeConditional_contract rfl quarrel rfl⟩

/-- A write that ends in the block is enough to lose it. -/
example :
    let r := ((Recorded.start onePage).run quarrel).act (.host .dword 0x8000000C 0)
    (storeConditional (.machine 0) 0x8000001C 5 r.mmu).1 = .ok false := rfl

end Mmu
end Rv32
