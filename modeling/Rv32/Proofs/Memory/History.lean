/-
# `Rv32.Proofs.Memory.History` — reservations, told by what happened

Whether a hart holds a block could be told without the list of reservations, by somebody
who had watched all that happened to memory: the hart reserved an address in the block, and
since then nobody wrote there, and the hart neither reserved another address nor asked for
its reservation (`HeldSince`).  A `Chronicle` is a memory together with what happened to
it; in it, the list says the same as the story.

The story says more than the list: what the memory was when the block was reserved.  As
nobody has written there since, the block still holds the same bytes.
-/
import Rv32.Proofs.Memory.Reservation

namespace Rv32

/-- What happened to memory, as far as it matters to reservations. -/
inductive Deed where
  /-- Something was written, by whomever. -/
  | wrote (w : Width) (address : Word)
  /-- A hart reserved the block of an address, and memory was like this. -/
  | reserved (hart : Nat) (address : Word) (memory : Memory)
  /-- A hart asked for its reservation, and gave it up. -/
  | claimed (hart : Nat)

/-- Whether a deed ends a hart's reservation of a block: a write does that begins or ends
there, and so does a further reservation or claim of the hart. -/
def Deed.ends (hart : Nat) (g : Granule) : Deed → Prop
  | .wrote w address => w.meets address g
  | .reserved k _ _ => k = hart
  | .claimed k => k = hart

/-- In a past, the latest deed first, a hart reserved a block, when memory was `m₀`, and
nothing has ended this since. -/
def HeldSince (hart : Nat) (g : Granule) (m₀ : Memory) (past : List Deed) : Prop :=
  ∃ later address earlier, past = later ++ .reserved hart address m₀ :: earlier ∧
    granuleOf address = g ∧ ∀ d ∈ later, ¬d.ends hart g

/-- A hart holds a block, whatever memory was when it reserved it. -/
def Held (hart : Nat) (g : Granule) (past : List Deed) : Prop := ∃ m₀, HeldSince hart g m₀ past

section
variable {hart : Nat} {g : Granule} {m₀ : Memory} {past : List Deed}

theorem not_heldSince_nil : ¬HeldSince hart g m₀ [] := by
  rintro ⟨later, address, earlier, hpast, -, -⟩
  exact absurd hpast (by simp)

/-- The latest deed is the reservation itself, or it did not end an older one. -/
theorem heldSince_cons {d : Deed} :
    HeldSince hart g m₀ (d :: past) ↔
      (∃ address, d = .reserved hart address m₀ ∧ granuleOf address = g) ∨
        ¬d.ends hart g ∧ HeldSince hart g m₀ past := by
  constructor
  · rintro ⟨later, address, earlier, hpast, hg, hlater⟩
    cases later with
    | nil =>
        cases hpast
        exact .inl ⟨address, rfl, hg⟩
    | cons first later =>
        cases hpast
        refine .inr ⟨hlater _ List.mem_cons_self, later, address, earlier, rfl, hg, ?_⟩
        exact fun d hd => hlater d (List.mem_cons_of_mem _ hd)
  · rintro (⟨address, rfl, hg⟩ | ⟨hends, later, address, earlier, rfl, hg, hlater⟩)
    · exact ⟨[], address, past, rfl, hg, fun d hd => absurd hd List.not_mem_nil⟩
    · refine ⟨d :: later, address, earlier, rfl, hg, fun d' hd' => ?_⟩
      rcases List.mem_cons.mp hd' with rfl | hd'
      · exact hends
      · exact hlater d' hd'

theorem held_cons_of_ne {d : Deed} (hd : ∀ address m, d ≠ .reserved hart address m) :
    Held hart g (d :: past) ↔ ¬d.ends hart g ∧ Held hart g past := by
  constructor
  · rintro ⟨m₀, h⟩
    rcases heldSince_cons.mp h with ⟨address, rfl, -⟩ | ⟨hends, h⟩
    · exact absurd rfl (hd address m₀)
    · exact ⟨hends, m₀, h⟩
  · rintro ⟨hends, m₀, h⟩
    exact ⟨m₀, heldSince_cons.mpr (.inr ⟨hends, h⟩)⟩

theorem held_wrote {w : Width} {address : Word} :
    Held hart g (.wrote w address :: past) ↔ Held hart g past ∧ ¬w.meets address g := by
  have hne : ∀ b m, Deed.wrote w address ≠ .reserved hart b m := by
    intro b m h
    cases h
  exact (held_cons_of_ne hne).trans and_comm

theorem held_claimed {k : Nat} :
    Held hart g (.claimed k :: past) ↔ Held hart g past ∧ hart ≠ k := by
  have hne : ∀ b m, Deed.claimed k ≠ .reserved hart b m := by
    intro b m h
    cases h
  rw [held_cons_of_ne hne, and_comm, Deed.ends, ne_eq, eq_comm]

theorem held_reserved {k : Nat} {address : Word} {m : Memory} :
    Held hart g (.reserved k address m :: past) ↔
      hart = k ∧ g = granuleOf address ∨ Held hart g past ∧ hart ≠ k := by
  constructor
  · rintro ⟨m₀, h⟩
    rcases heldSince_cons.mp h with ⟨address', heq, hg⟩ | ⟨hends, h⟩
    · cases heq
      exact .inl ⟨rfl, hg.symm⟩
    · exact .inr ⟨⟨m₀, h⟩, fun heq => hends heq.symm⟩
  · rintro (⟨rfl, rfl⟩ | ⟨⟨m₀, h⟩, hne⟩)
    · exact ⟨m, heldSince_cons.mpr (.inl ⟨address, rfl, rfl⟩)⟩
    · exact ⟨m₀, heldSince_cons.mpr (.inr ⟨fun heq => hne heq.symm, h⟩)⟩

end

/-! ## Chronicles -/

open Memory

/-- A memory and what happened to it. -/
structure Chronicle (past : List Deed) (m : Memory) : Prop where
  single : m.reservations.Single
  /-- The reservations are those that the past tells. -/
  held : ∀ hart g, (hart, g) ∈ m.reservations.entries ↔ Held hart g past
  /-- A block that is held has the bytes it had when it was reserved. -/
  bytes : ∀ hart m₀ index address, HeldSince hart (granuleOf address) m₀ past →
    m.ramByte? index address = m₀.ramByte? index address

namespace Chronicle

variable {past : List Deed} {m m' : Memory}

/-- Before anything happened, nobody holds anything. -/
theorem start (free : m.reservations = .none) : Chronicle [] m where
  single := by
    rw [free]
    exact Reservations.single_none
  held := by
    intro hart g
    rw [free]
    exact ⟨fun h => absurd h List.not_mem_nil, fun ⟨_, h⟩ => absurd h not_heldSince_nil⟩
  bytes := fun _ _ _ _ h => absurd h not_heldSince_nil

theorem undisturbed (c : Chronicle past m) (h : Undisturbed m m') : Chronicle past m' where
  single := by
    rw [h.reservations]
    exact c.single
  held := by
    rw [h.reservations]
    exact c.held
  bytes := fun hart m₀ index address hheld =>
    (h.ram index address).trans (c.bytes hart m₀ index address hheld)

theorem wrote (c : Chronicle past m) {w : Width} {written : Word} (value : BitVec w.bits)
    (mapped : m.mapped written = true) :
    Chronicle (.wrote w written :: past) (m.write w written value).2 where
  single := by
    rw [write_reservations mapped]
    exact c.single.filter _
  held := by
    intro hart g
    rw [write_reservations mapped, held_wrote, ← c.held]
    exact Reservations.mem_disturb
  bytes := by
    intro hart m₀ index address hheld
    rcases heldSince_cons.mp hheld with ⟨_, heq, -⟩ | ⟨out, hheld⟩
    · cases heq
    · rw [ramByte?_write m value out]
      exact c.bytes hart m₀ index address hheld

theorem reserved (c : Chronicle past m) (hart : Nat) (address : Word) :
    Chronicle (.reserved hart address (m.reserve hart address) :: past)
      (m.reserve hart address) where
  single := c.single.reserve hart address
  held := by
    intro k g
    rw [held_reserved, ← c.held]
    exact Reservations.mem_reserve
  bytes := by
    intro k m₀ index b hheld
    rcases heldSince_cons.mp hheld with ⟨_, heq, -⟩ | ⟨-, hheld⟩
    · cases heq
      rfl
    · exact c.bytes k m₀ index b hheld

theorem claimed (c : Chronicle past m) (hart : Nat) (address : Word) :
    Chronicle (.claimed hart :: past) (m.takeReservation hart address).2 where
  single := c.single.filter _
  held := by
    intro k g
    rw [held_claimed, ← c.held]
    exact Reservations.mem_drop
  bytes := by
    intro k m₀ index b hheld
    rcases heldSince_cons.mp hheld with ⟨_, heq, -⟩ | ⟨-, hheld⟩
    · cases heq
    · exact c.bytes k m₀ index b hheld

/-- What a hart is told when it asks. -/
theorem takeReservation_iff (c : Chronicle past m) {hart : Nat} {address : Word} :
    (m.takeReservation hart address).1 = true ↔ Held hart (granuleOf address) past :=
  (Reservations.holds_iff c.single).trans (c.held hart _)

end Chronicle
end Rv32
