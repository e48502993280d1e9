/-
# `Rv32.Proofs.Memory.Reservation` — who holds which block

The reservations are a list of harts and blocks, in which a hart stands at most once
(`Single`).  Then what a hart holds is what stands beside it, and each change of the list
says of every entry whether it stays.
-/
import Mathlib.Data.List.Nodup
import Rv32.Proofs.Memory.Contents

namespace Rv32.Reservations

/-- A hart stands in the list at most once. -/
def Single (r : Reservations) : Prop := (r.entries.map Prod.fst).Nodup

variable {r : Reservations}

theorem single_none : Reservations.none.Single := List.nodup_nil

theorem Single.filter (s : r.Single) (keep : Nat × Granule → Bool) :
    Single ⟨r.entries.filter keep⟩ :=
  List.Nodup.sublist (List.Sublist.map _ List.filter_sublist) s

theorem mem_drop {hart k : Nat} {g : Granule} :
    (k, g) ∈ (r.drop hart).entries ↔ (k, g) ∈ r.entries ∧ k ≠ hart := by
  simp only [drop, List.mem_filter, bne_iff_ne, ne_eq]

theorem mem_reserve {hart k : Nat} {address : Word} {g : Granule} :
    (k, g) ∈ (r.reserve hart address).entries ↔
      k = hart ∧ g = granuleOf address ∨ (k, g) ∈ r.entries ∧ k ≠ hart := by
  simp only [reserve, List.mem_cons, Prod.mk.injEq, mem_drop]

/-- A write leaves the reservations on blocks it does not meet. -/
theorem mem_disturb {w : Width} {address : Word} {k : Nat} {g : Granule} :
    (k, g) ∈ (r.disturb w address).entries ↔ (k, g) ∈ r.entries ∧ ¬w.meets address g := by
  simp only [disturb, List.mem_filter, Bool.and_eq_true, bne_iff_ne, ne_eq, Width.meets, not_or,
    @eq_comm _ g]

theorem Single.reserve (s : r.Single) (hart : Nat) (address : Word) :
    (r.reserve hart address).Single := by
  refine List.nodup_cons.mpr ⟨fun hmem => ?_, s.filter _⟩
  obtain ⟨⟨k, g⟩, hkg, rfl⟩ := List.mem_map.mp hmem
  exact (mem_drop.mp hkg).2 rfl

/-- A hart holds a block if it stands beside it. -/
theorem holds_iff (s : r.Single) {hart : Nat} {address : Word} :
    r.holds hart address = true ↔ (hart, granuleOf address) ∈ r.entries := by
  simp only [holds, of?, beq_iff_eq, Option.map_eq_some_iff]
  constructor
  · rintro ⟨⟨k, g⟩, hfind, rfl⟩
    have hk : k = hart := by simpa using List.find?_some hfind
    exact hk ▸ List.mem_of_find?_eq_some hfind
  · intro hmem
    obtain ⟨e, hfind⟩ : ∃ e, r.entries.find? (fun e => e.1 == hart) = some e :=
      Option.isSome_iff_exists.mp (List.find?_isSome.mpr ⟨_, hmem, beq_self_eq_true hart⟩)
    have he : e.1 = hart := by simpa using List.find?_some hfind
    refine ⟨e, hfind, ?_⟩
    -- a hart stands in the list once, so what was found is what is known to be there
    rw [List.inj_on_of_nodup_map s (List.mem_of_find?_eq_some hfind) hmem he]

end Rv32.Reservations
