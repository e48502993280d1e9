/-
# `Rv32.Proofs.Paging.Table` — the words of a page table and the pages it maps

A page table is the words that walks of it read.  As long as they give what they gave,
walks meet what they met: this is so in a memory that is alike on the pages of those
words, and in what a memory becomes when these pages are kept.  For the latter the
words have to be steady, or else the walks themselves would change them.

The pages that user mode can reach are those which valid leaves of its own map.
-/
import Rv32.Proofs.Memory.Access
import Rv32.Proofs.Paging.Walk

namespace Rv32

/-! ## Aligned accesses -/

theorem Paging.toNat_offsetOf (address : Word) : (offsetOf address).toNat = address.toNat % pageSize := by
  simp only [offsetOf, pageSize, BitVec.extractLsb'_toNat, Nat.shiftRight_zero]

/-- An aligned access does not leave its page. -/
theorem inPage_of_admits {w : Width} {address : Word}
    (h : (Alignment.ofWidth w).admits address = true) : InPage w address := by
  simp only [Alignment.admits, beq_iff_eq] at h
  rw [InPage, Paging.toNat_offsetOf, Paging.pageSize]
  cases w with
  | byte =>
      show address.toNat % 4096 + 1 ≤ 4096
      omega
  | half =>
      replace h : address.toNat % 2 = 0 := h
      show address.toNat % 4096 + 2 ≤ 4096
      omega
  | word =>
      replace h : address.toNat % 4 = 0 := h
      show address.toNat % 4096 + 4 ≤ 4096
      omega
  | dword =>
      replace h : address.toNat % 8 = 0 := h
      show address.toNat % 4096 + 8 ≤ 4096
      omega

namespace Paging

/-- Entries are words one after the other. -/
theorem toNat_entryAddress (table : BitVec 22) (index : BitVec 10) :
    (entryAddress table index).toNat =
      ((table.setWidth 20).toNat * 1024 + index.toNat) * 4 := by
  have hindex := index.isLt
  unfold entryAddress
  rw [BitVec.toNat_append, BitVec.toNat_append, BitVec.toNat_ofNat, Nat.zero_mod, Nat.or_zero,
    ← Nat.shiftLeft_add_eq_or_of_lt hindex, Nat.shiftLeft_eq, Nat.shiftLeft_eq]

theorem inPage_entryAddress (table : BitVec 22) (index : BitVec 10) :
    InPage .word (entryAddress table index) := by
  refine inPage_of_admits ?_
  simp only [Alignment.admits, beq_iff_eq, toNat_entryAddress]
  exact Nat.mul_mod_left _ _

theorem pageOf_entryAddress (table : BitVec 22) (index : BitVec 10) :
    pageOf (entryAddress table index) = table.setWidth 20 := by
  apply BitVec.eq_of_toNat_eq
  have hindex := index.isLt
  have htable := (table.setWidth 20).isLt
  simp only [pageOf, BitVec.extractLsb'_toNat, toNat_entryAddress, Nat.shiftRight_eq_div_pow]
  omega

/-! ## What a walk reads -/

theorem readEntry_memory (word : Word) (m : Memory) :
    (readEntry word m).2 = (m.read .word word).2 := by
  unfold readEntry
  rcases m.read .word word with ⟨e | bits, m'⟩ <;> rfl

theorem readEntry_entry (word : Word) (m : Memory) :
    (readEntry word m).1 = ((m.read .word word).1.map PageEntry.mk).mapError fun _ => .access := by
  unfold readEntry
  rcases m.read .word word with ⟨e | bits, m'⟩ <;> rfl

theorem readEntry_congr {word : Word} {m m' : Memory}
    (h : (m'.read .word word).1 = (m.read .word word).1) :
    (readEntry word m').1 = (readEntry word m).1 := by
  rw [readEntry_entry, readEntry_entry, h]

variable {c : AccessContext} {address : Word} {m m' : Memory}

/-- The words that a walk of an address reads. -/
def reads (c : AccessContext) (address : Word) (m : Memory) : List Word :=
  (trail c address m).map Prod.fst

theorem trail_eq (c : AccessContext) (address : Word) (m : Memory) :
    trail c address m =
      let first := entryAddress c.root (firstIndex address)
      match (readEntry first m).1 with
      | .ok entry =>
        let second := entryAddress entry.target (secondIndex address)
        (first, .ok entry) ::
          if entry.valid && !entry.isLeaf then
            [(second, (readEntry second (readEntry first m).2).1)]
          else []
      | .error fault => [(first, .error fault)] := by
  unfold trail
  dsimp only
  rcases readEntry (entryAddress c.root (firstIndex address)) m with ⟨fault | entry, m'⟩ <;> rfl

theorem first_mem_reads (c : AccessContext) (address : Word) (m : Memory) :
    entryAddress c.root (firstIndex address) ∈ reads c address m := by
  rw [reads, trail_eq]
  dsimp only
  split <;> exact List.mem_cons_self

theorem second_mem_reads {entry : PageEntry}
    (first : (readEntry (entryAddress c.root (firstIndex address)) m).1 = .ok entry)
    (table : (entry.valid && !entry.isLeaf) = true) :
    entryAddress entry.target (secondIndex address) ∈ reads c address m := by
  rw [reads, trail_eq]
  simp only [first, table, if_true, List.map_cons, List.map_nil]
  exact List.mem_cons_of_mem _ List.mem_cons_self

/-- The words of a walk are entries of tables. -/
theorem inPage_of_mem_reads {word : Word} (h : word ∈ reads c address m) :
    InPage .word word := by
  rw [reads, trail_eq] at h
  dsimp only at h
  split at h
  · split at h
    · simp only [List.map_cons, List.map_nil, List.mem_cons, List.not_mem_nil, or_false] at h
      rcases h with rfl | rfl <;> exact inPage_entryAddress _ _
    · simp only [List.map_cons, List.map_nil, List.mem_cons, List.not_mem_nil, or_false] at h
      rw [h]
      exact inPage_entryAddress _ _
  · simp only [List.map_cons, List.map_nil, List.mem_cons, List.not_mem_nil, or_false] at h
    rw [h]
    exact inPage_entryAddress _ _

/-! ## Where walks meet the same -/

/-- Memories that stay related while words are read, and give the same for each, show a
walk the same trail. -/
theorem trail_eq_of_rel {R : Memory → Memory → Prop} (hR : R m m')
    (read : ∀ word ∈ reads c address m, ∀ n n', R n n' →
      (n'.read .word word).1 = (n.read .word word).1 ∧
        R (n.read .word word).2 (n'.read .word word).2) :
    trail c address m' = trail c address m := by
  -- The second entry is read from the memories that the first read has left.
  obtain ⟨hfirst, hR'⟩ := read _ (first_mem_reads c address m) _ _ hR
  rw [← readEntry_memory, ← readEntry_memory] at hR'
  have hentry := readEntry_congr hfirst
  rw [trail_eq c address m', trail_eq c address m]
  simp only [hentry]
  cases hr : (readEntry (entryAddress c.root (firstIndex address)) m).1 with
  | error fault => rfl
  | ok entry =>
      dsimp only
      split
      · rename_i htable
        obtain ⟨hsecond, -⟩ := read _ (second_mem_reads hr htable) _ _ hR'
        rw [readEntry_congr hsecond]
      · rfl

theorem trail_of_sameOn {P : Page → Prop} (same : Memory.SameOn P m m')
    (inside : ∀ word ∈ reads c address m, P (pageOf word)) :
    trail c address m' = trail c address m :=
  trail_eq_of_rel same fun word hword _ _ h =>
    h.read (inPage_of_mem_reads hword) (inside word hword)

/-- What a memory has become shows a walk the same trail, if the pages of its words were
kept and the words are steady. -/
theorem trail_of_keeps {P : Page → Prop} (kept : Memory.Keeps P m m')
    (inside : ∀ word ∈ reads c address m, P (pageOf word))
    (steady : ∀ word ∈ reads c address m, m.SteadyAt word) :
    trail c address m' = trail c address m := by
  -- Reading leaves `m` as it is; what it has become may change, but keeps the pages.
  refine trail_eq_of_rel (R := fun n n' => n = m ∧ Memory.Keeps P m n') ⟨rfl, kept⟩ ?_
  rintro word hword n n' ⟨rfl, hkept⟩
  have hsteady := steady word hword
  exact ⟨hkept.read_steady (inPage_of_mem_reads hword) (inside word hword) hsteady,
    Memory.read_steady hsteady, hkept.trans (Memory.keeps_read P n' .word word)⟩

/-- A walk of steady words leaves memory as it was. -/
theorem walk_memory (access : Access) (steady : ∀ word ∈ reads c address m, m.SteadyAt word) :
    (walk c address access m).2 = m := by
  have hfirst : (readEntry (entryAddress c.root (firstIndex address)) m).2 = m :=
    (readEntry_memory _ m).trans (Memory.read_steady (steady _ (first_mem_reads c address m)))
  unfold walk
  rw [Attempt.bind_run]
  rcases hr : readEntry (entryAddress c.root (firstIndex address)) m with ⟨fault | entry, m₁⟩
  · rw [hr] at hfirst
    exact hfirst
  · rw [hr] at hfirst
    replace hfirst : m₁ = m := hfirst
    subst hfirst
    dsimp only
    cases hvalid : entry.valid with
    | false => rfl
    | true =>
        cases hleaf : entry.isLeaf with
        | true =>
            simp only [Bool.not_true, Bool.false_eq_true, if_false, if_true]
            split <;> rfl
        | false =>
            have htable : (entry.valid && !entry.isLeaf) = true := by rw [hvalid, hleaf]; rfl
            have hmem := second_mem_reads (congrArg Prod.fst hr) htable
            have hsecond : (readEntry (entryAddress entry.target (secondIndex address)) m₁).2 =
                m₁ :=
              (readEntry_memory _ m₁).trans (Memory.read_steady (steady _ hmem))
            simp only [Bool.not_true, Bool.false_eq_true, if_false, Attempt.bind_run]
            generalize readEntry (entryAddress entry.target (secondIndex address)) m₁ = read
              at hsecond ⊢
            rcases read with ⟨fault | second, m₂⟩
            · exact hsecond
            · dsimp only
              split <;> exact hsecond

/-! ## The pages of user mode -/

/-- The valid leaf a walk ends at, and the page it maps the address to.  A leaf of the
first level that is not at a multiple of its size maps nothing. -/
def leafOf (address : Word) : List (Word × Except Fault PageEntry) → Option (PageEntry × Page)
  | [(_, .ok e)] =>
    if e.valid && e.isLeaf && e.targetLow == 0 then some (e, frameOf address true e) else none
  | [_, (_, .ok e)] =>
    if e.valid && e.isLeaf then some (e, frameOf address false e) else none
  | _ => none

/-- What is translated is mapped by a leaf that allows the access. -/
theorem leafOf_of_verdict {access : Access} {words : List (Word × Except Fault PageEntry)}
    {frame : Page} (h : verdict c address access words = .ok frame) :
    ∃ e, leafOf address words = some (e, frame) ∧ c.allows e access = true := by
  unfold verdict at h
  split at h
  · rename_i word e
    split at h
    · cases h
    · rename_i hpass
      cases h
      simp only [Bool.or_eq_true, Bool.not_eq_true', decide_eq_true_eq, not_or,
        Bool.not_eq_false, ne_eq, Decidable.not_not] at hpass
      obtain ⟨⟨⟨hvalid, hleaf⟩, htarget⟩, hallows⟩ := hpass
      refine ⟨e, ?_, hallows⟩
      simp only [leafOf, hvalid, hleaf, htarget, Bool.and_true, beq_self_eq_true, if_true]
  · rename_i first word e
    split at h
    · cases h
    · rename_i hpass
      cases h
      simp only [Bool.or_eq_true, Bool.not_eq_true', not_or, Bool.not_eq_false] at hpass
      obtain ⟨⟨hvalid, hleaf⟩, hallows⟩ := hpass
      refine ⟨e, ?_, hallows⟩
      simp only [leafOf, hvalid, hleaf, Bool.and_true, if_true]
  · cases h
  · cases h
  · cases h

/-- A word that some walk of the page table reads. -/
def IsTableWord (c : AccessContext) (m : Memory) (word : Word) : Prop :=
  ∃ address, word ∈ reads c address m

/-- A page that a valid leaf of user mode maps some address to. -/
def IsUserFrame (c : AccessContext) (m : Memory) (frame : Page) : Prop :=
  ∃ address e, leafOf address (trail c address m) = some (e, frame) ∧ e.user = true

/-- In user mode addresses are translated to such pages only, at the same offset. -/
theorem walk_userFrame {access : Access} {physical : Word} (user : c.privilege = .user)
    (h : (walk c address access m).1 = .ok physical) :
    IsUserFrame c m (pageOf physical) ∧ offsetOf physical = offsetOf address := by
  rw [walk_eq_verdict] at h
  cases hv : verdict c address access (trail c address m) with
  | error fault =>
      rw [hv] at h
      cases h
  | ok frame =>
      rw [hv] at h
      cases h
      obtain ⟨e, hleaf, hallows⟩ := leafOf_of_verdict hv
      have huser : e.user = true := by
        simp only [AccessContext.allows, AccessContext.owns, user, Bool.and_eq_true] at hallows
        exact hallows.2
      rw [pageOf_join, offsetOf_join]
      exact ⟨⟨address, e, hleaf, huser⟩, rfl⟩

/-! ## Tables of large pages -/

/-- Whether an entry of the first level points to no table, and maps to a given large
page if it is valid. -/
def mapsOnly (c : AccessContext) (m : Memory) (large index : BitVec 10) : Bool :=
  match (readEntry (entryAddress c.root index) m).1 with
  | .ok e => !e.valid || (e.isLeaf && e.targetHigh == large)
  | .error _ => true

/-- Where entries map to one large page only, a walk reads one of them. -/
theorem trail_of_mapsOnly {large : BitVec 10} (only : ∀ index, mapsOnly c m large index = true)
    (address : Word) :
    ∃ entry, trail c address m = [(entryAddress c.root (firstIndex address), entry)] ∧
      ∀ e, entry = .ok e → e.valid = true → e.targetHigh = large := by
  have hindex := only (firstIndex address)
  unfold mapsOnly at hindex
  rw [trail_eq]
  dsimp only
  cases hfirst : (readEntry (entryAddress c.root (firstIndex address)) m).1 with
  | error fault =>
      refine ⟨_, rfl, ?_⟩
      rintro e ⟨⟩
  | ok e =>
      simp only [hfirst, Bool.or_eq_true, Bool.not_eq_true', Bool.and_eq_true, beq_iff_eq] at hindex
      refine ⟨.ok e, ?_, ?_⟩
      · rcases hindex with hinvalid | ⟨hleaf, -⟩
        · simp only [hinvalid, Bool.false_and, Bool.false_eq_true, if_false]
        · simp only [hleaf, Bool.not_true, Bool.and_false, Bool.false_eq_true, if_false]
      · rintro _ ⟨⟩ hvalid
        rcases hindex with hinvalid | ⟨-, hlarge⟩
        · rw [hinvalid] at hvalid
          cases hvalid
        · exact hlarge

end Paging
end Rv32
