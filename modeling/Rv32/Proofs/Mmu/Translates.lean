/-
# `Rv32.Proofs.Mmu.Translates` — consecutive addresses, translated one after the other

Whether the bytes of an access are translated one by one or all at once, they have physical
addresses of their own: those that translating them in order gives (`Translates`).  Each byte
keeps its place in its page, so they are different addresses; and after the first byte of a page
the page is remembered, so the others follow it without another walk (`Translates.inPage`).

That is so however outdated the remembered pages are.  Every byte has the address that it would
have on its own if the access does not leave its page (`Translates.alone_inPage`), and wherever
the remembered pages are up to date and walking does not change the page table
(`Translates.alone`).  Otherwise translating a byte of one page may forget an outdated address
of the next one.
-/
import Rv32.Proofs.Memory.Bytes
import Rv32.Proofs.Paging.Cache
import Rv32.Proofs.Paging.Table

namespace Rv32

/-! ## Places in a page -/

namespace Paging

theorem offsetOf_add (address : Word) (i : Nat) :
    offsetOf (address + BitVec.ofNat 32 i) = offsetOf address + BitVec.ofNat 12 i := by
  apply BitVec.eq_of_toNat_eq
  rw [BitVec.toNat_add, toNat_offsetOf, toNat_offsetOf, BitVec.toNat_add, BitVec.toNat_ofNat,
    BitVec.toNat_ofNat, pageSize]
  omega

theorem address_succ (address : Word) (i : Nat) :
    address + 1 + BitVec.ofNat 32 i = address + BitVec.ofNat 32 (i + 1) := by
  rw [Nat.add_comm i 1, BitVec.ofNat_add, BitVec.add_assoc]
  rfl

/-- A page further on, the bytes of an access inside a page are where they were in it. -/
theorem join_offsetOf_add {w : Width} {address physical : Word}
    (place : offsetOf physical = offsetOf address) (fits : InPage w address) {i : Nat}
    (hi : i < w.bytes) :
    join (pageOf physical) (offsetOf (address + BitVec.ofNat 32 i)) =
      physical + BitVec.ofNat 32 i := by
  have fits' : InPage w physical := by rwa [InPage, place]
  rw [offsetOf_add, ← place, ← offsetOf_add, ← (fits'.add hi).2, join_pageOf_offsetOf]

end Paging

/-! ## One address after the other -/

namespace Mmu

open Memory Paging

/-- The bytes from an address on are translated, in order. -/
inductive Translates (c : AccessContext) (access : Access) :
    Word → Mmu → List Word → Mmu → Prop
  | nil (address : Word) (mmu : Mmu) : Translates c access address mmu [] mmu
  | cons {address physical : Word} {rest : List Word} {mmu mmu' mmu'' : Mmu} :
      translate c address access mmu = (.ok physical, mmu') →
      Translates c access (address + 1) mmu' rest mmu'' →
      Translates c access address mmu (physical :: rest) mmu''

variable {c : AccessContext} {access : Access} {address physical : Word} {mmu mmu' : Mmu}
  {ps : List Word}

/-- The three ways in which a translation succeeds: it is not needed, the page is remembered,
or a walk finds it. -/
theorem translate_ok (h : translate c address access mmu = (.ok physical, mmu')) :
    (c.paging = false ∧ physical = address ∧ mmu' = mmu) ∨
      (c.paging = true ∧ mmu.cache.find? c address access = some physical ∧ mmu' = mmu) ∨
      (c.paging = true ∧ mmu.cache.find? c address access = none ∧
        ∃ m, Paging.walk c address access mmu.memory = (.ok physical, m) ∧
          mmu' = ⟨m.record (.translated address physical access c.privilege),
            mmu.cache.insert c address physical access⟩) := by
  rw [translate_run] at h
  by_cases paging : c.paging = true
  case neg =>
    rw [if_neg paging] at h
    cases h
    exact .inl ⟨eq_false_of_ne_true paging, rfl, rfl⟩
  rw [if_pos paging] at h
  cases found : mmu.cache.find? c address access with
  | some p =>
    rw [found] at h
    cases h
    exact .inr (.inl ⟨paging, rfl, rfl⟩)
  | none =>
    rw [found] at h
    dsimp only at h
    rw [walk_run] at h
    rcases walked : Paging.walk c address access mmu.memory with ⟨fault | p, m⟩
    · rw [walked] at h
      cases h
    · rw [walked] at h
      cases h
      exact .inr (.inr ⟨paging, rfl, m, rfl, rfl⟩)

theorem offsetOf_translate (h : translate c address access mmu = (.ok physical, mmu')) :
    offsetOf physical = offsetOf address := by
  rcases translate_ok h with ⟨-, rfl, -⟩ | ⟨-, found, -⟩ | ⟨-, -, m, walked, -⟩
  · rfl
  · obtain ⟨e, -, -, -, -, rfl⟩ := TranslationCache.find?_own found
    exact offsetOf_join ..
  · have onPage := walk_page walked rfl
    rw [walked] at onPage
    rw [Except.ok.inj onPage, offsetOf_join]

/-- Reading a page table disturbs nothing. -/
theorem undisturbed_of_translate
    (h : translate c address access mmu = (.ok physical, mmu')) :
    Undisturbed mmu.memory mmu'.memory :=
  (translate_undisturbed (.refl _) c address access).ok h

/-- After an address was translated, its page is remembered. -/
theorem translate_again (h : translate c address access mmu = (.ok physical, mmu')) {b : Word}
    (same : pageOf b = pageOf address) :
    translate c b access mmu' = (.ok (join (pageOf physical) (offsetOf b)), mmu') := by
  rw [translate_run]
  rcases translate_ok h with ⟨noPaging, rfl, rfl⟩ | ⟨paging, found, rfl⟩ | ⟨paging, -, m, -, rfl⟩
  · rw [if_neg (by rw [noPaging]; decide), ← same, join_pageOf_offsetOf]
  · rw [if_pos paging, TranslationCache.find?_page found same]
  · rw [if_pos paging, TranslationCache.find?_insert_self same]

/-- All addresses of a page are translated alike. -/
theorem translate_page (h : translate c address access mmu = (.ok physical, mmu')) {b : Word}
    (same : pageOf b = pageOf address) :
    (translate c b access mmu).1 = .ok (join (pageOf physical) (offsetOf b)) := by
  rw [translate_run]
  rcases translate_ok h with
    ⟨noPaging, rfl, -⟩ | ⟨paging, found, -⟩ | ⟨paging, unknown, m, walked, -⟩
  · rw [if_neg (by rw [noPaging]; decide), ← same, join_pageOf_offsetOf]
  · rw [if_pos paging, TranslationCache.find?_page found same]
  · have unknown : mmu.cache.find? c b access = none := by
      refine Option.eq_none_iff_forall_ne_some.mpr fun p found => ?_
      rw [TranslationCache.find?_page found same.symm] at unknown
      cases unknown
    have onPage := walk_page walked same
    rw [if_pos paging, unknown]
    dsimp only
    rw [walk_run]
    rcases found : Paging.walk c b access mmu.memory with ⟨fault | p, m'⟩
    · rw [found] at onPage
      cases onPage
    · rw [found] at onPage
      exact onPage

namespace Translates

theorem of_run {rest : List Word}
    (first : (translate c address access mmu).1 = .ok physical)
    (others : Translates c access (address + 1) (translate c address access mmu).2 rest mmu') :
    Translates c access address mmu (physical :: rest) mmu' :=
  .cons (Prod.ext first rfl) others

theorem undisturbed (h : Translates c access address mmu ps mmu') :
    Undisturbed mmu.memory mmu'.memory := by
  induction h with
  | nil => exact .refl _
  | cons translated _ ih => exact (undisturbed_of_translate translated).trans ih

theorem offsetOf (h : Translates c access address mmu ps mmu') (i : Nat) (hi : i < ps.length) :
    Paging.offsetOf ps[i] = Paging.offsetOf (address + BitVec.ofNat 32 i) := by
  induction h generalizing i with
  | nil => cases hi
  | cons translated _ ih =>
    cases i with
    | zero =>
      rw [BitVec.add_zero]
      exact offsetOf_translate translated
    | succ i =>
      rw [← address_succ]
      exact ih i (Nat.lt_of_succ_lt_succ hi)

/-- Fewer addresses than a page has are different addresses. -/
theorem nodup (h : Translates c access address mmu ps mmu') (few : ps.length ≤ 4096) :
    ps.Nodup := by
  refine List.pairwise_iff_getElem.mpr fun i j hi hj less same => ?_
  have offset : Paging.offsetOf (address + BitVec.ofNat 32 i) =
      Paging.offsetOf (address + BitVec.ofNat 32 j) := by
    rw [← h.offsetOf i hi, ← h.offsetOf j hj, same]
  rw [offsetOf_add, offsetOf_add] at offset
  have := congrArg BitVec.toNat offset
  simp only [BitVec.toNat_add, BitVec.toNat_ofNat] at this
  omega

/-- On a remembered page, translating changes nothing. -/
theorem of_known (h : Translates c access address mmu ps mmu') {page frame : Page}
    (known : ∀ b, pageOf b = page →
      translate c b access mmu = (.ok (join frame (Paging.offsetOf b)), mmu))
    (inside : ∀ i < ps.length, pageOf (address + BitVec.ofNat 32 i) = page) :
    mmu' = mmu ∧ ∀ (i : Nat) (hi : i < ps.length),
      ps[i] = join frame (Paging.offsetOf (address + BitVec.ofNat 32 i)) := by
  induction h with
  | nil => exact ⟨rfl, fun i hi => nomatch hi⟩
  | @cons address physical rest mmu₀ mmu₁ mmu₂ translated _ ih =>
    have first := known address (by simpa using inside 0 (by simp))
    rw [translated] at first
    cases first
    obtain ⟨rfl, others⟩ := ih known fun i hi => by
      rw [address_succ]
      exact inside (i + 1) (by simpa using hi)
    refine ⟨rfl, fun i hi => ?_⟩
    cases i with
    | zero => simp
    | succ i =>
      rw [← address_succ]
      exact others i (Nat.lt_of_succ_lt_succ hi)

/-- The bytes of an access inside a page follow the first one, which is all that has to be
translated. -/
theorem inPage {w : Width} (h : Translates c access address mmu ps mmu')
    (length : ps.length = w.bytes) (fits : InPage w address) :
    ∃ physical, translate c address access mmu = (.ok physical, mmu') ∧ InPage w physical ∧
      ∀ (i : Nat) (hi : i < ps.length), ps[i] = physical + BitVec.ofNat 32 i := by
  cases h with
  | nil => exact absurd length.symm (Nat.ne_of_gt w.bytes_pos)
  | @cons _ physical rest _ mmu₁ _ translated tail =>
    have place := offsetOf_translate translated
    have inside : ∀ i < rest.length,
        pageOf (address + 1 + BitVec.ofNat 32 i) = pageOf address := by
      intro i hi
      rw [address_succ]
      exact (fits.add (by rw [← length]; exact Nat.succ_lt_succ hi)).2
    obtain ⟨rfl, others⟩ := tail.of_known (fun b => translate_again translated) inside
    refine ⟨physical, translated, by rwa [InPage, place], fun i hi => ?_⟩
    cases i with
    | zero => rw [BitVec.add_zero]; rfl
    | succ i =>
      rw [List.getElem_cons_succ, others, address_succ]
      exact join_offsetOf_add place fits (length ▸ hi)

/-- Inside a page every byte has the address that it would have on its own. -/
theorem alone_inPage {w : Width} (h : Translates c access address mmu ps mmu')
    (length : ps.length = w.bytes) (fits : InPage w address) (i : Nat) (hi : i < ps.length) :
    (translate c (address + BitVec.ofNat 32 i) access mmu).1 = .ok ps[i] := by
  obtain ⟨physical, translated, -, place⟩ := h.inPage length fits
  have inside : i < w.bytes := length ▸ hi
  rw [translate_page translated (fits.add inside).2, place i hi,
    join_offsetOf_add (offsetOf_translate translated) fits inside]

end Translates

/-! ## Remembered pages that are up to date -/

/-- Every page remembered for a kind of access is the one that a walk finds, and walks do not
change the page table. -/
structure UpToDate (c : AccessContext) (access : Access) (mmu : Mmu) : Prop where
  current : ∀ e ∈ mmu.cache.entries, e.isFor c access = true → ∀ b, pageOf b = e.page →
    (Paging.walk c b access mmu.memory).1 = .ok (join e.frame (offsetOf b))
  steady : ∀ word, IsTableWord c mmu.memory word → mmu.memory.SteadyAt word

/-- What an address is translated to if nothing is remembered. -/
def afresh (c : AccessContext) (access : Access) (address : Word) (m : Memory) :
    Except Fault Word :=
  if c.paging = true then (Paging.walk c address access m).1 else .ok address

theorem trail_journal (c : AccessContext) (b : Word) (m : Memory) (journal : Journal) :
    trail c b { m with journal } = trail c b m := by
  have same : SameOn (fun _ => True) m { m with journal } := by
    refine ⟨rfl, rfl, rfl, rfl, fun i => ?_⟩
    cases m.devices[i]? with
    | none => exact .none
    | some d => exact .some (.refl d)
  exact trail_of_sameOn same fun _ _ => trivial

theorem afresh_journal (c : AccessContext) (access : Access) (b : Word) (m : Memory)
    (journal : Journal) : afresh c access b { m with journal } = afresh c access b m := by
  simp only [afresh, walk_congr (trail_journal c b m journal)]

namespace UpToDate

/-- Only the memory matters, not what has been reported. -/
theorem journal (u : UpToDate c access mmu) (journal : Journal) :
    UpToDate c access ⟨{ mmu.memory with journal }, mmu.cache⟩ where
  current := by
    intro e he kind b page
    rw [walk_congr (trail_journal c b mmu.memory journal)]
    exact u.current e he kind b page
  steady := by
    rintro word ⟨b, read⟩
    rw [reads, trail_journal] at read
    exact u.steady word ⟨b, read⟩

theorem translate (u : UpToDate c access mmu) (b : Word) :
    (Mmu.translate c b access mmu).1 = afresh c access b mmu.memory := by
  rw [translate_run, afresh]
  split
  case isFalse => rfl
  case isTrue =>
    cases found : mmu.cache.find? c b access with
    | some p =>
      obtain ⟨e, he, privilege, kind, page, rfl⟩ := TranslationCache.find?_own found
      obtain ⟨he, hart⟩ := TranslationCache.mem_of.mp he
      have isFor := CacheEntry.isFor_iff.mpr ⟨hart, privilege, kind⟩
      exact (u.current e he isFor b page.symm).symm
    | none =>
      dsimp only
      rw [walk_run]
      rcases Paging.walk c b access mmu.memory with ⟨fault | p, m⟩ <;> rfl

theorem after_translate (u : UpToDate c access mmu)
    (h : Mmu.translate c address access mmu = (.ok physical, mmu')) :
    UpToDate c access mmu' ∧ ∃ journal, mmu'.memory = { mmu.memory with journal } := by
  rcases translate_ok h with ⟨-, -, rfl⟩ | ⟨-, -, rfl⟩ | ⟨-, -, m, walked, rfl⟩
  · exact ⟨u, _, rfl⟩
  · exact ⟨u, _, rfl⟩
  · have unchanged : (Paging.walk c address access mmu.memory).2 = mmu.memory :=
      walk_memory access fun word read => u.steady word ⟨address, read⟩
    rw [walked] at unchanged
    obtain rfl : m = mmu.memory := unchanged
    have remembered :
        UpToDate c access ⟨mmu.memory, mmu.cache.insert c address physical access⟩ := by
      refine ⟨fun e he isFor b page => ?_, u.steady⟩
      rcases (TranslationCache.mem_insert ..).mp he with rfl | ⟨old, -⟩
      · exact walk_page walked page
      · exact u.current e old isFor b page
    exact ⟨remembered.journal _, _, rfl⟩

end UpToDate

/-- Then every address is translated as it would be on its own. -/
theorem Translates.alone (h : Translates c access address mmu ps mmu')
    (u : UpToDate c access mmu) (i : Nat) (hi : i < ps.length) :
    (translate c (address + BitVec.ofNat 32 i) access mmu).1 = .ok ps[i] := by
  induction h generalizing i with
  | nil => cases hi
  | @cons address physical rest mmu mmu₁ mmu₂ translated _ ih =>
    cases i with
    | zero =>
      rw [BitVec.add_zero, translated]
      rfl
    | succ i =>
      obtain ⟨u₁, journal, same⟩ := u.after_translate translated
      have next := ih u₁ i (Nat.lt_of_succ_lt_succ hi)
      rw [u₁.translate, same, afresh_journal, ← u.translate, address_succ] at next
      exact next

end Mmu
end Rv32
