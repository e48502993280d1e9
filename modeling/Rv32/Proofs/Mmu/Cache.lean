/-
# `Rv32.Proofs.Mmu.Cache` — remembered pages were once found by a walk

While a hart works, a page gets into its part of the cache only when a walk has just
found it, in the memory as it is then, and everything remembered for the hart is gone
when the hart drops it.  So each page remembered for the hart was found in one of the
memories in which the hart began to translate since then (`Parts.remembers`).

Here the hart is fixed, and with it the register and the bits a walk depends on.  That
they stay the same as long as something is remembered is a fact about instructions.
-/
import Rv32.Proofs.Mmu.Basic
import Rv32.Proofs.Mmu.Parts
import Rv32.Proofs.Paging.Cache
import Rv32.Proofs.Paging.Walk

namespace Rv32

/-- A walk of hart `h` in memory `m` maps the page of an entry to its frame, each
address to the one at the same offset. -/
def CacheEntry.FoundIn (e : CacheEntry) (h : Hart) (m : Memory) : Prop :=
  ∀ address, Paging.pageOf address = e.page →
    (Paging.walk (h.context e.privilege) address e.access m).1 =
      .ok (Paging.join e.frame (Paging.offsetOf address))

/-- Every page remembered for a hart was found in one of the memories of the past. -/
def TranslationCache.Remembers (t : TranslationCache) (h : Hart) (past : List Memory) : Prop :=
  ∀ e ∈ t.of h.config.id, (h.context e.privilege).paging = true ∧ ∃ m ∈ past, e.FoundIn h m

namespace TranslationCache

variable {t : TranslationCache} {h : Hart} {past : List Memory}

theorem Remembers.mono {past' : List Memory} (r : t.Remembers h past)
    (sub : ∀ m ∈ past, m ∈ past') : t.Remembers h past' := by
  intro e he
  obtain ⟨hpaging, m, hm, hfound⟩ := r e he
  exact ⟨hpaging, m, sub m hm, hfound⟩

/-- A page that a walk has found may be remembered. -/
theorem Remembers.insert (r : t.Remembers h past) {m : Memory} (hm : m ∈ past)
    {privilege : Privilege} {address physical : Word} {access : Access} {m' : Memory}
    (hpaging : (h.context privilege).paging = true)
    (walked : Paging.walk (h.context privilege) address access m = (.ok physical, m')) :
    (t.insert (h.context privilege) address physical access).Remembers h past := by
  intro e he
  obtain ⟨hin, hhart⟩ := mem_of.mp he
  rcases (mem_insert t _ _ _ _).mp hin with rfl | ⟨hold, -⟩
  · exact ⟨hpaging, m, hm, fun b hb => Paging.walk_page walked hb⟩
  · exact r e (mem_of.mpr ⟨hold, hhart⟩)

theorem remembers_of_forgets (forgets : t.Forgets h.config.id) : t.Remembers h past :=
  fun e he => absurd (mem_of.mp he).2 (forgets e (mem_of.mp he).1)

/-- Only the contexts of a hart matter. -/
theorem Remembers.congr {h' : Hart} (r : t.Remembers h past) (id : h'.config.id = h.config.id)
    (context : h'.context = h.context) : t.Remembers h' past := by
  intro e he
  rw [id] at he
  obtain ⟨hpaging, m, hm, hfound⟩ := r e he
  rw [← context] at hpaging
  refine ⟨hpaging, m, hm, fun address hpage => ?_⟩
  rw [context]
  exact hfound address hpage

end TranslationCache

/-! ## Each part -/

/-- A translation either leaves the cache as it is, or has walked the page table in the
memory it began in and remembers the page. -/
theorem Mmu.translate_cache (c : AccessContext) (address : Word) (access : Access) (mmu : Mmu) :
    (Mmu.translate c address access mmu).2.cache = mmu.cache ∨
      c.paging = true ∧ ∃ physical m,
        Paging.walk c address access mmu.memory = (.ok physical, m) ∧
        (Mmu.translate c address access mmu).2.cache =
          mmu.cache.insert c address physical access := by
  rw [translate_run]
  split
  case isFalse => exact .inl rfl
  case isTrue hpaging =>
    split
    · exact .inl rfl
    · rw [walk_run]
      rcases hw : Paging.walk c address access mmu.memory with ⟨fault | physical, m⟩
      · exact .inl rfl
      · exact .inr ⟨hpaging, physical, m, rfl, rfl⟩

namespace Parts

variable {h : Hart}

/-- What holds of a cache still holds after work, if it survives the pages that a hart
remembers and those that it drops. -/
theorem cache_invariant {P : TranslationCache → Prop}
    (insert : ∀ t privilege address physical access, P t →
      P (t.insert (h.context privilege) address physical access))
    (invalidate : ∀ t, P t → P (t.invalidate h.config.id)) :
    ∀ {ε α : Type} {work : Attempt ε Mmu α}, Parts h work →
      ∀ mmu, P mmu.cache → P (work mmu).2.cache := by
  intro ε α work parts
  induction parts with
  | done result => exact fun _ hp => hp
  | look => exact fun _ hp => hp
  | translate privilege address access =>
      intro mmu hp
      rcases Mmu.translate_cache (h.context privilege) address access mmu with
        hsame | ⟨-, physical, m, -, hins⟩
      · rw [hsame]
        exact hp
      · rw [hins]
        exact insert _ _ _ _ _ hp
  | read w address => exact fun _ hp => hp
  | write w address value => exact fun _ hp => hp
  | reserve address => exact fun _ hp => hp
  | release address => exact fun _ hp => hp
  | forget => exact fun mmu hp => invalidate mmu.cache hp
  | choice b yes no ihYes ihNo =>
      intro mmu hp
      split
      · exact ihYes mmu hp
      · exact ihNo mmu hp
  | @bind _ _ _ first rest _ _ ihFirst ihRest =>
      intro mmu hp
      have hmid := ihFirst mmu hp
      rw [Attempt.bind_run]
      rcases hf : first mmu with ⟨e | a, mmu'⟩
      · rw [hf] at hmid
        exact hmid
      · rw [hf] at hmid
        exact ihRest a mmu' hmid
  | adapt f _ ih => exact ih

/-- What a hart does leaves alone what is remembered for the others. -/
theorem cache_of_ne {hart : Nat} (hne : h.config.id ≠ hart) {ε α : Type}
    {work : Attempt ε Mmu α} (parts : Parts h work) (mmu : Mmu) :
    (work mmu).2.cache.of hart = mmu.cache.of hart :=
  parts.cache_invariant (P := fun t => t.of hart = mmu.cache.of hart)
    (fun t _ _ _ _ ht => (t.of_insert_ne _ _ _ _ hne).trans ht)
    (fun t ht => (t.of_invalidate_ne hne).trans ht) mmu rfl

theorem distinct {ε α : Type} {work : Attempt ε Mmu α} (parts : Parts h work) {mmu : Mmu}
    (hd : mmu.cache.Distinct) : (work mmu).2.cache.Distinct :=
  parts.cache_invariant (fun t _ _ _ _ => t.distinct_insert _ _ _ _)
    (fun t => t.distinct_invalidate _) mmu hd

/-! ## Work put together -/

/-- After any work of the hart, every page remembered for it was found in one of the
memories in which it began to translate since it last dropped them. -/
theorem remembers {ε α : Type} {work : Attempt ε Mmu α} (parts : Parts h work) :
    ∀ mmu past, mmu.cache.Remembers h past →
      (work mmu).2.cache.Remembers h (parts.moments mmu past) := by
  induction parts with
  | done result => exact fun _ _ hr => hr
  | look => exact fun _ _ hr => hr
  | translate privilege address access =>
      intro mmu past hr
      have hr' : mmu.cache.Remembers h (mmu.memory :: past) :=
        hr.mono fun m hm => List.mem_cons_of_mem _ hm
      rcases Mmu.translate_cache (h.context privilege) address access mmu with
        hsame | ⟨hpaging, physical, m, hwalk, hins⟩
      · rw [hsame]
        exact hr'
      · rw [hins]
        exact hr'.insert List.mem_cons_self hpaging hwalk
  | read w address => exact fun _ _ hr => hr
  | write w address value => exact fun _ _ hr => hr
  | reserve address => exact fun _ _ hr => hr
  | release address => exact fun _ _ hr => hr
  | forget =>
      exact fun mmu _ _ => TranslationCache.remembers_of_forgets (mmu.cache.forgets_invalidate _)
  | choice b yes no ihYes ihNo =>
      intro mmu past hr
      cases b with
      | true => exact ihYes mmu past hr
      | false => exact ihNo mmu past hr
  | @bind _ _ _ first rest parts _ ihFirst ihRest =>
      intro mmu past hr
      have hmid := ihFirst mmu past hr
      rw [Attempt.bind_run, moments]
      rcases hf : first mmu with ⟨e | a, mmu'⟩
      · rw [hf] at hmid
        exact hmid
      · rw [hf] at hmid
        exact ihRest a mmu' _ hmid
  | adapt f _ ih => exact ih

end Parts
end Rv32
