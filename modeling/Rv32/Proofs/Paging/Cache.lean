/-
# `Rv32.Proofs.Paging.Cache` — the remembered pages of a hart

What is remembered for one hart is apart from what is remembered for another: storing
or dropping pages of one leaves those of the other as they are, and a lookup for one
finds a page of that one only.  Of each kind of access at most one page is remembered,
so a page that is remembered is the one that is found.
-/
import Mathlib.Data.List.Pairwise
import Rv32.Paging.Cache
import Rv32.Proofs.Paging.Page

namespace Rv32

theorem CacheEntry.isFor_iff {e : CacheEntry} {c : AccessContext} {access : Access} :
    e.isFor c access = true ↔
      e.hart = c.hart ∧ e.privilege = c.privilege ∧ e.access = access := by
  simp only [isFor, Bool.and_eq_true, beq_iff_eq, and_assoc]

/-- Whether two entries are for the same hart, mode and kind of access. -/
def CacheEntry.SameKind (a b : CacheEntry) : Prop :=
  a.hart = b.hart ∧ a.privilege = b.privilege ∧ a.access = b.access

namespace TranslationCache

/-- The pages remembered for a hart. -/
def of (t : TranslationCache) (hart : Nat) : List CacheEntry :=
  t.entries.filter (·.hart == hart)

theorem mem_of {t : TranslationCache} {hart : Nat} {e : CacheEntry} :
    e ∈ t.of hart ↔ e ∈ t.entries ∧ e.hart = hart := by
  simp only [of, List.mem_filter, beq_iff_eq]

/-- Nothing is remembered for a hart. -/
def Forgets (t : TranslationCache) (hart : Nat) : Prop := ∀ e ∈ t.entries, e.hart ≠ hart

/-- No kind of access is remembered twice. -/
def Distinct (t : TranslationCache) : Prop :=
  t.entries.Pairwise fun a b => ¬CacheEntry.SameKind a b

variable (t : TranslationCache) (c : AccessContext) (address physical : Word) (access : Access)

/-! ## Remembering a page -/

/-- The entry for a page just walked. -/
def entryFor : CacheEntry :=
  ⟨c.hart, c.privilege, access, Paging.pageOf address, Paging.pageOf physical⟩

theorem mem_insert {e : CacheEntry} :
    e ∈ (t.insert c address physical access).entries ↔
      e = entryFor c address physical access ∨ e ∈ t.entries ∧ e.isFor c access = false := by
  simp only [insert, List.mem_cons, List.mem_filter, Bool.not_eq_true', entryFor]

theorem of_insert_ne {hart : Nat} (h : c.hart ≠ hart) :
    (t.insert c address physical access).of hart = t.of hart := by
  have hnew : (c.hart == hart) = false := by simpa using h
  simp only [of, insert, List.filter_cons, hnew, Bool.false_eq_true, if_false,
    List.filter_filter]
  refine List.filter_congr fun e _ => ?_
  cases heq : e.hart == hart with
  | false => rfl
  | true =>
      have hne : e.hart ≠ c.hart := fun heq' => h (heq'.symm.trans (by simpa using heq))
      have hfor : e.isFor c access = false := by
        rw [← Bool.not_eq_true, CacheEntry.isFor_iff]
        exact fun hc => hne hc.1
      rw [hfor]
      rfl

theorem distinct_insert (h : t.Distinct) :
    (t.insert c address physical access).Distinct := by
  refine List.Pairwise.cons (fun e he hkind => ?_) (List.Pairwise.filter _ h)
  have hfor := (List.mem_filter.mp he).2
  rw [Bool.not_eq_true', ← Bool.not_eq_true, CacheEntry.isFor_iff] at hfor
  exact hfor ⟨hkind.1.symm, hkind.2.1.symm, hkind.2.2.symm⟩

/-! ## Dropping the pages of a hart -/

theorem forgets_invalidate (hart : Nat) : (t.invalidate hart).Forgets hart := by
  intro e he
  simpa using (List.mem_filter.mp he).2

theorem of_invalidate_ne {dropped hart : Nat} (h : dropped ≠ hart) :
    (t.invalidate dropped).of hart = t.of hart := by
  simp only [of, invalidate, List.filter_filter]
  refine List.filter_congr fun e _ => ?_
  cases heq : e.hart == hart with
  | false => rfl
  | true =>
      have hne : e.hart ≠ dropped := by
        rw [show e.hart = hart by simpa using heq]
        exact h.symm
      simpa using hne

theorem distinct_invalidate (hart : Nat) (h : t.Distinct) : (t.invalidate hart).Distinct :=
  List.Pairwise.filter _ h

theorem distinct_empty : empty.Distinct := List.Pairwise.nil

/-! ## Lookups -/

variable {t c address physical access}

/-- What a lookup finds is a page of the hart that looks. -/
theorem find?_own (h : t.find? c address access = some physical) :
    ∃ e ∈ t.of c.hart, e.privilege = c.privilege ∧ e.access = access ∧
      e.page = Paging.pageOf address ∧
      physical = Paging.join e.frame (Paging.offsetOf address) := by
  unfold find? at h
  split at h
  · rename_i e he
    split at h
    · rename_i hpage
      have hsome := List.find?_some he
      have hfor := CacheEntry.isFor_iff.mp hsome
      cases h
      exact ⟨e, mem_of.mpr ⟨List.mem_of_find?_eq_some he, hfor.1⟩, hfor.2.1, hfor.2.2, hpage, rfl⟩
    · cases h
  · cases h

/-- What is found after a page was remembered is on that page, or was found before. -/
theorem find?_insert {other found : Word} {kind : Access}
    (h : (t.insert c address physical access).find? c other kind = some found) :
    kind = access ∧ Paging.pageOf other = Paging.pageOf address ∧
        found = Paging.join (Paging.pageOf physical) (Paging.offsetOf other) ∨
      t.find? c other kind = some found := by
  by_cases hkind : kind = access
  · subst hkind
    have hnew : (entryFor c address physical kind).isFor c kind = true :=
      CacheEntry.isFor_iff.mpr ⟨rfl, rfl, rfl⟩
    have hfind : (t.insert c address physical kind).entries.find? (·.isFor c kind) =
        some (entryFor c address physical kind) :=
      List.find?_cons_of_pos (p := fun e : CacheEntry => e.isFor c kind) hnew
    rw [find?, hfind] at h
    dsimp only at h
    split at h
    · rename_i hpage
      cases h
      exact .inl ⟨rfl, hpage.symm, rfl⟩
    · cases h
  · have hold : ¬(entryFor c address physical access).isFor c kind = true :=
      fun hfor => hkind (CacheEntry.isFor_iff.mp hfor).2.2.symm
    have hfilter (e : CacheEntry) :
        decide ((!e.isFor c access) = true ∧ e.isFor c kind = true) = e.isFor c kind := by
      cases hfor : e.isFor c kind with
      | false => simp
      | true =>
          have hne : e.isFor c access = false := by
            rw [← Bool.not_eq_true]
            intro hfor'
            exact hkind ((CacheEntry.isFor_iff.mp hfor).2.2.symm.trans
              (CacheEntry.isFor_iff.mp hfor').2.2)
          simp [hne]
    have hfind : (t.insert c address physical access).entries.find? (·.isFor c kind) =
        t.entries.find? (·.isFor c kind) := by
      refine (List.find?_cons_of_neg (p := fun e : CacheEntry => e.isFor c kind) hold).trans ?_
      simp only [List.find?_filter, hfilter]
    rw [find?, hfind] at h
    exact .inr h

/-- A page is found by all of its addresses. -/
theorem find?_page (h : t.find? c address access = some physical) {b : Word}
    (same : Paging.pageOf b = Paging.pageOf address) :
    t.find? c b access = some (Paging.join (Paging.pageOf physical) (Paging.offsetOf b)) := by
  unfold find? at h ⊢
  split at h
  case h_1 e found =>
    split at h
    case isTrue page =>
      cases h
      rw [if_pos (page.trans same.symm), Paging.pageOf_join]
    case isFalse => cases h
  case h_2 => cases h

/-- The page that was remembered last is found. -/
theorem find?_insert_self {b : Word} (same : Paging.pageOf b = Paging.pageOf address) :
    (t.insert c address physical access).find? c b access =
      some (Paging.join (Paging.pageOf physical) (Paging.offsetOf b)) := by
  have isNew : (entryFor c address physical access).isFor c access = true :=
    CacheEntry.isFor_iff.mpr ⟨rfl, rfl, rfl⟩
  have found : (t.insert c address physical access).entries.find? (·.isFor c access) =
      some (entryFor c address physical access) :=
    List.find?_cons_of_pos (p := fun e : CacheEntry => e.isFor c access) isNew
  rw [find?, found]
  exact if_pos same.symm

/-- Nothing is found for a hart that nothing is remembered for. -/
theorem find?_of_forgets (h : t.Forgets c.hart) : t.find? c address access = none := by
  cases hf : t.find? c address access with
  | none => rfl
  | some physical =>
      obtain ⟨e, he, -⟩ := find?_own hf
      exact absurd (mem_of.mp he).2 (h e (mem_of.mp he).1)

/-- A page that is remembered is found. -/
theorem find?_of_mem (distinct : t.Distinct) {e : CacheEntry} (he : e ∈ t.entries)
    (hfor : e.isFor c access = true) (hpage : e.page = Paging.pageOf address) :
    t.find? c address access = some (Paging.join e.frame (Paging.offsetOf address)) := by
  have : Std.Symm fun a b : CacheEntry => ¬a.SameKind b :=
    ⟨fun _ _ hab hba => hab ⟨hba.1.symm, hba.2.1.symm, hba.2.2.symm⟩⟩
  have hfind : t.entries.find? (·.isFor c access) = some e := by
    cases hf : t.entries.find? (·.isFor c access) with
    | none => exact absurd hfor (List.find?_eq_none.mp hf e he)
    | some found =>
        have hsome := List.find?_some hf
        obtain ⟨hh, hp, ha⟩ := CacheEntry.isFor_iff.mp hsome
        obtain ⟨hh', hp', ha'⟩ := CacheEntry.isFor_iff.mp hfor
        by_contra hne
        have hne' : found ≠ e := fun heq => hne (congrArg some heq)
        exact List.Pairwise.forall distinct (List.mem_of_find?_eq_some hf) he hne'
          ⟨hh.trans hh'.symm, hp.trans hp'.symm, ha.trans ha'.symm⟩
  simp only [find?, hfind, hpage, if_true]

end TranslationCache
end Rv32
