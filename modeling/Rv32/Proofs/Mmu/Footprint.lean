/-
# `Rv32.Proofs.Mmu.Footprint` — where accesses write, and what they forget

A store, an atomic update and a conditional store change bytes of main memory only at the
physical addresses that the bytes of the access are translated to, one after the other
(`Footprint`).  They may be one write or one for each byte; that no more is written than the
bytes that were translated is the same for both.

What an access does not do at all, it does not do in any of its parts (`Parts.Avoids`).  Work
without a write leaves main memory as it was, and work that never drops remembered pages keeps
a page of each kind of which it had one.
-/
import Rv32.Proofs.Mmu.Agreement
import Rv32.Proofs.Mmu.Bytes
import Rv32.Proofs.Mmu.Cache

namespace Rv32

open Attempt Memory

/-! ## Bytes written one after the other -/

/-- Bytes that are not written to are as they were. -/
theorem Memory.ramByte?_storeBytes_out {bytes : List (Word × Byte)} {index : Nat} {q : Word}
    (out : ∀ b ∈ bytes, q ≠ b.1) (m : Memory) :
    (m.storeBytes bytes).ramByte? index q = m.ramByte? index q := by
  induction bytes generalizing m with
  | nil => rfl
  | cons b rest ih =>
    obtain ⟨apart, others⟩ := List.forall_mem_cons.mp out
    refine (ih others _).trans (ramByte?_write_out fun _ k hk => ?_)
    have first : k = 0 := Nat.lt_one_iff.mp hk
    rwa [first, BitVec.add_zero]

namespace Mmu

open Paging

variable {c : AccessContext} {access : Access} {w : Width} {address physical : Word}
  {mmu s after : Mmu} {ps : List Word}

/-! ## The translations of an access -/

/-- The addresses of a remembered page are translated without a change. -/
theorem translates_known {page frame : Page}
    (known : ∀ b, pageOf b = page → translate c b access s = (.ok (join frame (offsetOf b)), s))
    (n : Nat) (address : Word)
    (inside : ∀ i < n, pageOf (address + BitVec.ofNat 32 i) = page) :
    ∃ ps, Translates c access address s ps s ∧ ps.length = n := by
  induction n generalizing address with
  | zero => exact ⟨[], .nil address s, rfl⟩
  | succ n ih =>
    have first := inside 0 (Nat.succ_pos n)
    rw [BitVec.add_zero] at first
    obtain ⟨ps, rest, length⟩ := ih (address + 1) fun i hi => by
      rw [address_succ]
      exact inside (i + 1) (Nat.succ_lt_succ hi)
    exact ⟨_, .cons (known address first) rest, congrArg Nat.succ length⟩

/-- Where the first byte of an access inside a page is translated, the others follow. -/
theorem exists_translates (translated : translate c address access mmu = (.ok physical, s))
    (fits : InPage w address) :
    ∃ ps, Translates c access address mmu ps s ∧ ps.length = w.bytes ∧
      ∀ k < w.bytes, physical + BitVec.ofNat 32 k ∈ ps := by
  obtain ⟨n, size⟩ := Nat.exists_eq_succ_of_ne_zero (Nat.ne_of_gt w.bytes_pos)
  obtain ⟨rest, others, length⟩ :=
    translates_known (fun b => translate_again translated) n (address + 1) fun i hi => by
      rw [address_succ]
      exact (fits.add (size ▸ Nat.succ_lt_succ hi)).2
  have all : Translates c access address mmu (physical :: rest) s := .cons translated others
  have whole : (physical :: rest).length = w.bytes := by rw [size, ← length]; rfl
  refine ⟨physical :: rest, all, whole, fun k hk => ?_⟩
  obtain ⟨first, same, -, place⟩ := all.inPage whole fits
  obtain rfl : physical = first := Except.ok.inj (congrArg Prod.fst (translated.symm.trans same))
  rw [← place k (whole ▸ hk)]
  exact List.getElem_mem _

theorem translates_of_run (n : Nat) (address : Word) (mmu : Mmu) :
    Yields (translateBytes c address n) mmu
      (fun ps s => Translates c .write address mmu ps s ∧ ps.length = n) fun _ _ => True := by
  induction n generalizing address mmu with
  | zero => exact .pure ⟨.nil address mmu, rfl⟩
  | succ n ih =>
    refine Yields.bind ((Yields.run _ mmu).mono (fun _ _ => id) fun _ _ _ => trivial) ?_
    intro physical mmu' translated
    refine Yields.bind (ih (address + 1) mmu') ?_
    rintro ps s ⟨rest, length⟩
    exact .pure ⟨.cons translated rest, congrArg Nat.succ length⟩

/-! ## Where an access writes -/

/-- The bytes of an access are translated to these addresses, and no other byte of main memory
has changed. -/
structure Footprint (c : AccessContext) (w : Width) (address : Word) (mmu after : Mmu)
    (ps : List Word) : Prop where
  translates : ∃ s, Translates c .write address mmu ps s
  length : ps.length = w.bytes
  others : ∀ index q, q ∉ ps →
    after.memory.ramByte? index q = mmu.memory.ramByte? index q

/-- A write to where the first byte was translated to. -/
theorem footprint_physicalWrite (translated : translate c address .write mmu = (.ok physical, s))
    (fits : InPage w address) {m : Memory}
    (same : ∀ index q, m.ramByte? index q = s.memory.ramByte? index q) (value : BitVec w.bits)
    (memory : after.memory = (m.write w physical value).2) :
    ∃ ps, Footprint c w address mmu after ps := by
  obtain ⟨ps, translates, length, all⟩ := exists_translates translated fits
  refine ⟨ps, ⟨s, translates⟩, length, fun index q out => ?_⟩
  have apart : ∀ k < w.bytes, q ≠ physical + BitVec.ofNat 32 k :=
    fun k hk at_k => out (at_k.symm ▸ all k hk)
  rw [memory]
  calc (m.write w physical value).2.ramByte? index q
      = m.ramByte? index q := ramByte?_write_out fun _ => apart
    _ = s.memory.ramByte? index q := same index q
    _ = mmu.memory.ramByte? index q := translates.undisturbed.ram index q

/-- Where nothing is written after the translation. -/
theorem footprint_unwritten (translated : translate c address .write mmu = (.ok physical, s))
    (fits : InPage w address)
    (same : ∀ index q, after.memory.ramByte? index q = s.memory.ramByte? index q) :
    ∃ ps, Footprint c w address mmu after ps := by
  obtain ⟨ps, translates, length, -⟩ := exists_translates translated fits
  refine ⟨ps, ⟨s, translates⟩, length, fun index q _ => ?_⟩
  rw [same]
  exact translates.undisturbed.ram index q

theorem write_footprint (value : BitVec w.bits) :
    Yields (write c w address value) mmu
      (fun _ after => ∃ ps, Footprint c w address mmu after ps) fun _ _ => True := by
  refine Yields.bind (p := fun one s => inOnePiece c w address = .ok one ∧ mmu = s)
    (Yields.lift (fun _ one => ⟨one, rfl⟩) fun _ _ => trivial) ?_
  rintro one _ ⟨pieces, rfl⟩
  cases one with
  | true =>
    refine Yields.bind ((Yields.run _ mmu).mono (fun _ _ => id) fun _ _ _ => trivial) ?_
    intro physical s translated
    refine (Yields.run _ s).mono (fun _ after written => ?_) fun _ _ _ => trivial
    rw [physicalWrite_run] at written
    exact footprint_physicalWrite translated (inPage_of_inOnePiece pieces) (fun _ _ => rfl) value
      (congrArg (·.2.memory) written).symm
  | false =>
    refine Yields.bind (translates_of_run w.bytes address mmu) ?_
    rintro ps s ⟨translates, length⟩
    refine (Yields.run _ s).mono (fun _ after written => ?_) fun _ _ _ => trivial
    rw [writeBytes_run] at written
    refine ⟨ps, ⟨s, translates⟩, length, fun index q out => ?_⟩
    -- Writing stops at the first byte that faults, so perhaps not all of these are written.
    rw [← congrArg (·.2.memory) written]
    refine (ramByte?_storeBytes_out (fun b hb same => out ?_) s.memory).trans
      (translates.undisturbed.ram index q)
    rw [same]
    exact (List.of_mem_zip ((List.takeWhile_prefix _).subset hb)).1

/-- An atomic access is to a word inside a page. -/
theorem atomicAddress_footprint :
    Yields (atomicAddress c address access) mmu
      (fun physical s => translate c address access mmu = (.ok physical, s) ∧
        InPage .word address) fun _ _ => True := by
  unfold atomicAddress
  split
  case isTrue => exact .throw trivial
  case isFalse aligned =>
    have admitted : Alignment.word.admits address = true := by simpa using aligned
    have fits : InPage .word address := inPage_of_admits admitted
    exact (Yields.run _ mmu).mono (fun _ _ translated => ⟨translated, fits⟩) fun _ _ _ => trivial

theorem update_footprint (f : Word → Word) :
    Yields (update c address f) mmu
      (fun _ after => ∃ ps, Footprint c .word address mmu after ps) fun _ _ => True := by
  refine Yields.bind atomicAddress_footprint ?_
  rintro physical s ⟨translated, fits⟩
  refine Yields.bind ((Yields.run _ s).mono (fun _ _ => id) fun _ _ _ => trivial) ?_
  intro old s' read
  have same (index : Nat) (q : Word) :
      s'.memory.ramByte? index q = s.memory.ramByte? index q := by
    rw [← congrArg (·.2.memory) read]
    exact (Undisturbed.read s.memory .word physical).ram index q
  refine Yields.bind ((Yields.run _ s').mono (fun _ _ => id) fun _ _ _ => trivial) ?_
  intro _ after written
  rw [physicalWrite_run] at written
  exact .pure (footprint_physicalWrite translated fits same (f old)
    (congrArg (·.2.memory) written).symm)

theorem storeConditional_footprint (value : Word) :
    Yields (storeConditional c address value) mmu
      (fun _ after => ∃ ps, Footprint c .word address mmu after ps) fun _ _ => True := by
  refine Yields.bind atomicAddress_footprint ?_
  rintro physical s ⟨translated, fits⟩
  refine Yields.bind ((Yields.run _ s).mono (fun _ _ => id) fun _ _ _ => trivial) ?_
  intro held s' released
  have same (index : Nat) (q : Word) :
      s'.memory.ramByte? index q = s.memory.ramByte? index q := by
    rw [← congrArg (·.2.memory) released]
    rfl
  split
  case isFalse => exact .pure (footprint_unwritten translated fits same)
  case isTrue =>
    refine Yields.bind ((Yields.run _ s').mono (fun _ _ => id) fun _ _ _ => trivial) ?_
    intro _ after written
    rw [physicalWrite_run] at written
    exact .pure (footprint_physicalWrite translated fits same value
      (congrArg (·.2.memory) written).symm)

end Mmu

/-! ## What work does not do -/

/-- Of every kind of which a page was remembered, one still is, perhaps another one. -/
def TranslationCache.KeepsKinds (t t' : TranslationCache) : Prop :=
  ∀ e ∈ t.entries, ∃ e' ∈ t'.entries, e'.SameKind e

namespace TranslationCache.KeepsKinds

variable {t t' t'' : TranslationCache}

theorem refl (t : TranslationCache) : t.KeepsKinds t := fun e he => ⟨e, he, rfl, rfl, rfl⟩

theorem trans (k : t.KeepsKinds t') (k' : t'.KeepsKinds t'') : t.KeepsKinds t'' := by
  intro e he
  obtain ⟨e', he', hart, privilege, access⟩ := k e he
  obtain ⟨e'', he'', hart', privilege', access'⟩ := k' e' he'
  exact ⟨e'', he'', hart'.trans hart, privilege'.trans privilege, access'.trans access⟩

/-- A page takes the place of the last one of its own kind only. -/
theorem insert (t : TranslationCache) (c : AccessContext) (address physical : Word)
    (access : Access) : t.KeepsKinds (t.insert c address physical access) := by
  intro e he
  cases kind : e.isFor c access with
  | true =>
    obtain ⟨hart, privilege, same⟩ := CacheEntry.isFor_iff.mp kind
    exact ⟨_, (mem_insert ..).mpr (.inl rfl), hart.symm, privilege.symm, same.symm⟩
  | false => exact ⟨e, (mem_insert ..).mpr (.inr ⟨he, kind⟩), rfl, rfl, rfl⟩

end TranslationCache.KeepsKinds

namespace Parts

/-- What work can do besides translating, reading and reserving. -/
inductive Effect where
  /-- Writing to physical addresses. -/
  | write
  /-- Dropping the pages remembered for the hart. -/
  | forget
deriving DecidableEq

variable {h : Hart}

/-- Work has no part with an effect, whatever its parts give. -/
def Avoids (effect : Effect) {ε α : Type} {work : Attempt ε Mmu α} : Parts h work → Prop
  | .write .. => effect ≠ .write
  | .forget => effect ≠ .forget
  | .choice _ yes no => yes.Avoids effect ∧ no.Avoids effect
  | .bind first rest => first.Avoids effect ∧ ∀ a, (rest a).Avoids effect
  | .adapt _ parts => parts.Avoids effect
  | .done .. | .look | .translate .. | .read .. | .reserve .. | .release .. => True

/-- Work without a write leaves main memory as it was. -/
theorem ram_of_avoids {ε α : Type} {work : Attempt ε Mmu α} (parts : Parts h work)
    (avoids : parts.Avoids .write) (mmu : Mmu) (index : Nat) (q : Word) :
    (work mmu).2.memory.ramByte? index q = mmu.memory.ramByte? index q := by
  induction parts generalizing mmu with
  | done result => rfl
  | look => rfl
  | translate privilege address access =>
    have undisturbed := Yields.state.mp
      (Mmu.translate_undisturbed (.refl mmu.memory) (h.context privilege) address access)
    exact undisturbed.ram index q
  | read w address => exact (Undisturbed.read mmu.memory w address).ram index q
  | write w address value => exact absurd rfl avoids
  | reserve address => rfl
  | release address => rfl
  | forget => rfl
  | choice b yes no ihYes ihNo =>
    cases b with
    | true => exact ihYes avoids.1 mmu
    | false => exact ihNo avoids.2 mmu
  | @bind _ _ _ first rest _ _ ihFirst ihRest =>
    have before := ihFirst avoids.1 mmu
    rw [bind_run]
    rcases run : first mmu with ⟨e | a, mmu'⟩
    · rw [run] at before
      exact before
    · rw [run] at before
      exact (ihRest a (avoids.2 a) mmu').trans before
  | adapt f _ ih => exact ih avoids mmu

/-- Work that drops nothing keeps a page of every kind. -/
theorem kinds_of_avoids {ε α : Type} {work : Attempt ε Mmu α} (parts : Parts h work)
    (avoids : parts.Avoids .forget) (mmu : Mmu) :
    mmu.cache.KeepsKinds (work mmu).2.cache := by
  induction parts generalizing mmu with
  | done result => exact .refl _
  | look => exact .refl _
  | translate privilege address access =>
    rcases Mmu.translate_cache (h.context privilege) address access mmu with
      same | ⟨-, physical, m, -, inserted⟩
    · rw [same]
      exact .refl _
    · rw [inserted]
      exact .insert _ _ _ _ _
  | read w address => exact .refl _
  | write w address value => exact .refl _
  | reserve address => exact .refl _
  | release address => exact .refl _
  | forget => exact absurd rfl avoids
  | choice b yes no ihYes ihNo =>
    cases b with
    | true => exact ihYes avoids.1 mmu
    | false => exact ihNo avoids.2 mmu
  | @bind _ _ _ first rest _ _ ihFirst ihRest =>
    have before := ihFirst avoids.1 mmu
    rw [bind_run]
    rcases run : first mmu with ⟨e | a, mmu'⟩
    · rw [run] at before
      exact before
    · rw [run] at before
      exact before.trans (ihRest a (avoids.2 a) mmu')
  | adapt f _ ih => exact ih avoids mmu

/-! ## What accesses do not do -/

section
variable (privilege : Privilege) (effect : Effect)

theorem avoids_readBytes (n : Nat) (address : Word) :
    (readBytes (h := h) privilege n address).Avoids effect := by
  induction n generalizing address with
  | zero => trivial
  | succ n ih => exact ⟨trivial, fun _ => ⟨trivial, fun _ => ⟨ih (address + 1), fun _ => trivial⟩⟩⟩

theorem avoids_load (address : Word) (w : Width) :
    (load (h := h) privilege address w).Avoids effect :=
  ⟨trivial, fun _ => ⟨⟨trivial, fun _ => trivial⟩,
    avoids_readBytes privilege effect w.bytes address, fun _ => trivial⟩⟩

theorem avoids_translateBytes (n : Nat) (address : Word) :
    (translateBytes (h := h) privilege n address).Avoids effect := by
  induction n generalizing address with
  | zero => trivial
  | succ n ih => exact ⟨trivial, fun _ => ⟨ih (address + 1), fun _ => trivial⟩⟩

theorem avoids_writeBytes (bytes : List (Word × Byte)) :
    (writeBytes (h := h) bytes).Avoids .forget := by
  induction bytes with
  | nil => trivial
  | cons b rest ih => exact ⟨nofun, fun _ => ih⟩

theorem avoids_store (address : Word) (w : Width) (value : BitVec w.bits) :
    (store (h := h) privilege address w value).Avoids .forget :=
  ⟨trivial, fun _ => ⟨⟨trivial, fun _ => nofun⟩,
    avoids_translateBytes privilege .forget w.bytes address, fun _ => avoids_writeBytes _⟩⟩

theorem avoids_update (address : Word) (f : Word → Word) :
    (update (h := h) privilege address f).Avoids .forget :=
  ⟨⟨trivial, trivial⟩, fun _ => ⟨trivial, fun _ => ⟨nofun, fun _ => trivial⟩⟩⟩

theorem avoids_loadReserved (address : Word) :
    (loadReserved (h := h) privilege address).Avoids effect :=
  ⟨⟨trivial, trivial⟩, fun _ => ⟨trivial, fun _ => ⟨trivial, fun _ => trivial⟩⟩⟩

theorem avoids_storeConditional (address value : Word) :
    (storeConditional (h := h) privilege address value).Avoids .forget :=
  ⟨⟨trivial, trivial⟩, fun _ => ⟨trivial, fun _ => ⟨⟨nofun, fun _ => trivial⟩, trivial⟩⟩⟩

end
end Parts
end Rv32
