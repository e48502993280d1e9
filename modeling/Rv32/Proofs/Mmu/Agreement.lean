/-
# `Rv32.Proofs.Mmu.Agreement` — accesses of user mode in two runs

Some pages of memory are protected: no walk of the page table reads them, and no leaf of
user mode maps them.  Two runs are followed, from memories that are alike but for the
protected pages.  The runs stay alike (`Alike`), and with respect to its beginning each
has kept the protected pages and those of the page table (`Untouched`), so that every
translation is what a walk would have found at the beginning.

Work that keeps two runs alike and ends alike `Agrees`.  There is a rule for each way of
putting work together, and one for each access.
-/
import Rv32.Mmu.Atomic
import Rv32.Proofs.Mmu.Basic
import Rv32.Proofs.Paging.Cache
import Rv32.Proofs.Paging.Table

namespace Rv32.Mmu

/-- An access that one translation will do for does not leave its page. -/
theorem inPage_of_inOnePiece {c : AccessContext} {w : Width} {address : Word}
    (h : inOnePiece c w address = .ok true) : InPage w address := by
  unfold inOnePiece at h
  split at h
  · exact inPage_of_admits ‹_›
  · split at h
    · cases h
    · simp only [Except.ok.injEq, decide_eq_true_eq] at h
      rw [InPage, Paging.toNat_offsetOf]
      exact h

/-! ## Protected pages -/

/-- Pages apart from the page table and from what it maps for user mode; and the two
are apart from each other. -/
structure Fenced (c : AccessContext) (protect : Page → Prop) (m : Memory) : Prop where
  tables : ∀ word, Paging.IsTableWord c m word → ¬protect (Paging.pageOf word)
  frames : ∀ frame, Paging.IsUserFrame c m frame → ¬protect frame
  apart : ∀ frame word, Paging.IsUserFrame c m frame → Paging.IsTableWord c m word →
    frame ≠ Paging.pageOf word

/-- Such pages, where the words of the page table are steady. -/
structure Isolated (c : AccessContext) (protect : Page → Prop) (m : Memory) : Prop
    extends Fenced c protect m where
  steady : ∀ word, Paging.IsTableWord c m word → m.SteadyAt word

/-- The pages that are protected, and those of the page table. -/
def OffLimits (c : AccessContext) (protect : Page → Prop) (m : Memory) (page : Page) : Prop :=
  protect page ∨ ∃ word, Paging.IsTableWord c m word ∧ Paging.pageOf word = page

variable {c : AccessContext} {protect : Page → Prop} {m m' : Memory}

theorem Fenced.not_offLimits (fenced : Fenced c protect m) {frame : Page}
    (h : Paging.IsUserFrame c m frame) : ¬OffLimits c protect m frame := by
  rintro (hprotect | ⟨word, hword, hpage⟩)
  · exact fenced.frames frame h hprotect
  · exact fenced.apart frame word h hword hpage.symm

/-- Memories alike but for the protected pages have the same page table. -/
theorem Fenced.trail_eq (fenced : Fenced c protect m)
    (same : Memory.SameOn (fun page => ¬protect page) m m') (address : Word) :
    Paging.trail c address m' = Paging.trail c address m :=
  Paging.trail_of_sameOn same fun word hword => fenced.tables word ⟨address, hword⟩

/-- The pages are protected in one as they are in the other. -/
theorem Isolated.congr (isolated : Isolated c protect m)
    (same : Memory.SameOn (fun page => ¬protect page) m m') : Isolated c protect m' := by
  have htrail := isolated.trail_eq same
  have hword {word : Word} (h : Paging.IsTableWord c m' word) : Paging.IsTableWord c m word := by
    obtain ⟨address, hmem⟩ := h
    rw [Paging.reads, htrail] at hmem
    exact ⟨address, hmem⟩
  have hframe {frame : Page} (h : Paging.IsUserFrame c m' frame) :
      Paging.IsUserFrame c m frame := by
    obtain ⟨address, e, hleaf, huser⟩ := h
    rw [htrail] at hleaf
    exact ⟨address, e, hleaf, huser⟩
  exact {
    tables := fun word h => isolated.tables word (hword h)
    frames := fun frame h => isolated.frames frame (hframe h)
    apart := fun frame word h h' => isolated.apart frame word (hframe h) (hword h')
    steady := fun word h => same.steadyAt (isolated.steady word (hword h)) }

/-! ## One run -/

/-- A unit that has come from a memory with the pages off limits kept, and remembers
for its hart what walks found in that memory. -/
structure Untouched (c : AccessContext) (protect : Page → Prop) (m : Memory) (mmu : Mmu) : Prop where
  kept : Memory.Keeps (OffLimits c protect m) m mmu.memory
  cached : ∀ address access physical, mmu.cache.find? c address access = some physical →
    (Paging.walk c address access m).1 = .ok physical

variable {mmu : Mmu}

/-- A walk finds what it would have found at the beginning, and changes nothing. -/
theorem Untouched.walk (h : Untouched c protect m mmu) (isolated : Isolated c protect m)
    (address : Word) (access : Access) :
    (Paging.walk c address access mmu.memory).1 = (Paging.walk c address access m).1 ∧
      (Paging.walk c address access mmu.memory).2 = mmu.memory := by
  have hsteady : ∀ word ∈ Paging.reads c address m, m.SteadyAt word :=
    fun word hword => isolated.steady word ⟨address, hword⟩
  have htrail : Paging.trail c address mmu.memory = Paging.trail c address m :=
    Paging.trail_of_keeps h.kept (fun word hword => .inr ⟨word, ⟨address, hword⟩, rfl⟩) hsteady
  refine ⟨Paging.walk_congr htrail access, Paging.walk_memory access fun word hword => ?_⟩
  rw [Paging.reads, htrail] at hword
  exact h.kept.steadyAt (hsteady word hword)

/-- A translation gives what a walk would have found at the beginning, and changes what
is remembered and reported only. -/
theorem Untouched.translate (h : Untouched c protect m mmu) (isolated : Isolated c protect m)
    (paging : c.paging = true) (address : Word) (access : Access) :
    (Mmu.translate c address access mmu).1 = (Paging.walk c address access m).1 ∧
      Untouched c protect m (Mmu.translate c address access mmu).2 ∧
      ∃ journal, (Mmu.translate c address access mmu).2.memory = { mmu.memory with journal } := by
  rw [translate_run, if_pos paging]
  cases hfind : mmu.cache.find? c address access with
  | some physical => exact ⟨(h.cached address access physical hfind).symm, h, _, rfl⟩
  | none =>
      obtain ⟨hresult, hmemory⟩ := h.walk isolated address access
      dsimp only
      rw [walk_run]
      rcases hw : Paging.walk c address access mmu.memory with ⟨fault | physical, m₁⟩
      all_goals
        rw [hw] at hresult hmemory
        dsimp only at hresult hmemory ⊢
        subst hmemory
      · exact ⟨hresult, ⟨h.kept, h.cached⟩, _, rfl⟩
      · -- The walk has added the page to what is remembered; it was found at the beginning too.
        refine ⟨hresult, ⟨h.kept.withJournal _, ?_⟩, _, rfl⟩
        intro other kind found hfound
        rcases TranslationCache.find?_insert hfound with ⟨rfl, hpage, rfl⟩ | hold
        · have hbegin : Paging.walk c address kind m = (.ok physical, m) :=
            Prod.ext hresult.symm
              (Paging.walk_memory kind fun word hword => isolated.steady word ⟨address, hword⟩)
          exact Paging.walk_page hbegin hpage
        · exact h.cached other kind found hold

/-! ## Two runs -/

/-- What is compared: a hart in user mode with a page table, and two memories with the
same page table from which the same pages are isolated. -/
structure Compared (c : AccessContext) (protect : Page → Prop) (m m' : Memory) : Prop where
  user : c.privilege = .user
  paging : c.paging = true
  left : Isolated c protect m
  right : Isolated c protect m'
  trails : ∀ address, Paging.trail c address m' = Paging.trail c address m

/-- Two units that have come from two memories, and are alike but for protected pages. -/
structure Alike (c : AccessContext) (protect : Page → Prop) (m m' : Memory)
    (mmu mmu' : Mmu) : Prop where
  same : Memory.SameOn (fun page => ¬protect page) mmu.memory mmu'.memory
  left : Untouched c protect m mmu
  right : Untouched c protect m' mmu'

/-- Work that gives the same in units that are alike, a result of which `good` holds or a
fault, and leaves them alike. -/
def Agrees (c : AccessContext) (protect : Page → Prop) (m m' : Memory) {α : Type}
    (work : Attempt Fault Mmu α) (good : α → Prop) : Prop :=
  ∀ mmu mmu', Alike c protect m m' mmu mmu' →
    (work mmu').1 = (work mmu).1 ∧ (∀ a, (work mmu).1 = .ok a → good a) ∧
      Alike c protect m m' (work mmu).2 (work mmu').2

/-- A page that an access may go to in both runs. -/
def Reachable (c : AccessContext) (protect : Page → Prop) (m m' : Memory) (page : Page) : Prop :=
  ¬OffLimits c protect m page ∧ ¬OffLimits c protect m' page

theorem Reachable.not_protected {page : Page} (h : Reachable c protect m m' page) :
    ¬protect page := fun hprotect => h.1 (.inl hprotect)

namespace Agrees

variable {α β : Type} {good : α → Prop}

/-! ### Putting work together -/

theorem pure {a : α} (h : good a) :
    Agrees c protect m m' (pure a : Attempt Fault Mmu α) good := by
  intro mmu mmu' halike
  refine ⟨rfl, ?_, halike⟩
  rintro b ⟨⟩
  exact h

theorem throw (fault : Fault) :
    Agrees c protect m m' (throw fault : Attempt Fault Mmu α) good := by
  intro mmu mmu' halike
  refine ⟨rfl, ?_, halike⟩
  rintro b ⟨⟩

theorem ite {p : Prop} [Decidable p] {yes no : Attempt Fault Mmu α}
    (hyes : p → Agrees c protect m m' yes good) (hno : ¬p → Agrees c protect m m' no good) :
    Agrees c protect m m' (if p then yes else no) good := by
  split
  · exact hyes ‹_›
  · exact hno ‹_›

/-- A decision that does not touch the state. -/
theorem lift {x : Except Fault α} (h : ∀ a, x = .ok a → good a) :
    Agrees c protect m m' (liftM x : Attempt Fault Mmu α) good := by
  cases x with
  | ok a => exact .pure (h a rfl)
  | error fault => exact .throw fault

theorem bind {first : Attempt Fault Mmu α} {rest : α → Attempt Fault Mmu β} {good' : β → Prop}
    (hfirst : Agrees c protect m m' first good)
    (hrest : ∀ a, good a → Agrees c protect m m' (rest a) good') :
    Agrees c protect m m' (first >>= rest) good' := by
  intro mmu mmu' halike
  obtain ⟨hresult, hgood, halike'⟩ := hfirst mmu mmu' halike
  rw [Attempt.bind_run, Attempt.bind_run]
  rcases hf : first mmu with ⟨fault | a, mmu₁⟩
  all_goals
    rcases hf' : first mmu' with ⟨fault' | a', mmu₁'⟩
    all_goals rw [hf, hf'] at hresult halike'
  · cases hresult
    refine ⟨rfl, ?_, halike'⟩
    rintro b ⟨⟩
  · -- One run cannot fail where the other goes on.
    cases hresult
  · cases hresult
  · cases hresult
    exact hrest a (hgood a (by rw [hf])) mmu₁ mmu₁' halike'

/-! ### Each part -/

/-- Translations lead to pages that an access may go to, and keep the place in the page. -/
theorem translate (compared : Compared c protect m m') (address : Word) (access : Access) :
    Agrees c protect m m' (Mmu.translate c address access) fun physical =>
      Reachable c protect m m' (Paging.pageOf physical) ∧
        Paging.offsetOf physical = Paging.offsetOf address := by
  intro mmu mmu' halike
  obtain ⟨hresult, huntouched, journal, hmemory⟩ :=
    halike.left.translate compared.left compared.paging address access
  obtain ⟨hresult', huntouched', journal', hmemory'⟩ :=
    halike.right.translate compared.right compared.paging address access
  have hwalk := Paging.walk_congr (compared.trails address) access
  refine ⟨hresult'.trans (hwalk.trans hresult.symm), fun physical hok => ?_, ?_⟩
  · rw [hresult] at hok
    obtain ⟨hframe, hoffset⟩ := Paging.walk_userFrame compared.user hok
    rw [← hwalk] at hok
    obtain ⟨hframe', -⟩ := Paging.walk_userFrame compared.user hok
    exact ⟨⟨compared.left.not_offLimits hframe, compared.right.not_offLimits hframe'⟩, hoffset⟩
  · refine ⟨?_, huntouched, huntouched'⟩
    rw [hmemory, hmemory']
    exact halike.same.journals journal journal'

/-- Work on memory that gives the same where memories are alike, and keeps the pages off
limits. -/
theorem physically {work : Memory → Except Unmapped α × Memory}
    (same : ∀ n n', Memory.SameOn (fun page => ¬protect page) n n' →
      (work n').1 = (work n).1 ∧ Memory.SameOn (fun page => ¬protect page) (work n).2 (work n').2)
    (left : ∀ n, Memory.Keeps (OffLimits c protect m) n (work n).2)
    (right : ∀ n, Memory.Keeps (OffLimits c protect m') n (work n).2) :
    Agrees c protect m m' (Mmu.physically work) fun _ => True := by
  intro mmu mmu' halike
  obtain ⟨hresult, hsame⟩ := same _ _ halike.same
  rw [physically_run, physically_run]
  refine ⟨congrArg (Except.mapError _) hresult, fun _ _ => trivial, hsame, ?_, ?_⟩
  · exact ⟨halike.left.kept.trans (left _), halike.left.cached⟩
  · exact ⟨halike.right.kept.trans (right _), halike.right.cached⟩

theorem read {w : Width} {physical : Word} (fits : InPage w physical)
    (reachable : Reachable c protect m m' (Paging.pageOf physical)) :
    Agrees c protect m m' (Mmu.physically (·.read w physical)) fun _ => True :=
  physically (fun _ _ h => h.read fits reachable.not_protected)
    (fun n => Memory.keeps_read _ n w physical) (fun n => Memory.keeps_read _ n w physical)

theorem write {w : Width} {physical : Word} (fits : InPage w physical)
    (reachable : Reachable c protect m m' (Paging.pageOf physical)) (value : BitVec w.bits) :
    Agrees c protect m m' (Mmu.physically (·.write w physical value)) fun _ => True :=
  physically (fun _ _ h => h.write w physical value)
    (fun n => Memory.keeps_write fits reachable.1 n value)
    (fun n => Memory.keeps_write fits reachable.2 n value)

theorem reserve (hart : Nat) (physical : Word) :
    Agrees c protect m m' (Mmu.physically fun n => (.ok (), n.reserve hart physical))
      fun _ => True :=
  physically (fun _ _ h => ⟨rfl, h.reserve hart physical⟩)
    (fun n => Memory.keeps_reserve _ n hart physical)
    (fun n => Memory.keeps_reserve _ n hart physical)

theorem release (hart : Nat) (physical : Word) :
    Agrees c protect m m' (Mmu.physically fun n =>
      let (held, n) := n.takeReservation hart physical
      (.ok held, n)) fun _ => True :=
  physically
    (fun _ _ h => ⟨congrArg Except.ok (h.takeReservation hart physical).1,
      (h.takeReservation hart physical).2⟩)
    (fun n => Memory.keeps_takeReservation _ n hart physical)
    (fun n => Memory.keeps_takeReservation _ n hart physical)

/-! ### Accesses -/

variable (compared : Compared c protect m m')
include compared

/-- Work on an access that does not leave its page, once it is translated. -/
theorem afterTranslate {w : Width} {address : Word} (fits : InPage w address) (access : Access)
    {rest : Word → Attempt Fault Mmu α}
    (hrest : ∀ physical, InPage w physical →
      Reachable c protect m m' (Paging.pageOf physical) →
      Agrees c protect m m' (rest physical) good) :
    Agrees c protect m m' (Mmu.translate c address access >>= rest) good := by
  refine .bind (.translate compared address access) fun physical hphysical => ?_
  obtain ⟨hreachable, hoffset⟩ := hphysical
  refine hrest physical ?_ hreachable
  rw [InPage, hoffset]
  exact fits

theorem readBytes (n : Nat) (address : Word) :
    Agrees c protect m m' (Mmu.readBytes c address n) fun _ => True := by
  induction n generalizing address with
  | zero => exact .pure trivial
  | succ n ih =>
      refine .afterTranslate compared (inPage_byte address) .read fun physical fits hreachable => ?_
      refine .bind (.read fits hreachable) fun byte _ => ?_
      exact .bind (ih (address + 1)) fun rest _ => .pure trivial

theorem load (w : Width) (address : Word) :
    Agrees c protect m m' (Mmu.read c w address) fun _ => True := by
  refine .bind (.lift fun _ h => h) fun one hone => .ite (fun htrue => ?_) fun _ => ?_
  · rw [htrue] at hone
    exact .afterTranslate compared (inPage_of_inOnePiece hone) .read fun _ fits hreachable =>
      .read fits hreachable
  · exact .bind (.readBytes compared w.bytes address) fun _ _ => .pure trivial

/-- All bytes are on pages that an access may go to. -/
theorem translateBytes (n : Nat) (address : Word) :
    Agrees c protect m m' (Mmu.translateBytes c address n) fun bytes =>
      ∀ physical ∈ bytes, Reachable c protect m m' (Paging.pageOf physical) := by
  induction n generalizing address with
  | zero => exact .pure fun _ h => absurd h List.not_mem_nil
  | succ n ih =>
      refine .bind (.translate compared address .write) fun physical hphysical => ?_
      refine .bind (ih (address + 1)) fun rest hrest => .pure ?_
      intro byte hbyte
      rcases List.mem_cons.mp hbyte with rfl | hin
      · exact hphysical.1
      · exact hrest byte hin

omit compared in
theorem writeBytes (bytes : List (Word × Byte))
    (reachable : ∀ e ∈ bytes, Reachable c protect m m' (Paging.pageOf e.1)) :
    Agrees c protect m m' (Mmu.writeBytes bytes) fun _ => True := by
  induction bytes with
  | nil => exact .pure trivial
  | cons e rest ih =>
      have hfirst := reachable e List.mem_cons_self
      refine .bind (.write (inPage_byte e.1) hfirst e.2) fun _ _ => ?_
      exact ih fun e he => reachable e (List.mem_cons_of_mem _ he)

theorem store (w : Width) (address : Word) (value : BitVec w.bits) :
    Agrees c protect m m' (Mmu.write c w address value) fun _ => True := by
  refine .bind (.lift fun _ h => h) fun one hone => .ite (fun htrue => ?_) fun _ => ?_
  · rw [htrue] at hone
    exact .afterTranslate compared (inPage_of_inOnePiece hone) .write fun _ fits hreachable =>
      .write fits hreachable value
  · refine .bind (.translateBytes compared w.bytes address) fun bytes hbytes => ?_
    exact .writeBytes _ fun e he => hbytes e.1 (List.of_mem_zip he).1

theorem fetchParcel (address : Word) :
    Agrees c protect m m' (Mmu.fetchParcel c address) fun _ => True := by
  refine .ite (fun _ => .throw .misaligned) fun hadmits => ?_
  have haligned : Alignment.half.admits address = true := by simpa using hadmits
  have hfits : InPage .half address := inPage_of_admits haligned
  exact .afterTranslate compared hfits .execute fun _ fits hreachable => .read fits hreachable

/-- Work on an atomic access, once it is translated. -/
theorem afterAtomicAddress (address : Word) (access : Access)
    {rest : Word → Attempt Fault Mmu α}
    (hrest : ∀ physical, InPage .word physical →
      Reachable c protect m m' (Paging.pageOf physical) →
      Agrees c protect m m' (rest physical) good) :
    Agrees c protect m m' (Mmu.atomicAddress c address access >>= rest) good := by
  unfold Mmu.atomicAddress
  cases hadmits : Alignment.word.admits address with
  | false => exact .throw .misaligned
  | true =>
      have hfits : InPage .word address := inPage_of_admits hadmits
      exact .afterTranslate compared hfits access hrest

theorem loadReserved (address : Word) :
    Agrees c protect m m' (Mmu.loadReserved c address) fun _ => True := by
  refine .afterAtomicAddress compared address .read fun physical fits hreachable => ?_
  refine .bind (.read fits hreachable) fun value _ => ?_
  exact .bind (.reserve c.hart physical) fun _ _ => .pure trivial

theorem storeConditional (address value : Word) :
    Agrees c protect m m' (Mmu.storeConditional c address value) fun _ => True := by
  refine .afterAtomicAddress compared address .write fun physical fits hreachable => ?_
  refine .bind (.release c.hart physical) fun held _ => .ite (fun _ => ?_) fun _ => .pure trivial
  exact .bind (.write fits hreachable value) fun _ _ => .pure trivial

theorem update (address : Word) (f : Word → Word) :
    Agrees c protect m m' (Mmu.update c address f) fun _ => True := by
  refine .afterAtomicAddress compared address .write fun physical fits hreachable => ?_
  refine .bind (.read fits hreachable) fun old _ => ?_
  exact .bind (.write fits hreachable (f old)) fun _ _ => .pure trivial

end Agrees
end Rv32.Mmu
