/-
# `Rv32.Proofs.Paging.Sv32` — a walk is the one that Sv32 prescribes

Sv32 prescribes how an address is translated: as a loop over the levels of the page table, in
which addresses are numbers and physical ones may have 34 bits.  `Sv32.walk` is that loop, with
the steps in the order in which they are prescribed.  Steps that are about the marks for pages
that were accessed or written are left out.

A walk does the same as the loop, to the memory too (`walk_eq`).  What the loop answers is then
told without an order of steps: by the words that it has to read (`Visits`), the entries that it
finds there (`Finds`), and what makes an entry unfit for an access (`Refuses`).
-/
import Mathlib.Algebra.Group.Nat.Defs
import Rv32.Proofs.Paging.Table

namespace Rv32
namespace Sv32

/-! ## The algorithm -/

/-- The fields of an entry of a page table that translation looks at. -/
structure Entry where
  v : Bool
  r : Bool
  w : Bool
  x : Bool
  u : Bool
  ppn : Nat

namespace Entry

def ofNat (n : Nat) : Entry :=
  ⟨n.testBit 0, n.testBit 1, n.testBit 2, n.testBit 3, n.testBit 4, n / 2 ^ 10⟩

/-- Whether the entry maps a page, if it is valid. -/
def leaf (pte : Entry) : Bool := pte.r || pte.x

def grants (pte : Entry) (access : Access) (mxr : Bool) : Bool :=
  match access with
  | .read => pte.r || (mxr && pte.x)
  | .write => pte.w
  | .execute => pte.x

end Entry

/-- A leaf allows an access that it grants, in user mode if the page is one of user mode, and in
supervisor mode if it is not; or if the supervisor was given the pages of user mode, to read and
to write. -/
structure Permits (c : AccessContext) (access : Access) (pte : Entry) : Prop where
  granted : pte.grants access c.mxr = true
  user : c.privilege = .user → pte.u = true
  supervisor : c.privilege = .supervisor → pte.u = true → c.sum = true ∧ access ≠ .execute

instance (c : AccessContext) (access : Access) (pte : Entry) :
    Decidable (Permits c access pte) :=
  decidable_of_iff
    (pte.grants access c.mxr = true ∧ (c.privilege = .user → pte.u = true) ∧
      (c.privilege = .supervisor → pte.u = true → c.sum = true ∧ access ≠ .execute))
    ⟨fun h => ⟨h.1, h.2.1, h.2.2⟩, fun h => ⟨h.granted, h.user, h.supervisor⟩⟩

/-- The part of an address that selects the entry at a level. -/
def vpn (address : Word) (level : Nat) : Nat := address.toNat / 2 ^ (12 + 10 * level) % 2 ^ 10

/-- Where the entry of an address is in a table. -/
def slot (address : Word) (level table : Nat) : Nat := table + vpn address level * 4

/-- The address that a leaf at a level gives.  Pages of a higher level are large, and the page
number of the leaf is then completed from the address. -/
def physical (address : Word) (level : Nat) (pte : Entry) : Nat :=
  (pte.ppn / 2 ^ (10 * level) * 2 ^ (10 * level) + address.toNat / 2 ^ 12 % 2 ^ (10 * level)) *
    2 ^ 12 + address.toNat % 2 ^ 12

/-- Reads an entry.  Of the 34 bits of its address memory knows 32. -/
def fetch (address : Nat) : Attempt Fault Memory Entry := fun m =>
  match m.read .word (BitVec.ofNat 32 address) with
  | (.ok bits, m) => (.ok (Entry.ofNat bits.toNat), m)
  | (.error _, m) => (.error .access, m)

/-- The loop, from a level and the table of that level on. -/
def walkFrom (c : AccessContext) (address : Word) (access : Access) (level table : Nat) :
    Attempt Fault Memory Word := do
  let pte ← fetch (slot address level table)
  -- To be writable and not readable is reserved for a later use.
  if pte.v = false ∨ pte.r = false ∧ pte.w = true then
    throw .page
  else if pte.leaf then
    if ¬Permits c access pte then
      throw .page
    else if 0 < level ∧ pte.ppn % 2 ^ (10 * level) ≠ 0 then
      throw .page
    else
      return BitVec.ofNat 32 (physical address level pte)
  else
    -- The entry points to a table, which the last level has no use for.
    match level with
    | 0 => throw .page
    | level + 1 => walkFrom c address access level (pte.ppn * 2 ^ 12)

/-- The table of the first of two levels. -/
def root (c : AccessContext) : Nat := c.satp.toNat % 2 ^ 22 * 2 ^ 12

def walk (c : AccessContext) (address : Word) (access : Access) : Attempt Fault Memory Word :=
  walkFrom c address access 1 (root c)

/-! ## What it answers -/

section
variable (c : AccessContext) (address : Word) (m : Memory)

/-- At a level, and in the memory that the reads before have left behind, a translation comes to
the table at a certain place, and has to read the entry of the address there. -/
inductive Visits : Nat → Nat → Memory → Prop
  | root : Visits 1 (root c) m
  | next {level table : Nat} {n n' : Memory} {pte : Entry} : Visits (level + 1) table n →
      fetch (slot address (level + 1) table) n = (.ok pte, n') →
      pte.v = true → pte.r = false → pte.w = false → pte.x = false →
      Visits level (pte.ppn * 2 ^ 12) n'

/-- A word that the translation has to read is not there. -/
def Misses : Prop :=
  ∃ level table n, Visits c address m level table n ∧
    n.route (BitVec.ofNat 32 (slot address level table)) = none

/-- An entry that the translation visits at a level. -/
def Finds (level : Nat) (pte : Entry) : Prop :=
  ∃ table n n', Visits c address m level table n ∧
    fetch (slot address level table) n = (.ok pte, n')

end

/-- An entry at a level is unfit for an access. -/
inductive Refuses (c : AccessContext) (access : Access) (level : Nat) (pte : Entry) : Prop
  | invalid : pte.v = false → Refuses c access level pte
  | reserved : pte.r = false → pte.w = true → Refuses c access level pte
  /-- There are no tables below the last level. -/
  | table : level = 0 → pte.leaf = false → Refuses c access level pte
  /-- A large page does not begin at a multiple of its size. -/
  | misaligned : pte.leaf = true → pte.ppn % 2 ^ (10 * level) ≠ 0 → Refuses c access level pte
  | forbidden : pte.leaf = true → ¬Permits c access pte → Refuses c access level pte

/-- What a translation is to answer. -/
structure Answers (c : AccessContext) (address : Word) (access : Access) (m : Memory)
    (answer : Except Fault Word) : Prop where
  accessFault : answer = .error .access ↔ Misses c address m
  pageFault : answer = .error .page ↔
    ¬Misses c address m ∧ ∃ level pte, Finds c address m level pte ∧ Refuses c access level pte
  /-- Otherwise the leaf that is found gives the page number, but for the lower part of the number
  of a large page, and the address gives the rest. -/
  mapped : ¬Misses c address m →
    (∀ level pte, Finds c address m level pte → ¬Refuses c access level pte) →
    ∃ level pte result, Finds c address m level pte ∧ pte.leaf = true ∧ answer = .ok result ∧
      result.toNat / 2 ^ 22 = pte.ppn / 2 ^ 10 % 2 ^ 10 ∧
      result.toNat / 2 ^ 12 % 2 ^ 10 = (if level = 0 then pte.ppn % 2 ^ 10 else vpn address 0) ∧
      result.toNat % 2 ^ 12 = address.toNat % 2 ^ 12

/-! ## One entry -/

section
variable {c : AccessContext} {address : Word} {access : Access} {level table : Nat}
  {m m' : Memory} {pte : Entry}

theorem fetch_missing {a : Nat} (missing : m.route (BitVec.ofNat 32 a) = none) :
    fetch a m = (.error .access, m) := by
  rw [fetch, Memory.read, missing]

/-- What is there can be read. -/
theorem exists_fetch {a : Nat} (there : m.route (BitVec.ofNat 32 a) ≠ none) :
    ∃ pte m', fetch a m = (.ok pte, m') := by
  obtain ⟨index, route⟩ := Option.ne_none_iff_exists'.1 there
  rw [fetch, Memory.read, route]
  exact ⟨_, _, rfl⟩

theorem walkFrom_failed {fault : Fault}
    (failed : fetch (slot address level table) m = (.error fault, m')) :
    walkFrom c address access level table m = (.error fault, m') := by
  rw [walkFrom, Attempt.bind_run, failed]

theorem walkFrom_refused (fetched : fetch (slot address level table) m = (.ok pte, m'))
    (refused : Refuses c access level pte) :
    walkFrom c address access level table m = (.error .page, m') := by
  rw [walkFrom, Attempt.bind_run, fetched]
  dsimp only
  by_cases invalid : pte.v = false ∨ pte.r = false ∧ pte.w = true
  · rw [if_pos invalid]
    rfl
  · rw [if_neg invalid]
    cases refused with
    | invalid v => exact absurd (.inl v) invalid
    | reserved r w => exact absurd (.inr ⟨r, w⟩) invalid
    | table last pointer =>
        subst last
        rw [if_neg (ne_true_of_eq_false pointer)]
        rfl
    | misaligned leaf low =>
        have hlevel : 0 < level := by
          refine Nat.pos_of_ne_zero ?_
          rintro rfl
          exact low (Nat.mod_one _)
        rw [if_pos leaf]
        by_cases permits : Permits c access pte
        · rw [if_neg (fun h => h permits), if_pos ⟨hlevel, low⟩]
          rfl
        · rw [if_pos permits]
          rfl
    | forbidden leaf forbidden =>
        rw [if_pos leaf, if_pos forbidden]
        rfl

/-- An entry that is not refused is valid. -/
theorem valid_of_not_refuses (fit : ¬Refuses c access level pte) :
    ¬(pte.v = false ∨ pte.r = false ∧ pte.w = true) := by
  rintro (v | ⟨r, w⟩)
  · exact fit (.invalid v)
  · exact fit (.reserved r w)

theorem walkFrom_leaf (fetched : fetch (slot address level table) m = (.ok pte, m'))
    (fit : ¬Refuses c access level pte) (leaf : pte.leaf = true) :
    walkFrom c address access level table m =
      (.ok (BitVec.ofNat 32 (physical address level pte)), m') := by
  have hpermits : ¬¬Permits c access pte := fun h => fit (.forbidden leaf h)
  have haligned : ¬(0 < level ∧ pte.ppn % 2 ^ (10 * level) ≠ 0) :=
    fun h => fit (.misaligned leaf h.2)
  rw [walkFrom, Attempt.bind_run, fetched]
  dsimp only
  rw [if_neg (valid_of_not_refuses fit), if_pos leaf, if_neg hpermits, if_neg haligned]
  rfl

theorem walkFrom_table (fetched : fetch (slot address (level + 1) table) m = (.ok pte, m'))
    (fit : ¬Refuses c access (level + 1) pte) (pointer : pte.leaf = false) :
    walkFrom c address access (level + 1) table m =
      walkFrom c address access level (pte.ppn * 2 ^ 12) m' := by
  rw [walkFrom, Attempt.bind_run, fetched]
  dsimp only
  rw [if_neg (valid_of_not_refuses fit), if_neg (ne_true_of_eq_false pointer)]

/-! ## The way through the table -/

/-- A valid entry that grants nothing is fit to point to the next table. -/
theorem not_refuses_of_table (v : pte.v = true) (w : pte.w = false) (pointer : pte.leaf = false) :
    ¬Refuses c access (level + 1) pte := by
  intro refused
  cases refused with
  | invalid h => exact absurd (v.symm.trans h) Bool.noConfusion
  | reserved _ h => exact absurd (w.symm.trans h) Bool.noConfusion
  | table last _ => exact absurd last (Nat.succ_ne_zero level)
  | misaligned leaf _ => exact absurd (pointer.symm.trans leaf) Bool.noConfusion
  | forbidden leaf _ => exact absurd (pointer.symm.trans leaf) Bool.noConfusion

/-- From wherever it has come to, a translation goes on to the same end. -/
theorem walk_of_visits {n : Memory} (visits : Visits c address m level table n) :
    walk c address access m = walkFrom c address access level table n := by
  induction visits with
  | root => rfl
  | @next level table n n' pte _ fetched v r w x ih =>
      have hpointer : pte.leaf = false := by
        rw [Entry.leaf, r, x]
        rfl
      rw [ih]
      exact walkFrom_table fetched (not_refuses_of_table v w hpointer) hpointer

/-- A translation ends where a word is missing, at an entry that is unfit, or at a leaf that is
fit. -/
inductive Ends (c : AccessContext) (address : Word) (access : Access) (m : Memory) : Prop
  | missing : Misses c address m → Ends c address access m
  | refused {level : Nat} {pte : Entry} : Finds c address m level pte →
      Refuses c access level pte → Ends c address access m
  | leaf {level : Nat} {pte : Entry} : Finds c address m level pte →
      ¬Refuses c access level pte → pte.leaf = true → Ends c address access m

/-- Wherever it has come to, a translation ends or goes on to the next level. -/
theorem ends_or_visits {n : Memory} (visits : Visits c address m level table n) :
    Ends c address access m ∨
      ∃ below table' n', level = below + 1 ∧ Visits c address m below table' n' := by
  by_cases missing : n.route (BitVec.ofNat 32 (slot address level table)) = none
  · exact .inl (.missing ⟨level, table, n, visits, missing⟩)
  · obtain ⟨pte, n', fetched⟩ := exists_fetch missing
    have hfinds : Finds c address m level pte := ⟨table, n, n', visits, fetched⟩
    by_cases refused : Refuses c access level pte
    · exact .inl (.refused hfinds refused)
    · cases leaf : pte.leaf with
      | true => exact .inl (.leaf hfinds refused leaf)
      | false =>
          cases level with
          | zero => exact absurd (.table rfl leaf) refused
          | succ below =>
              obtain ⟨r, x⟩ := Bool.or_eq_false_iff.1 leaf
              have hvalid := valid_of_not_refuses refused
              have hv : pte.v = true := eq_true_of_ne_false fun v => hvalid (.inl v)
              have hw : pte.w = false := eq_false_of_ne_true fun w => hvalid (.inr ⟨r, w⟩)
              exact .inr ⟨below, _, n', rfl, .next visits fetched hv r hw x⟩

theorem ends_of_visits {n : Memory} (visits : Visits c address m level table n) :
    Ends c address access m := by
  induction level generalizing table n with
  | zero =>
      rcases ends_or_visits visits with ends | ⟨below, -, -, level, -⟩
      · exact ends
      · exact absurd level.symm (Nat.succ_ne_zero below)
  | succ level ih =>
      rcases ends_or_visits visits with ends | ⟨below, table', n', same, next⟩
      · exact ends
      · obtain rfl := Nat.succ.inj same
        exact ih next

/-! ## The answer -/

theorem walk_of_misses (misses : Misses c address m) :
    (walk c address access m).1 = .error .access := by
  obtain ⟨level, table, n, visits, missing⟩ := misses
  rw [walk_of_visits visits, walkFrom_failed (fetch_missing missing)]

theorem walk_of_refuses (finds : Finds c address m level pte)
    (refused : Refuses c access level pte) :
    (walk c address access m).1 = .error .page := by
  obtain ⟨table, n, n', visits, fetched⟩ := finds
  rw [walk_of_visits visits, walkFrom_refused fetched refused]

theorem walk_of_leaf (finds : Finds c address m level pte)
    (fit : ¬Refuses c access level pte) (leaf : pte.leaf = true) :
    (walk c address access m).1 = .ok (BitVec.ofNat 32 (physical address level pte)) := by
  obtain ⟨table, n, n', visits, fetched⟩ := finds
  rw [walk_of_visits visits, walkFrom_leaf fetched fit leaf]

/-- There are two levels. -/
theorem level_le_of_visits {n : Memory} (visits : Visits c address m level table n) :
    level ≤ 1 := by
  induction visits with
  | root => exact Nat.le_refl 1
  | next _ _ _ _ _ _ ih => exact Nat.le_of_succ_le ih

/-- The parts of the address that a leaf gives. -/
theorem toNat_physical (level_le : level ≤ 1) :
    let result := BitVec.ofNat 32 (physical address level pte)
    result.toNat / 2 ^ 22 = pte.ppn / 2 ^ 10 % 2 ^ 10 ∧
      result.toNat / 2 ^ 12 % 2 ^ 10 = (if level = 0 then pte.ppn % 2 ^ 10 else vpn address 0) ∧
      result.toNat % 2 ^ 12 = address.toNat % 2 ^ 12 := by
  intro result
  have haddress := address.isLt
  obtain rfl | rfl : level = 0 ∨ level = 1 := by omega
  · have hresult : result.toNat = (pte.ppn * 2 ^ 12 + address.toNat % 2 ^ 12) % 2 ^ 32 := by
      show (BitVec.ofNat 32 (physical address 0 pte)).toNat = _
      rw [BitVec.toNat_ofNat, physical, Nat.mul_zero, Nat.pow_zero, Nat.mod_one, Nat.div_one,
        Nat.mul_one, Nat.add_zero]
    rw [hresult, if_pos rfl]
    omega
  · have hresult : result.toNat =
        ((pte.ppn / 2 ^ 10 * 2 ^ 10 + vpn address 0) * 2 ^ 12 + address.toNat % 2 ^ 12) %
          2 ^ 32 := by
      exact BitVec.toNat_ofNat _ _
    rw [hresult, if_neg Nat.one_ne_zero, vpn]
    omega

/-- The loop answers as it is to. -/
theorem walk_answers (c : AccessContext) (address : Word) (access : Access) (m : Memory) :
    Answers c address access m (walk c address access m).1 where
  accessFault := by
    refine ⟨fun answer => ?_, walk_of_misses⟩
    cases (ends_of_visits .root : Ends c address access m) with
    | missing misses => exact misses
    | refused finds refused =>
        rw [walk_of_refuses finds refused] at answer
        cases answer
    | leaf finds fit leaf =>
        rw [walk_of_leaf finds fit leaf] at answer
        cases answer
  pageFault := by
    constructor
    · intro answer
      have hthere : ¬Misses c address m := by
        intro misses
        rw [walk_of_misses misses] at answer
        cases answer
      cases (ends_of_visits .root : Ends c address access m) with
      | missing misses => exact absurd misses hthere
      | refused finds refused => exact ⟨hthere, _, _, finds, refused⟩
      | leaf finds fit leaf =>
          rw [walk_of_leaf finds fit leaf] at answer
          cases answer
    · rintro ⟨-, level, pte, finds, refused⟩
      exact walk_of_refuses finds refused
  mapped there fit := by
    cases (ends_of_visits .root : Ends c address access m) with
    | missing misses => exact absurd misses there
    | refused finds refused => exact absurd refused (fit _ _ finds)
    | @leaf level pte finds fit leaf =>
        obtain ⟨table, n, n', visits, -⟩ := id finds
        exact ⟨level, pte, _, finds, leaf, walk_of_leaf finds fit leaf,
          toNat_physical (level_le_of_visits visits)⟩

end
end Sv32

/-! ## The walk -/

namespace Paging

theorem toNat_append {n k : Nat} (high : BitVec n) (low : BitVec k) :
    (high ++ low).toNat = high.toNat * 2 ^ k + low.toNat := by
  rw [BitVec.toNat_append, ← Nat.shiftLeft_add_eq_or_of_lt low.isLt, Nat.shiftLeft_eq]

theorem entryAddress_eq (table : BitVec 22) (index : BitVec 10) :
    entryAddress table index = BitVec.ofNat 32 (table.toNat * 2 ^ 12 + index.toNat * 4) := by
  apply BitVec.eq_of_toNat_eq
  have hindex := index.isLt
  rw [toNat_entryAddress, BitVec.toNat_setWidth, BitVec.toNat_ofNat]
  omega

theorem toNat_firstIndex (address : Word) : (firstIndex address).toNat = Sv32.vpn address 1 := by
  rw [firstIndex, BitVec.extractLsb'_toNat, Nat.shiftRight_eq_div_pow]
  rfl

theorem toNat_secondIndex (address : Word) :
    (secondIndex address).toNat = Sv32.vpn address 0 := by
  rw [secondIndex, BitVec.extractLsb'_toNat, Nat.shiftRight_eq_div_pow]
  rfl

/-- The fields of an entry. -/
def fields (e : PageEntry) : Sv32.Entry := Sv32.Entry.ofNat e.bits.toNat

theorem toNat_target (e : PageEntry) : e.target.toNat = (fields e).ppn := by
  have h := e.bits.isLt
  show e.target.toNat = e.bits.toNat / 2 ^ 10
  rw [PageEntry.target, BitVec.extractLsb'_toNat, Nat.shiftRight_eq_div_pow]
  omega

theorem toNat_targetLow (e : PageEntry) : e.targetLow.toNat = (fields e).ppn % 2 ^ 10 := by
  show e.targetLow.toNat = e.bits.toNat / 2 ^ 10 % 2 ^ 10
  rw [PageEntry.targetLow, BitVec.extractLsb'_toNat, Nat.shiftRight_eq_div_pow]

theorem toNat_targetHigh (e : PageEntry) :
    e.targetHigh.toNat = (fields e).ppn / 2 ^ 10 % 2 ^ 10 := by
  show e.targetHigh.toNat = e.bits.toNat / 2 ^ 10 / 2 ^ 10 % 2 ^ 10
  rw [PageEntry.targetHigh, BitVec.extractLsb'_toNat, Nat.shiftRight_eq_div_pow]
  omega

/-- The loop reads the entry at an address as a walk does. -/
theorem fetch_eq (a : Nat) (m : Memory) :
    Sv32.fetch a m =
      match readEntry (BitVec.ofNat 32 a) m with
      | (.ok e, m) => (.ok (fields e), m)
      | (.error fault, m) => (.error fault, m) := by
  rw [Sv32.fetch, readEntry]
  rcases m.read .word (BitVec.ofNat 32 a) with ⟨missing | bits, m'⟩ <;> rfl

theorem owns_iff (c : AccessContext) (user : Bool) (access : Access) :
    c.owns user access = true ↔
      (c.privilege = .user → user = true) ∧
        (c.privilege = .supervisor → user = true → c.sum = true ∧ access ≠ .execute) := by
  rw [AccessContext.owns]
  cases c.privilege with
  | user => simp
  | supervisor => cases user <;> simp
  | machine => simp

/-- An entry allows an access if it is not reserved and permits it. -/
theorem allows_iff (c : AccessContext) (e : PageEntry) (access : Access) :
    c.allows e access = true ↔
      ¬((fields e).r = false ∧ (fields e).w = true) ∧ Sv32.Permits c access (fields e) := by
  have hreserved : (!(e.writable && !e.readable)) = true ↔
      ¬((fields e).r = false ∧ (fields e).w = true) := by
    show _ ↔ ¬(e.readable = false ∧ e.writable = true)
    cases e.readable <;> cases e.writable <;> decide
  have hgrants : (fields e).grants access c.mxr = e.grants access c.mxr := by
    cases access <;> rfl
  rw [AccessContext.allows, Bool.and_eq_true, Bool.and_eq_true, hreserved, owns_iff, ← hgrants]
  constructor
  · rintro ⟨⟨unreserved, granted⟩, user, supervisor⟩
    exact ⟨unreserved, granted, user, supervisor⟩
  · rintro ⟨unreserved, granted, user, supervisor⟩
    exact ⟨⟨unreserved, granted⟩, user, supervisor⟩

/-- What a walk takes for a leaf is one, or is reserved. -/
theorem isLeaf_iff (e : PageEntry) :
    e.isLeaf = true ↔ (fields e).r = false ∧ (fields e).w = true ∨ (fields e).leaf = true := by
  show _ ↔ e.readable = false ∧ e.writable = true ∨ (e.readable || e.executable) = true
  rw [PageEntry.isLeaf]
  cases e.readable <;> cases e.writable <;> cases e.executable <;> decide

/-- What makes an entry unfit, as a walk finds it out. -/
theorem refuses_iff (c : AccessContext) (access : Access) (level : Nat) (e : PageEntry) :
    Sv32.Refuses c access level (fields e) ↔
      e.valid = false ∨ e.isLeaf = false ∧ level = 0 ∨
        e.isLeaf = true ∧ ((fields e).ppn % 2 ^ (10 * level) ≠ 0 ∨ c.allows e access = false) := by
  have hallows := allows_iff c e access
  have hisLeaf := isLeaf_iff e
  constructor
  · intro refused
    cases refused with
    | invalid v => exact .inl v
    | reserved r w =>
        have hforbidden : c.allows e access = false :=
          eq_false_of_ne_true fun allowed => (hallows.1 allowed).1 ⟨r, w⟩
        exact .inr (.inr ⟨hisLeaf.2 (.inl ⟨r, w⟩), .inr hforbidden⟩)
    | table last pointer =>
        cases leaf : e.isLeaf with
        | false => exact .inr (.inl ⟨rfl, last⟩)
        | true =>
            have hreserved := (hisLeaf.1 leaf).resolve_right (ne_true_of_eq_false pointer)
            have hforbidden : c.allows e access = false :=
              eq_false_of_ne_true fun allowed => (hallows.1 allowed).1 hreserved
            exact .inr (.inr ⟨rfl, .inr hforbidden⟩)
    | misaligned leaf low => exact .inr (.inr ⟨hisLeaf.2 (.inr leaf), .inl low⟩)
    | forbidden leaf forbidden =>
        have hforbidden : c.allows e access = false :=
          eq_false_of_ne_true fun allowed => forbidden (hallows.1 allowed).2
        exact .inr (.inr ⟨hisLeaf.2 (.inr leaf), .inr hforbidden⟩)
  · rintro (v | ⟨table, last⟩ | ⟨leaf, unfit⟩)
    · exact .invalid v
    · refine .table last (eq_false_of_ne_true fun leaf => ?_)
      exact ne_true_of_eq_false table (hisLeaf.2 (.inr leaf))
    · rcases hisLeaf.1 leaf with ⟨r, w⟩ | leaf
      · exact .reserved r w
      · by_cases reserved : (fields e).r = false ∧ (fields e).w = true
        · exact .reserved reserved.1 reserved.2
        · rcases unfit with low | forbidden
          · exact .misaligned leaf low
          · refine .forbidden leaf fun permits => ?_
            exact ne_true_of_eq_false forbidden (hallows.2 ⟨reserved, permits⟩)

/-- A fit entry is a leaf that is allowed, or a table. -/
theorem leaf_or_table {c : AccessContext} {access : Access} {level : Nat} {e : PageEntry}
    (fit : ¬Sv32.Refuses c access level (fields e)) :
    e.valid = true ∧
      (e.isLeaf = true ∧ (fields e).leaf = true ∧ (fields e).ppn % 2 ^ (10 * level) = 0 ∧
          c.allows e access = true ∨
        e.isLeaf = false ∧ (fields e).leaf = false ∧ level ≠ 0) := by
  rw [refuses_iff, not_or, not_or] at fit
  obtain ⟨hvalid, htable, hleaf⟩ := fit
  refine ⟨eq_true_of_ne_false hvalid, ?_⟩
  cases isLeaf : e.isLeaf with
  | false =>
      have hpointer : (fields e).leaf = false := by
        refine eq_false_of_ne_true fun leaf => ?_
        exact ne_true_of_eq_false isLeaf ((isLeaf_iff e).2 (.inr leaf))
      exact .inr ⟨rfl, hpointer, fun last => htable ⟨isLeaf, last⟩⟩
  | true =>
      have hlow : (fields e).ppn % 2 ^ (10 * level) = 0 :=
        Decidable.not_not.1 fun low => hleaf ⟨isLeaf, .inl low⟩
      have hallows : c.allows e access = true :=
        eq_true_of_ne_false fun forbidden => hleaf ⟨isLeaf, .inr forbidden⟩
      have hunreserved := ((allows_iff c e access).1 hallows).1
      have hfields := ((isLeaf_iff e).1 isLeaf).resolve_left hunreserved
      exact .inl ⟨rfl, hfields, hlow, hallows⟩

/-- The address that a walk gives for a leaf of the last level. -/
theorem join_small (address : Word) (e : PageEntry) :
    join (e.targetHigh ++ e.targetLow) (offsetOf address) =
      BitVec.ofNat 32 (Sv32.physical address 0 (fields e)) := by
  apply BitVec.eq_of_toNat_eq
  rw [join, toNat_append, toNat_append, toNat_targetHigh, toNat_targetLow, toNat_offsetOf,
    BitVec.toNat_ofNat, Sv32.physical, pageSize]
  omega

/-- The address that a walk gives for a leaf of the first level. -/
theorem join_large (address : Word) (e : PageEntry) :
    join (e.targetHigh ++ secondIndex address) (offsetOf address) =
      BitVec.ofNat 32 (Sv32.physical address 1 (fields e)) := by
  apply BitVec.eq_of_toNat_eq
  rw [join, toNat_append, toNat_append, toNat_targetHigh, toNat_secondIndex, toNat_offsetOf,
    BitVec.toNat_ofNat, Sv32.physical, Sv32.vpn, pageSize]
  omega

/-- The entry of the last level is judged as the loop judges it. -/
theorem walk_second (c : AccessContext) (address : Word) (access : Access) (first : PageEntry)
    (m : Memory) :
    (do
      let second ← readEntry (entryAddress first.target (secondIndex address))
      if !second.valid || !second.isLeaf || !c.allows second access then
        throw .page
      else
        return join (second.targetHigh ++ second.targetLow) (offsetOf address) :
      Attempt Fault Memory Word) m =
    Sv32.walkFrom c address access 0 ((fields first).ppn * 2 ^ 12) m := by
  have hslot : entryAddress first.target (secondIndex address) =
      BitVec.ofNat 32 (Sv32.slot address 0 ((fields first).ppn * 2 ^ 12)) := by
    rw [entryAddress_eq, toNat_target, toNat_secondIndex, Sv32.slot]
  have hfetch := fetch_eq (Sv32.slot address 0 ((fields first).ppn * 2 ^ 12)) m
  rw [Attempt.bind_run, hslot]
  rcases hread : readEntry _ m with ⟨fault | second, m'⟩
  · rw [hread] at hfetch
    exact (Sv32.walkFrom_failed hfetch).symm
  · rw [hread] at hfetch
    have hrefuses := refuses_iff c access 0 second
    rw [Nat.mul_zero, Nat.pow_zero, Nat.mod_one] at hrefuses
    dsimp only
    by_cases refused : Sv32.Refuses c access 0 (fields second)
    · rw [Sv32.walkFrom_refused hfetch refused, if_pos]
      · rfl
      · rcases hrefuses.1 refused with v | ⟨table, -⟩ | ⟨-, low | forbidden⟩
        · rw [v]
          rfl
        · rw [table, Bool.not_false, Bool.or_true, Bool.true_or]
        · exact absurd rfl low
        · rw [forbidden, Bool.not_false, Bool.or_true]
    · obtain ⟨valid, ⟨isLeaf, leaf, -, allows⟩ | ⟨-, -, absent⟩⟩ := leaf_or_table refused
      · rw [Sv32.walkFrom_leaf hfetch refused leaf, valid, isLeaf, allows, ← join_small]
        rfl
      · exact absurd rfl absent

/-- A walk does what is prescribed, and leaves the same memory behind. -/
theorem walk_eq (c : AccessContext) (address : Word) (access : Access) :
    walk c address access = Sv32.walk c address access := by
  funext m
  have hslot : entryAddress c.root (firstIndex address) =
      BitVec.ofNat 32 (Sv32.slot address 1 (Sv32.root c)) := by
    rw [entryAddress_eq, toNat_firstIndex, AccessContext.root, BitVec.extractLsb'_toNat,
      Nat.shiftRight_zero]
    rfl
  have hfetch := fetch_eq (Sv32.slot address 1 (Sv32.root c)) m
  rw [walk, Attempt.bind_run, hslot, Sv32.walk]
  rcases hread : readEntry _ m with ⟨fault | first, m'⟩
  · rw [hread] at hfetch
    exact (Sv32.walkFrom_failed hfetch).symm
  · rw [hread] at hfetch
    dsimp only
    by_cases refused : Sv32.Refuses c access 1 (fields first)
    · rw [Sv32.walkFrom_refused hfetch refused]
      rcases (refuses_iff c access 1 first).1 refused with
        v | ⟨-, last⟩ | ⟨isLeaf, unfit⟩
      · rw [v]
        rfl
      · exact absurd last Nat.one_ne_zero
      · have hunfit : (first.targetLow ≠ 0 || !c.allows first access) = true := by
          rw [Bool.or_eq_true, decide_eq_true_iff, Bool.not_eq_true']
          refine unfit.imp_left fun low zero => low ?_
          rw [Nat.mul_one, ← toNat_targetLow, zero]
          rfl
        rw [isLeaf, hunfit]
        split <;> rfl
    · obtain ⟨valid, ⟨isLeaf, leaf, low, allows⟩ | ⟨isLeaf, pointer, -⟩⟩ :=
        leaf_or_table refused
      · have hlow : first.targetLow = 0 := by
          refine BitVec.eq_of_toNat_eq ?_
          rw [toNat_targetLow]
          exact low
        rw [Sv32.walkFrom_leaf hfetch refused leaf, valid, isLeaf, allows, hlow, ← join_large]
        rfl
      · rw [Sv32.walkFrom_table hfetch refused pointer, valid, isLeaf]
        exact walk_second c address access first m'

/-- What Sv32 prescribes is what a walk does, and so what it answers. -/
theorem walk_prescribed (c : AccessContext) (address : Word) (access : Access) (m : Memory) :
    walk c address access m = Sv32.walk c address access m ∧
      Sv32.Answers c address access m (walk c address access m).1 := by
  have hwalk : walk c address access m = Sv32.walk c address access m :=
    congrFun (walk_eq c address access) m
  refine ⟨hwalk, ?_⟩
  rw [hwalk]
  exact Sv32.walk_answers c address access m

end Paging
end Rv32
