/-
# `Rv32.Proofs.Checked.Basic` — operations that are not defined everywhere

What the machine computes is defined for all words.  A host computes it with operations
some of which are not: a sum may have no room, a word can only be shifted by so many
bits, an index may lie outside of what it is an index of.  Outside of its domain such an
operation panics, and with it everything it is part of.

`Checked` work may panic.  `CheckedAttempt` is the same for work on a state that may also
fail in the ordinary way, and `Safe` says that it does not panic and does what unchecked
work does, as long as an invariant holds of the state.  As for `Yields`, there is a rule
for each way of putting work together.
-/
import Mathlib.Algebra.Group.Int.Defs
import Mathlib.Algebra.Group.Nat.Defs
import Rv32.Privilege
import Rv32.Proofs.Attempt
import Rv32.Register.Basic

namespace Rv32

/-- Why an operation panics. -/
inductive Panic where
  | register (e : RegisterError)
  | privilege (e : PrivilegeError)
  /-- The result of an operation on numbers of a fixed width has no room. -/
  | overflow
  | shift (amount : Nat)
  | zeroDivisor
  | index (index size : Nat)
  /-- Bytes are copied between stretches of different lengths. -/
  | lengths (target source : Nat)
  /-- A case that cannot occur. -/
  | unreachable
deriving DecidableEq, Repr

/-- Work that may panic. -/
abbrev Checked (α : Type) : Type := Except Panic α

namespace Checked

variable {α β : Type}

/-! ## Partial operations -/

def sum (bits a b : Nat) : Checked Nat :=
  if a + b < 2 ^ bits then .ok (a + b) else .error .overflow

def difference (a b : Nat) : Checked Nat := if b ≤ a then .ok (a - b) else .error .overflow

def product (bits a b : Nat) : Checked Nat :=
  if a * b < 2 ^ bits then .ok (a * b) else .error .overflow

/-- The product of signed numbers. -/
def signedProduct (bits : Nat) (a b : Int) : Checked Int :=
  if -2 ^ (bits - 1) ≤ a * b ∧ a * b < 2 ^ (bits - 1) then .ok (a * b) else .error .overflow

def divisor (n : Nat) : Checked Nat := if n = 0 then .error .zeroDivisor else .ok n

/-- The amount of a shift of a number of so many bits. -/
def amount (bits n : Nat) : Checked Nat := if n < bits then .ok n else .error (.shift n)

/-- An index into something of a given size. -/
def index (size i : Nat) : Checked Nat := if i < size then .ok i else .error (.index i size)

def element (xs : Array α) (i : Nat) : Checked α :=
  match xs[i]? with
  | some x => .ok x
  | none => .error (.index i xs.size)

/-- Copies bytes; there have to be as many as there is room for. -/
def copy (target source : Nat) : Checked Unit :=
  if target = source then .ok () else .error (.lengths target source)

/-! ## Their domains -/

variable {bits a b n size i : Nat}

@[simp] theorem sum_eq (h : a + b < 2 ^ bits) : sum bits a b = .ok (a + b) := if_pos h

@[simp] theorem difference_eq (h : b ≤ a) : difference a b = .ok (a - b) := if_pos h

@[simp] theorem product_eq (h : a * b < 2 ^ bits) : product bits a b = .ok (a * b) := if_pos h

@[simp] theorem signedProduct_eq {a b : Int}
    (h : -2 ^ (bits - 1) ≤ a * b ∧ a * b < 2 ^ (bits - 1)) :
    signedProduct bits a b = .ok (a * b) := if_pos h

@[simp] theorem divisor_eq (h : n ≠ 0) : divisor n = .ok n := if_neg h

@[simp] theorem amount_eq (h : n < bits) : amount bits n = .ok n := if_pos h

@[simp] theorem index_eq (h : i < size) : index size i = .ok i := if_pos h

@[simp] theorem element_eq {xs : Array α} {x : α} (h : xs[i]? = some x) :
    element xs i = .ok x := by
  rw [element, h]

@[simp] theorem copy_self : copy n n = .ok () := if_pos rfl

/-! ## Fields cut out by shifting and masking -/

/-- A mask of `k` ones keeps `k` bits. -/
theorem mask_toNat {n k mask : Nat} (w : BitVec n) (ones : mask = 2 ^ k - 1) (hk : k ≤ n) :
    (w &&& BitVec.ofNat n mask).toNat = (w.setWidth k).toNat := by
  have hmask : mask % 2 ^ n = 2 ^ k - 1 := by
    have hpow : 2 ^ k ≤ 2 ^ n := Nat.pow_le_pow_right (by decide) hk
    have hpos : 0 < 2 ^ k := Nat.two_pow_pos k
    rw [ones, Nat.mod_eq_of_lt (by omega)]
  rw [BitVec.toNat_and, BitVec.toNat_ofNat, hmask, Nat.and_two_pow_sub_one_eq_mod,
    BitVec.toNat_setWidth]

theorem cut_toNat {n k mask : Nat} (w : BitVec n) (low : Nat) (ones : mask = 2 ^ k - 1)
    (hk : k ≤ n) : ((w >>> low) &&& BitVec.ofNat n mask).toNat = (w.extractLsb' low k).toNat := by
  rw [mask_toNat _ ones hk, BitVec.toNat_setWidth, BitVec.toNat_ushiftRight,
    BitVec.extractLsb'_toNat]

/-- A short field is the same number as a byte. -/
theorem cut_byte {n k mask : Nat} (w : BitVec n) (low : Nat) (ones : mask = 2 ^ k - 1)
    (hk : k ≤ n) (short : k ≤ 8) :
    (((w >>> low) &&& BitVec.ofNat n mask).setWidth 8).toNat = (w.extractLsb' low k).toNat := by
  rw [BitVec.toNat_setWidth, cut_toNat w low ones hk]
  exact Nat.mod_eq_of_lt
    (Nat.lt_of_lt_of_le (BitVec.isLt _) (Nat.pow_le_pow_right (by decide) short))

/-- The bits from a position on to the top need no mask. -/
theorem top_byte {n k : Nat} (w : BitVec n) (low : Nat) (top : low + k = n) (short : k ≤ 8) :
    ((w >>> low).setWidth 8).toNat = (w.extractLsb' low k).toNat := by
  have hlt : w.toNat >>> low < 2 ^ k := by
    rw [Nat.shiftRight_eq_div_pow]
    refine Nat.div_lt_of_lt_mul ?_
    rw [← Nat.pow_add, top]
    exact w.isLt
  have hpow : 2 ^ k ≤ 2 ^ 8 := Nat.pow_le_pow_right (by decide) short
  rw [BitVec.toNat_setWidth, BitVec.toNat_ushiftRight, BitVec.extractLsb'_toNat,
    Nat.mod_eq_of_lt hlt, Nat.mod_eq_of_lt (by omega)]

/-- A number that is shifted to above another is put together with it. -/
theorem low_or_high {n m : Nat} (high : BitVec n) (low : BitVec m) :
    low.setWidth (n + m) ||| high.setWidth (n + m) <<< m = high ++ low := by
  rw [BitVec.append_def, BitVec.shiftLeftZeroExtend_eq, BitVec.setWidth'_eq, BitVec.or_comm]

/-! ## Sequences -/

@[simp] theorem ok_bind (a : α) (rest : α → Checked β) :
    ((.ok a : Checked α) >>= rest) = rest a := rfl

@[simp] theorem pure_eq (a : α) : (pure a : Checked α) = .ok a := rfl

@[simp] theorem discard_ok (a : α) : Functor.discard (.ok a : Checked α) = .ok () := rfl

end Checked

/-! ## Work on a state -/

/-- Work on a state that may fail, and may panic. -/
abbrev CheckedAttempt (ε σ α : Type) : Type := ExceptT ε (StateT σ Checked) α

namespace CheckedAttempt

variable {ε ε' σ α β : Type}

/-- Work that leaves the state alone, and only fails by a panic. -/
def check (work : Checked α) : CheckedAttempt ε σ α := fun s => work.map fun a => (.ok a, s)

/-- From every state of which `P` holds, the work is done without a panic and does what
unchecked work does; and `P` holds afterwards, whether or not the work has failed. -/
def Safe (P : σ → Prop) (checked : CheckedAttempt ε σ α) (work : Attempt ε σ α) : Prop :=
  ∀ s, P s → checked s = .ok (work s) ∧ P (work s).2

namespace Safe

variable {P : σ → Prop} {checked : CheckedAttempt ε σ α} {work : Attempt ε σ α}

theorem done (result : Except ε α) :
    Safe P (fun s => .ok (result, s)) fun s => (result, s) := fun _ hs => ⟨rfl, hs⟩

theorem pure (a : α) : Safe P (pure a : CheckedAttempt ε σ α) (pure a) := fun _ hs => ⟨rfl, hs⟩

theorem throw (e : ε) : Safe P (throw e : CheckedAttempt ε σ α) (throw e) :=
  fun _ hs => ⟨rfl, hs⟩

theorem get {P : σ → Prop} : Safe P (get : CheckedAttempt ε σ σ) (get : Attempt ε σ σ) :=
  fun _ hs => ⟨rfl, hs⟩

theorem modify {P : σ → Prop} {f : σ → σ} (h : ∀ s, P s → P (f s)) :
    Safe P (modify f : CheckedAttempt ε σ PUnit) (modify f) := fun s hs => ⟨rfl, h s hs⟩

theorem bind {first : CheckedAttempt ε σ α} {first' : Attempt ε σ α}
    {rest : α → CheckedAttempt ε σ β} {rest' : α → Attempt ε σ β}
    (hf : Safe P first first') (hr : ∀ a, Safe P (rest a) (rest' a)) :
    Safe P (first >>= rest) (first' >>= rest') := by
  intro s hs
  obtain ⟨hrun, hmid⟩ := hf s hs
  rw [Attempt.bind_run]
  simp only [Bind.bind, ExceptT.bind, ExceptT.mk, StateT.bind]
  rw [hrun]
  rcases h : first' s with ⟨e | a, s'⟩
  · rw [h] at hmid
    exact ⟨rfl, hmid⟩
  · rw [h] at hmid
    exact hr a s' hmid

theorem ite {p : Prop} [Decidable p] {yes no : CheckedAttempt ε σ α}
    {yes' no' : Attempt ε σ α} (hyes : p → Safe P yes yes') (hno : ¬p → Safe P no no') :
    Safe P (if p then yes else no) (if p then yes' else no') := by
  split
  · exact hyes ‹p›
  · exact hno ‹¬p›

/-- Checks that are passed can be left out. -/
theorem check {c : Checked β} {b : β} {rest : β → CheckedAttempt ε σ α} (hc : c = .ok b)
    (hr : Safe P (rest b) work) : Safe P (CheckedAttempt.check c >>= rest) work := by
  subst hc
  exact hr

theorem adapt (f : ε → ε') (h : Safe P checked work) :
    Safe P (ExceptT.adapt f checked : CheckedAttempt ε' σ α) (ExceptT.adapt f work) := by
  intro s hs
  obtain ⟨hrun, hP⟩ := h s hs
  rw [Attempt.adapt_run]
  refine ⟨?_, hP⟩
  show (checked s).map (fun r => (r.1.mapError f, r.2)) = _
  rw [hrun]
  rfl

end Safe
end CheckedAttempt
end Rv32
