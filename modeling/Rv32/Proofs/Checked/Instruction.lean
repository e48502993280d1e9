/-
# `Rv32.Proofs.Checked.Instruction` — decoding and computing with numbers

An instruction's fields are cut out of it by shifting and masking, which gives numbers;
only then is asked whether a number names a register, or is an amount to shift by.
The immediates are put together from pieces, each shifted to its place.  The integer
operations are those on numbers of 32 and, for products, 64 bits.

None of this panics, whatever the instruction and the operands are, and the numbers are
the fields of the instruction and the results of its operations.
-/
import Mathlib.Algebra.Order.Ring.Int
import Mathlib.Tactic.IntervalCases
import Mathlib.Tactic.Linarith
import Rv32.Instruction.Compute
import Rv32.Instruction.Parcel
import Rv32.Proofs.Checked.Basic
import Rv32.Single.Order

namespace Rv32.Checked

/-! ## Register fields -/

/-- The register a byte names, in a file of 32 registers. -/
def register (number : Byte) : Checked Reg := do
  let r ← (Reg.ofNat? number.toNat).mapError .register
  discard (index 32 r.toNat)
  return r

/-- The register named by five bits from a position on. -/
def registerAt {n : Nat} (w : BitVec n) (low : Nat) : Checked Reg := do
  register (((w >>> (← amount n low)) &&& 0x1F#n).setWidth 8)

/-- The register named by the highest five bits. -/
def registerOnTop (w : Word) : Checked Reg := do
  register ((w >>> (← amount 32 27)).setWidth 8)

/-- The register named by three bits from a position on, counted from the eighth register. -/
def shortRegisterAt (h : Half) (low : Nat) : Checked Reg := do
  let number := (((h >>> (← amount 16 low)) &&& 0b111#16).setWidth 8).toNat
  let r ← (Reg.ofShort? number).mapError .register
  discard (index 32 (← sum 8 number 8))
  return r

theorem register_eq {number : Byte} {r : Reg} (h : number.toNat = r.toNat) :
    register number = .ok r := by
  have hlt : r.toNat < 32 := r.isLt
  rw [register, Reg.ofNat?, h, if_pos hlt, BitVec.ofNat_toNat, BitVec.setWidth_eq,
    Except.mapError, ok_bind, index_eq hlt]
  rfl

theorem registerAt_eq {n low : Nat} (w : BitVec n) (hn : 5 ≤ n) (hlow : low < n) :
    registerAt w low = .ok (w.extractLsb' low 5) := by
  rw [registerAt, amount_eq hlow, ok_bind]
  exact register_eq (cut_byte w low rfl hn (by decide))

theorem registerOnTop_eq (w : Word) : registerOnTop w = .ok (w.extractLsb' 27 5) := by
  rw [registerOnTop, amount_eq (by decide), ok_bind]
  exact register_eq (top_byte w 27 rfl (by decide))

theorem shortRegisterAt_eq {low : Nat} (h : Half) (hlow : low < 16) :
    shortRegisterAt h low = .ok (Reg.ofShort (h.extractLsb' low 3)) := by
  have hlt : (h.extractLsb' low 3).toNat < 8 := BitVec.isLt _
  simp only [shortRegisterAt, amount_eq hlow, ok_bind,
    cut_byte h low (show 7 = 2 ^ 3 - 1 from rfl) (by decide) (by decide), Reg.ofShort?, if_pos hlt,
    Except.mapError]
  rw [sum_eq (by omega), ok_bind, index_eq (by omega), BitVec.ofNat_toNat, BitVec.setWidth_eq]
  rfl

/-! ## Codes and immediates -/

/-- A piece of a number: where it begins in the instruction, its width, and its place in
the number. -/
structure Piece where
  low : Nat
  width : Nat
  place : Nat
deriving DecidableEq

/-- A number in an instruction: its pieces, and its width if it is signed. -/
structure Layout where
  pieces : List Piece
  signed : Option Nat
deriving DecidableEq

def piece {n : Nat} (w : BitVec n) (p : Piece) : Checked Word := do
  let mask ← difference (2 ^ (← amount n p.width)) 1
  let bits := (w >>> (← amount n p.low)) &&& BitVec.ofNat n mask
  return bits.setWidth 32 <<< (← amount 32 p.place)

def pieces {n : Nat} (w : BitVec n) : List Piece → Checked Word
  | [] => return 0
  | p :: rest => return (← piece w p) ||| (← pieces w rest)

/-- A signed number of a given width: it is shifted to the top, and back. -/
def extend (value : Word) (width : Nat) : Checked Word := do
  let unused ← amount 32 (← difference 32 width)
  return (value <<< unused).sshiftRight unused

def number {n : Nat} (w : BitVec n) (l : Layout) : Checked Word := do
  let value ← pieces w l.pieces
  match l.signed with
  | some width => extend value width
  | none => return value

/-- The pieces lie inside an instruction of so many bits, and inside of a word. -/
def Layout.Fits (l : Layout) (n : Nat) : Prop :=
  (∀ p ∈ l.pieces, p.low < n ∧ p.width < n ∧ p.place < 32) ∧
    ∀ width ∈ l.signed, 0 < width ∧ width ≤ 32

instance (l : Layout) (n : Nat) : Decidable (l.Fits n) :=
  inferInstanceAs (Decidable (_ ∧ ∀ width ∈ l.signed, _))

theorem piece_defined {n : Nat} (w : BitVec n) {p : Piece}
    (h : p.low < n ∧ p.width < n ∧ p.place < 32) : ∃ value, piece w p = .ok value := by
  obtain ⟨hlow, hwidth, hplace⟩ := h
  simp only [piece, amount_eq hwidth, amount_eq hlow, amount_eq hplace, ok_bind,
    difference_eq Nat.one_le_two_pow]
  exact ⟨_, rfl⟩

theorem pieces_defined {n : Nat} (w : BitVec n) {ps : List Piece}
    (h : ∀ p ∈ ps, p.low < n ∧ p.width < n ∧ p.place < 32) :
    ∃ value, pieces w ps = .ok value := by
  induction ps with
  | nil => exact ⟨0, rfl⟩
  | cons p rest ih =>
      obtain ⟨a, ha⟩ := piece_defined w (h p (List.mem_cons_self ..))
      obtain ⟨b, hb⟩ := ih fun q hq => h q (List.mem_cons_of_mem _ hq)
      exact ⟨a ||| b, by rw [pieces, ha, ok_bind, hb]; rfl⟩

theorem number_defined {n : Nat} (w : BitVec n) {l : Layout} (h : l.Fits n) :
    ∃ value, number w l = .ok value := by
  obtain ⟨value, hvalue⟩ := pieces_defined w h.1
  rw [number, hvalue, ok_bind]
  cases hs : l.signed with
  | none => exact ⟨value, rfl⟩
  | some width =>
      obtain ⟨hpos, hle⟩ := h.2 width hs
      have hunused : 32 - width < 32 := by omega
      simp only [extend, difference_eq hle, amount_eq hunused, ok_bind]
      exact ⟨_, rfl⟩

/-- What a 32-bit instruction holds besides registers: the codes of operations, the number
of a control register, and the immediates of stores, branches and jumps. -/
def wordLayouts : List Layout :=
  [⟨[⟨12, 3, 0⟩], none⟩, ⟨[⟨25, 7, 0⟩], none⟩, ⟨[⟨27, 5, 0⟩], none⟩, ⟨[⟨20, 12, 0⟩], none⟩,
    ⟨[⟨25, 7, 5⟩, ⟨7, 5, 0⟩], some 12⟩,
    ⟨[⟨31, 1, 12⟩, ⟨7, 1, 11⟩, ⟨25, 6, 5⟩, ⟨8, 4, 1⟩], some 13⟩,
    ⟨[⟨31, 1, 20⟩, ⟨12, 8, 12⟩, ⟨20, 1, 11⟩, ⟨21, 10, 1⟩], some 21⟩]

/-- The six bits that are an immediate, or an amount to shift by. -/
def sixBits : Layout := ⟨[⟨12, 1, 5⟩, ⟨2, 5, 0⟩], some 6⟩

/-- What a 16-bit instruction holds besides registers: the codes of operations, six bits
and a frame; a variable and offsets from registers; offsets from the stack, of loads and
then of stores; a jump and a branch. -/
def halfLayouts : List Layout :=
  [⟨[⟨12, 1, 0⟩], none⟩, ⟨[⟨10, 2, 0⟩], none⟩, ⟨[⟨5, 2, 0⟩], none⟩,
    sixBits,
    ⟨[⟨12, 1, 9⟩, ⟨6, 1, 4⟩, ⟨5, 1, 6⟩, ⟨3, 2, 7⟩, ⟨2, 1, 5⟩], some 10⟩,
    ⟨[⟨11, 2, 4⟩, ⟨7, 4, 6⟩, ⟨6, 1, 2⟩, ⟨5, 1, 3⟩], none⟩,
    ⟨[⟨10, 3, 3⟩, ⟨6, 1, 2⟩, ⟨5, 1, 6⟩], none⟩,
    ⟨[⟨10, 3, 3⟩, ⟨5, 2, 6⟩], none⟩,
    ⟨[⟨12, 1, 5⟩, ⟨4, 3, 2⟩, ⟨2, 2, 6⟩], none⟩,
    ⟨[⟨12, 1, 5⟩, ⟨5, 2, 3⟩, ⟨2, 3, 6⟩], none⟩,
    ⟨[⟨9, 4, 2⟩, ⟨7, 2, 6⟩], none⟩,
    ⟨[⟨10, 3, 3⟩, ⟨7, 3, 6⟩], none⟩,
    ⟨[⟨12, 1, 11⟩, ⟨11, 1, 4⟩, ⟨9, 2, 8⟩, ⟨8, 1, 10⟩, ⟨7, 1, 6⟩, ⟨6, 1, 7⟩, ⟨3, 3, 1⟩,
      ⟨2, 1, 5⟩], some 12⟩,
    ⟨[⟨12, 1, 8⟩, ⟨10, 2, 3⟩, ⟨5, 2, 6⟩, ⟨3, 2, 1⟩, ⟨2, 1, 5⟩], some 9⟩]

/-- Puts numbers together, one after the other. -/
def numbers {n : Nat} (w : BitVec n) : List Layout → Checked Unit
  | [] => return
  | l :: rest => do
    discard (number w l)
    numbers w rest

theorem numbers_eq {n : Nat} (w : BitVec n) {ls : List Layout} (h : ∀ l ∈ ls, l.Fits n) :
    numbers w ls = .ok () := by
  induction ls with
  | nil => rfl
  | cons l rest ih =>
      obtain ⟨value, hvalue⟩ := number_defined w (h l (List.mem_cons_self ..))
      rw [numbers, hvalue, discard_ok, ok_bind]
      exact ih fun m hm => h m (List.mem_cons_of_mem _ hm)

/-! ## Decoding -/

/-- The registers a 32-bit instruction names, and its amount to shift by. -/
structure Operands where
  rd : Reg
  rs1 : Reg
  rs2 : Reg
  rs3 : Reg
  shiftAmount : Nat

def operands (w : Word) : Checked Operands := do
  let shiftAmount := (w >>> (← amount 32 20)) &&& 0x1F#32
  return ⟨← registerAt w 7, ← registerAt w 15, ← registerAt w 20, ← registerOnTop w,
    shiftAmount.toNat⟩

theorem operands_eq (w : Word) :
    operands w = .ok ⟨Field.rd w, Field.rs1 w, Field.rs2 w, Field.rs3 w,
      (Field.shiftAmount w).toNat⟩ := by
  have hamount := cut_toNat w 20 (show 31 = 2 ^ 5 - 1 from rfl) (by decide)
  simp (disch := decide) only [operands, amount_eq, registerOnTop_eq, registerAt_eq, ok_bind,
    hamount]
  rfl

/-- The registers a 16-bit instruction names, its amount to shift by, and its operation. -/
structure ShortOperands where
  rs1 : Reg
  rs2 : Reg
  rs1Short : Reg
  rs2Short : Reg
  shiftAmount : Nat
  operation : BitVec 3

/-- The code of the operation, by which a table of eight entries is searched; there is no ninth. -/
def operation (h : Half) : Checked (BitVec 3) := do
  let code := (h >>> (← amount 16 13)).setWidth 8
  if code.toNat < 8 then return code.setWidth 3 else throw .unreachable

def shortOperands (h : Half) : Checked ShortOperands := do
  let shiftAmount := (← number h sixBits) &&& 0x1F#32
  return ⟨← registerAt h 7, ← registerAt h 2, ← shortRegisterAt h 7, ← shortRegisterAt h 2,
    shiftAmount.toNat, ← operation h⟩

theorem operation_eq (h : Half) : operation h = .ok (Compressed.funct3 h) := by
  have hcode := top_byte h 13 (show 13 + 3 = 16 from rfl) (by decide)
  have hlt : (h.extractLsb' 13 3).toNat < 8 := BitVec.isLt _
  rw [operation, amount_eq (by decide), ok_bind, if_pos (by rw [hcode]; exact hlt)]
  refine congrArg Except.ok (BitVec.eq_of_toNat_eq ?_)
  rw [BitVec.toNat_setWidth, hcode, Compressed.funct3]
  exact Nat.mod_eq_of_lt hlt

/-- A signed number keeps its own bits. -/
theorem extend_low (value : Word) {unused i : Nat} (h : i + unused < 32) :
    ((value <<< unused).sshiftRight unused).getLsbD i = value.getLsbD i := by
  rw [BitVec.getLsbD_sshiftRight, BitVec.getLsbD_shiftLeft]
  have h1 : ¬32 ≤ i := by omega
  have h2 : unused + i < 32 := by omega
  have h3 : ¬unused + i < unused := by omega
  simp [h1, h2, h3]

/-- The low five of the six bits are the amount to shift by, whatever the sign. -/
theorem sixBits_eq (h : Half) :
    ∃ value, number h sixBits = .ok value ∧
      (value &&& 0x1F#32).toNat = (Compressed.shiftAmount h).toNat := by
  refine ⟨_, rfl, ?_⟩
  rw [mask_toNat _ (show 31 = 2 ^ 5 - 1 from rfl) (by decide)]
  refine congrArg BitVec.toNat (BitVec.eq_of_getLsbD_eq fun i hi => ?_)
  rw [BitVec.getLsbD_setWidth, extend_low _ (by simp only [Nat.reduceSub]; omega)]
  interval_cases i <;> simp [Compressed.shiftAmount]

theorem shortOperands_eq (h : Half) :
    shortOperands h = .ok ⟨Compressed.rs1 h, Compressed.rs2 h, Compressed.rs1Short h,
      Compressed.rs2Short h, (Compressed.shiftAmount h).toNat, Compressed.funct3 h⟩ := by
  obtain ⟨value, hvalue, hamount⟩ := sixBits_eq h
  simp (disch := decide) only [shortOperands, hvalue, hamount, operation_eq, registerAt_eq,
    shortRegisterAt_eq, ok_bind]
  rfl

def decode (w : Word) : Checked (Except DecodeError Instruction) := do
  discard (operands w)
  numbers w wordLayouts
  return Instruction.decode w

def decodeShort (h : Half) : Checked (Except DecodeError Instruction) := do
  discard (shortOperands h)
  numbers h halfLayouts
  return Instruction.decodeCompressed h

/-- Decodes an instruction of either length. -/
def ofWord (w : Word) : Checked (Except DecodeError Instruction) :=
  match Instruction.length (w.setWidth 16) with
  | .full => decode w
  | .compressed => decodeShort (w.setWidth 16)

theorem ofWord_eq (w : Word) : ofWord w = .ok (Instruction.ofWord w) := by
  have hword : ∀ l ∈ wordLayouts, l.Fits 32 := by decide
  have hhalf : ∀ l ∈ halfLayouts, l.Fits 16 := by decide
  unfold ofWord Instruction.ofWord
  cases Instruction.length (w.setWidth 16) with
  | full =>
      simp only [decode, operands_eq, discard_ok, ok_bind, numbers_eq w hword]
      rfl
  | compressed =>
      simp only [decodeShort, shortOperands_eq, discard_ok, ok_bind, numbers_eq _ hhalf]
      rfl

/-! ## Computing -/

/-- Shifts by an immediate amount, which has to be below 32. -/
def shift (op : ShiftOp) (a : Word) (n : Nat) : Checked Word :=
  if 31 < n then throw (.shift n)
  else do
    let n ← amount 32 n
    return match op with
      | .left => a <<< n
      | .right => a >>> n
      | .rightArith => a.sshiftRight n

theorem shift_eq (op : ShiftOp) (a : Word) (n : BitVec 5) :
    shift op a n.toNat = .ok (op.apply a n) := by
  have hn : n.toNat < 32 := n.isLt
  rw [shift, if_neg (by omega), amount_eq hn, ok_bind]
  cases op <;> rfl

/-- Six bits would be one too many. -/
example : shift .left 1 0b100000 = .error (.shift 32) := rfl

/-- The low five bits of a register, as an amount to shift by. -/
def registerAmount (b : Word) : Checked Nat := amount 32 (b &&& 0x1F#32).toNat

/-- An operation on two registers.  Shifts are by the low five bits of the second; the
upper half of a product is taken from a product of 64 bits; signed division is tried only
if the divisor is not zero. -/
def operate (op : RegOp) (a b : Word) : Checked Word :=
  match op with
  | .sll => do return a <<< (← registerAmount b)
  | .srl => do return a >>> (← registerAmount b)
  | .sra => do return a.sshiftRight (← registerAmount b)
  | .mulh => do
    let p ← signedProduct 64 a.toInt b.toInt
    return ((BitVec.ofInt 64 p).sshiftRight (← amount 64 32)).setWidth 32
  | .mulhsu => do
    return ((a.signExtend 64 * b.setWidth 64).sshiftRight (← amount 64 32)).setWidth 32
  | .mulhu => do
    let p ← product 64 a.toNat b.toNat
    return ((BitVec.ofNat 64 p) >>> (← amount 64 32)).setWidth 32
  | .div => if b = 0 then return BitVec.allOnes 32 else do
    discard (divisor b.toNat)
    return a.sdiv b
  | .rem => if b = 0 then return a else do
    discard (divisor b.toNat)
    return a.srem b
  | op => return op.apply a b

theorem registerAmount_eq (b : Word) : registerAmount b = .ok (b.setWidth 5).toNat := by
  rw [registerAmount, mask_toNat b (show 31 = 2 ^ 5 - 1 from rfl) (by decide)]
  exact amount_eq (b.setWidth 5).isLt

/-- Products of two signed words have room in 64 bits. -/
theorem signedProduct_word (a b : Word) :
    signedProduct 64 a.toInt b.toInt = .ok (a.toInt * b.toInt) := by
  have ha := a.toInt_lt
  have ha' := a.le_toInt
  have hb := b.toInt_lt
  have hb' := b.le_toInt
  refine signedProduct_eq ⟨?_, ?_⟩ <;> norm_num at * <;> nlinarith

theorem product_word (a b : Word) : product 64 a.toNat b.toNat = .ok (a.toNat * b.toNat) := by
  refine product_eq ?_
  calc a.toNat * b.toNat < 2 ^ 32 * 2 ^ 32 := Nat.mul_lt_mul'' a.isLt b.isLt
    _ = 2 ^ 64 := by norm_num

/-- The upper half is the same whichever way a product is shifted. -/
theorem high_sshiftRight (d : Dword) : (d.sshiftRight 32).setWidth 32 = Dword.high d := by
  refine BitVec.eq_of_getLsbD_eq fun i hi => ?_
  have h1 : ¬64 ≤ i := by omega
  have h2 : 32 + i < 64 := by omega
  simp [Dword.high, BitVec.getLsbD_sshiftRight, hi, h1, h2]

theorem operate_eq (op : RegOp) (a b : Word) : operate op a b = .ok (op.apply a b) := by
  cases op with
  | sll | srl | sra => rw [operate, registerAmount_eq]; rfl
  | mulh =>
      rw [operate, signedProduct_word, ok_bind, amount_eq (by decide), ok_bind,
        high_sshiftRight, BitVec.ofInt_mul]
      rfl
  | mulhsu => rw [operate, amount_eq (by decide), ok_bind, high_sshiftRight]; rfl
  | mulhu =>
      rw [operate, product_word, ok_bind, amount_eq (by decide), ok_bind, BitVec.ofNat_mul,
        BitVec.ofNat_toNat, BitVec.ofNat_toNat]
      rfl
  | div | rem =>
      simp only [operate, RegOp.apply]
      split
      · rfl
      · rename_i hb
        have hne : b.toNat ≠ 0 := fun h => hb (BitVec.eq_of_toNat_eq h)
        rw [divisor_eq hne]
        rfl
  | _ => rfl

/-- The class of a single, as a word with one bit set. -/
def classMask (b : Word) : Checked Word := do
  return 1#32 <<< (← amount 32 (Single.classOf b).position)

theorem classMask_eq (b : Word) : classMask b = .ok (Single.classMask b) := by
  have h : (Single.classOf b).position < 32 := by cases Single.classOf b <;> decide
  rw [classMask, amount_eq h]
  rfl

end Rv32.Checked
