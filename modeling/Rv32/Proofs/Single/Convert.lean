/-
# `Rv32.Proofs.Single.Convert` — from singles to integers

A finite single converts to the whole number to which the rounding mode rounds the number that
it is, moved into the range of the integer type; what is not finite converts to an end of the
range (`Converted`).

A host goes another way: it has a function for each way to round a single to a single, takes the
one that the mode names, and casts the result to an integer (`Conversion`).  If it rounds and
casts as it should, it gets the same, because the rounded number is a single again: it fits into a
significand, or nothing had to be rounded.
-/
import Rv32.Proofs.Hart.Effect
import Rv32.Proofs.Single.Rounding
import Rv32.Proofs.Single.Value

namespace Rv32.Single

/-! ## Integers of a format -/

theorem clamp_eq (format : Signedness) (n : Int) :
    clamp format n = max (leastInt format) (min n (greatestInt format)) := by
  cases format <;> simp only [clamp, leastInt, greatestInt] <;> omega

theorem toInt_bounds (format : Signedness) (mode : Rounding) (b : Word) :
    leastInt format ≤ toInt format mode b ∧ toInt format mode b ≤ greatestInt format := by
  have ends : leastInt format ≤ greatestInt format := by cases format <;> decide
  unfold toInt
  split
  · exact ⟨ends, le_rfl⟩
  · split
    · split
      · exact ⟨le_rfl, ends⟩
      · exact ⟨ends, le_rfl⟩
    · rw [clamp_eq]
      exact ⟨le_max_left _ _, max_le ends (min_le_right _ _)⟩

/-- A word is read as the integer that it was made from, if the format has it. -/
theorem intOfWord_ofInt {format : Signedness} {n : Int} (least : leastInt format ≤ n)
    (greatest : n ≤ greatestInt format) : intOfWord format (BitVec.ofInt 32 n) = n := by
  cases format with
  | signed =>
    rw [intOfWord, BitVec.toInt_ofInt]
    exact Int.bmod_eq_of_le (by simp only [leastInt] at least; omega)
      (by simp only [greatestInt] at greatest; omega)
  | unsigned =>
    simp only [leastInt, greatestInt] at least greatest
    rw [intOfWord, BitVec.toNat_ofInt]
    omega

/-! ## What is converted to what -/

/-- A pattern that is a number, and not infinite. -/
def IsFinite (b : Word) : Prop := isNaN b = false ∧ isInfinite b = false

theorem isFinite_iff {b : Word} : IsFinite b ↔ magnitude b < infiniteMagnitude := by
  rw [IsFinite, isNaN, isInfinite, decide_eq_false_iff_not, beq_eq_false_iff_ne]
  omega

/-- A single converts to `n`. -/
structure Converted (format : Signedness) (mode : Rounding) (b : Word) (n : Int) : Prop where
  nan : isNaN b = true → n = greatestInt format
  infinite : isInfinite b = true → n = if sign b then leastInt format else greatestInt format
  /-- There is one number to which the value is rounded; it is moved into the range. -/
  finite : IsFinite b →
    ∃ k, Rounds mode (value b) k ∧ (∀ k', Rounds mode (value b) k' → k' = k) ∧
      n = max (leastInt format) (min k (greatestInt format))

theorem not_isNaN_of_isInfinite {b : Word} (infinite : isInfinite b = true) :
    isNaN b = false := by
  rw [isInfinite, beq_iff_eq] at infinite
  rw [isNaN, infinite]
  rfl

theorem toInt_of_isInfinite {b : Word} (infinite : isInfinite b = true) (format : Signedness)
    (mode : Rounding) :
    toInt format mode b = if sign b then leastInt format else greatestInt format := by
  rw [toInt, not_isNaN_of_isInfinite infinite, infinite, if_neg Bool.false_ne_true, if_pos rfl]

theorem toInt_of_isFinite {b : Word} (finite : IsFinite b) (format : Signedness)
    (mode : Rounding) :
    toInt format mode b = clamp format (roundToInt mode (units b) unitsPerOne) := by
  rw [toInt, finite.1, finite.2, if_neg Bool.false_ne_true, if_neg Bool.false_ne_true]

/-- The units of a single are rounded as its value is. -/
theorem rounds_units (mode : Rounding) (b : Word) :
    Rounds mode (value b) (roundToInt mode (units b) unitsPerOne) := by
  rw [value_eq]
  exact roundToInt_rounds mode (units b) unitsPerOne_pos

theorem converted_toInt (format : Signedness) (mode : Rounding) (b : Word) :
    Converted format mode b (toInt format mode b) where
  nan undefined := if_pos undefined
  infinite endless := toInt_of_isInfinite endless format mode
  finite finite := by
    refine ⟨_, rounds_units mode b, fun k rounds => rounds.unique (rounds_units mode b), ?_⟩
    rw [toInt_of_isFinite finite, clamp_eq]

/-! ## Rounding first, and then casting -/

/-- What a host has for conversions: five functions from singles to singles that are whole
numbers, and casts to integers. -/
structure Conversion where
  roundTiesEven : Word → Word
  trunc : Word → Word
  floor : Word → Word
  ceil : Word → Word
  /-- Of two numbers that are equally near, the one farther from zero. -/
  round : Word → Word
  /-- Makes a single an integer of a format. -/
  cast : Signedness → Word → Int

/-- A function on singles rounds the numbers that they are, and leaves infinities. -/
structure RoundsAll (mode : Rounding) (f : Word → Word) : Prop where
  finite : ∀ b, IsFinite b → IsFinite (f b) ∧ ∃ n : ℤ, Rounds mode (value b) n ∧ value (f b) = n
  infinite : ∀ b, isInfinite b = true → f b = b

namespace Conversion

/-- Each function rounds as its name says.  A cast drops what is behind the point, and what is
outside of the range becomes the end of it that is nearer. -/
structure Documented (C : Conversion) : Prop where
  roundTiesEven : RoundsAll .nearestEven C.roundTiesEven
  trunc : RoundsAll .towardZero C.trunc
  floor : RoundsAll .down C.floor
  ceil : RoundsAll .up C.ceil
  round : RoundsAll .nearestAway C.round
  cast_finite : ∀ format b, IsFinite b → ∀ n, Rounds .towardZero (value b) n →
    C.cast format b = max (leastInt format) (min n (greatestInt format))
  cast_infinite : ∀ format b, isInfinite b = true →
    C.cast format b = if sign b then leastInt format else greatestInt format

/-- The function that a mode names.  The mode of the hart itself is always that of ties to even. -/
def roundBy (C : Conversion) : Rounding → Word → Word
  | .nearestEven | .dynamic => C.roundTiesEven
  | .towardZero => C.trunc
  | .down => C.floor
  | .up => C.ceil
  | .nearestAway => C.round

def toWord (C : Conversion) (format : Signedness) (mode : Rounding) (b : Word) : Word :=
  BitVec.ofInt 32 (C.cast format (C.roundBy mode b))

theorem Documented.roundBy {C : Conversion} (documented : C.Documented) (mode : Rounding) :
    RoundsAll mode (C.roundBy mode) := by
  cases mode with
  | nearestEven => exact documented.roundTiesEven
  | dynamic => exact ⟨documented.roundTiesEven.finite, documented.roundTiesEven.infinite⟩
  | towardZero => exact documented.trunc
  | down => exact documented.floor
  | up => exact documented.ceil
  | nearestAway => exact documented.round

/-- A whole number stays what it is when what is behind the point is dropped. -/
theorem rounds_towardZero_whole (n : ℤ) : Rounds .towardZero (n : ℚ) n :=
  ⟨fun _ => (Int.floor_intCast n).symm, fun _ => (Int.ceil_intCast n).symm⟩

theorem Documented.cast_roundBy {C : Conversion} (documented : C.Documented) {b : Word}
    (number : isNaN b = false) (format : Signedness) (mode : Rounding) :
    C.cast format (C.roundBy mode b) = toInt format mode b := by
  have rounded := documented.roundBy mode
  cases endless : isInfinite b with
  | true =>
    rw [rounded.infinite b endless, documented.cast_infinite format b endless,
      toInt_of_isInfinite endless]
  | false =>
    have finite : IsFinite b := ⟨number, endless⟩
    obtain ⟨finite', n, rounds, whole⟩ := rounded.finite b finite
    have dropped : Rounds .towardZero (value (C.roundBy mode b)) n := by
      rw [whole]
      exact rounds_towardZero_whole n
    rw [documented.cast_finite format _ finite' n dropped, toInt_of_isFinite finite, clamp_eq,
      rounds.unique (rounds_units mode b)]

/-- A host with such rounding and casts converts as harts do. -/
theorem Documented.convert {C : Conversion} (documented : C.Documented) {A : Arithmetic}
    (host : A.toWord = C.toWord) (format : Signedness) (mode : Rounding) (b : Word) :
    A.convert format mode b = Single.toWord format mode b := by
  unfold Arithmetic.convert
  cases number : isNaN b with
  | true => rw [if_pos rfl, Single.toWord, toInt, if_pos number]
  | false =>
    rw [if_neg Bool.false_ne_true, host, toWord, documented.cast_roundBy number]
    rfl

/-! ## Such a host -/

/-- Rounding that leaves whole numbers as they are, and otherwise takes the single of the
integer. -/
def rounded (mode : Rounding) (b : Word) : Word :=
  if isNaN b || isInfinite b then b
  else if units b % unitsPerOne = 0 then b
  else ofInt (roundToInt mode (units b) unitsPerOne)

/-- A host that rounds so, and whose casts make a NaN zero. -/
def exact : Conversion where
  roundTiesEven := rounded .nearestEven
  trunc := rounded .towardZero
  floor := rounded .down
  ceil := rounded .up
  round := rounded .nearestAway
  cast format b := if isNaN b then 0 else Single.toInt format .towardZero b

/-- From the exponent of `2 ^ 23` on, a significand counts whole ones. -/
theorem units_mod_of_large {b : Word} (large : 150 * 2 ^ 23 ≤ magnitude b) :
    units b % unitsPerOne = 0 := by
  have bound := (fraction b).isLt
  have parts := magnitude_eq b
  have exponent : max (exponent b).toNat 1 - 1 = (exponent b).toNat - 150 + 149 := by omega
  have divides : unitsPerOne ∣ magnitudeUnits b := by
    rw [magnitudeUnits_eq, exponent, Nat.pow_add, ← Nat.mul_assoc]
    exact Nat.dvd_mul_left _ _
  have divides : (unitsPerOne : ℤ) ∣ magnitudeUnits b := Int.natCast_dvd_natCast.mpr divides
  rw [units]
  split
  · exact Int.emod_eq_zero_of_dvd ((Int.dvd_neg).mpr divides)
  · exact Int.emod_eq_zero_of_dvd divides

theorem natAbs_units (b : Word) : (units b).natAbs = magnitudeUnits b := by
  rw [units]
  split <;> simp

/-- A single that is no whole number rounds to one that fits into a significand. -/
theorem natAbs_roundToInt_lt (mode : Rounding) {b : Word} (part : units b % unitsPerOne ≠ 0) :
    (roundToInt mode (units b) unitsPerOne).natAbs < 2 ^ 24 := by
  have small : magnitude b < 150 * 2 ^ 23 := not_le.mp fun large => part (units_mod_of_large large)
  have few : (units b).natAbs < 2 ^ 23 * unitsPerOne := by
    rw [natAbs_units, ← unitsAt_magnitude]
    exact strictMono_unitsAt small
  have positive : (0 : ℤ) < unitsPerOne := Int.natCast_pos.mpr unitsPerOne_pos
  have least : -2 ^ 23 ≤ units b / unitsPerOne :=
    Int.le_ediv_of_mul_le positive (by omega)
  have greatest : units b / unitsPerOne < 2 ^ 23 :=
    Int.ediv_lt_of_lt_mul positive (by omega)
  rcases roundToInt_eq_or mode (units b) unitsPerOne with quotient | next <;> omega

theorem roundsAll_rounded (mode : Rounding) : RoundsAll mode (rounded mode) where
  finite b finite := by
    simp only [rounded, finite.1, finite.2, Bool.or_self, if_false, Bool.false_eq_true]
    have rounds := rounds_units mode b
    split
    case isTrue whole =>
      rw [roundToInt_of_emod_eq_zero mode unitsPerOne_pos whole] at rounds
      exact ⟨finite, _, rounds, value_of_units (Int.ediv_mul_cancel_of_emod_eq_zero whole).symm⟩
    case isFalse part =>
      obtain ⟨finite', units'⟩ := units_ofInt (natAbs_roundToInt_lt mode part)
      exact ⟨isFinite_iff.mpr finite', _, rounds, value_of_units units'⟩
  infinite b endless := by
    simp only [rounded, endless, Bool.or_true, if_true]

theorem documented_exact : exact.Documented where
  roundTiesEven := roundsAll_rounded .nearestEven
  trunc := roundsAll_rounded .towardZero
  floor := roundsAll_rounded .down
  ceil := roundsAll_rounded .up
  round := roundsAll_rounded .nearestAway
  cast_finite format b finite n rounds := by
    simp only [exact, finite.1, if_false, Bool.false_eq_true]
    rw [toInt_of_isFinite finite, clamp_eq, rounds.unique (rounds_units .towardZero b)]
  cast_infinite format b endless := by
    simp only [exact, not_isNaN_of_isInfinite endless, if_false, Bool.false_eq_true]
    exact toInt_of_isInfinite endless format .towardZero

end Conversion

/-! ## Conversions of harts -/

/-- The instruction that converts a single leaves the integer to which the single converts, in any
rounding mode; and so does one that rounds and casts as a host does, if the host does both as it
should and is shown no NaN. -/
theorem toWord_converted (format : Signedness) (mode : Rounding) (b : Word) :
    Converted format mode b (intOfWord format (toWord format mode b)) ∧
      (∀ (h : Hart) (rd rs1 : Reg) (bits : Word) (length : Instruction.Length),
        h.registers.single rs1 = b →
          ∀ mmu, h.execute (.floatToInt format rd rs1 mode) bits length mmu =
            (.ok .proceed, h.finish length rd (toWord format mode b), mmu)) ∧
      ∀ (C : Conversion) (A : Arithmetic), C.Documented → A.toWord = C.toWord →
        A.convert format mode b = toWord format mode b := by
  refine ⟨?_, ?_, fun C A documented host => documented.convert host format mode b⟩
  · obtain ⟨least, greatest⟩ := toInt_bounds format mode b
    rw [toWord, intOfWord_ofInt least greatest]
    exact converted_toInt format mode b
  · rintro h rd rs1 bits length rfl mmu
    rfl

/-- Minus two and a half: to the even neighbour, and to an unsigned integer. -/
theorem toWord_converted_of_tie :
    let A : Arithmetic := { Arithmetic.exact with toWord := Conversion.exact.toWord }
    Conversion.exact.Documented ∧
      A.convert .signed .nearestEven 0xC0200000 = -2 ∧
      A.convert .unsigned .down 0xC0200000 = 0 := by
  intro A
  have even := (toWord_converted .signed .nearestEven 0xC0200000).2.2 Conversion.exact A
    Conversion.documented_exact rfl
  have least := (toWord_converted .unsigned .down 0xC0200000).2.2 Conversion.exact A
    Conversion.documented_exact rfl
  refine ⟨Conversion.documented_exact, even.trans ?_, least.trans ?_⟩ <;> decide +kernel

end Rv32.Single
