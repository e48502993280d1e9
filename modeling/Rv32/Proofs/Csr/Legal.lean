/-
# `Rv32.Proofs.Csr.Legal` — what a write makes of the status register

The status register holds one of its legal values: no bit is set that means nothing, SD says
that FS is 3, and MPP names a mode.  A write through any mask keeps it so.

What a write does is said here in full (`LawfulWrite`): what is outside the mask stays, what
is inside is taken from the value, MPP as a whole or not at all, and SD follows.  These laws
leave no freedom (`LawfulWrite.unique`).  Hence writing back what is there changes nothing, and
a second write of the same value changes nothing more: in both cases a register that stays as
it is satisfies the laws.
-/
import Rv32.Proofs.Csr.Written

namespace Rv32

/-! ## Words within a mask -/

/-- No bit of the word is set outside the mask. -/
def Word.Within (w mask : Word) : Prop := ∀ i, mask.getLsbD i = false → w.getLsbD i = false

namespace Word.Within

theorem iff_and_not {w mask : Word} : Word.Within w mask ↔ w &&& ~~~mask = 0 := by
  constructor
  · intro h
    apply BitVec.eq_of_getLsbD_eq
    intro i hi
    rw [BitVec.getLsbD_and, BitVec.getLsbD_not, decide_eq_true hi, Bool.true_and]
    cases hm : mask.getLsbD i with
    | false => rw [h i hm]; exact BitVec.getLsbD_zero.symm
    | true => rw [Bool.not_true, Bool.and_false]; exact BitVec.getLsbD_zero.symm
  · exact fun h i out => getLsbD_of_submask h out

instance (w mask : Word) : Decidable (Word.Within w mask) := decidable_of_iff _ iff_and_not.symm

theorem zero (mask : Word) : Word.Within 0 mask := fun _ _ => BitVec.getLsbD_zero

theorem allOnes (w : Word) : Word.Within w (BitVec.allOnes 32) := by
  intro i out
  rw [BitVec.getLsbD_allOnes, decide_eq_false_iff_not] at out
  exact BitVec.getLsbD_of_ge w i (by omega)

theorem and_right (w mask : Word) : Word.Within (w &&& mask) mask := by
  intro i out
  rw [BitVec.getLsbD_and, out, Bool.and_false]

/-- Storing bits of a smaller mask stays within the mask. -/
theorem masked {old part mask : Word} (h : Word.Within old mask) (sub : Word.Within part mask)
    (value : Word) : Word.Within ((old &&& ~~~part) ||| (value &&& part)) mask := by
  intro i out
  rw [getLsbD_masked, sub i out]
  exact h i out

/-- All bits but one. -/
theorem not_bit {w : Word} {i : Nat} (hi : i < 32) :
    Word.Within w (~~~(1#32 <<< i)) ↔ w.getLsbD i = false := by
  constructor
  · intro h
    refine h i ?_
    rw [BitVec.getLsbD_not, Status.getLsbD_one_shiftLeft, decide_eq_true hi, decide_eq_true rfl]
    rfl
  · intro clear j out
    rcases Nat.lt_or_ge j 32 with hj | hj
    · rw [BitVec.getLsbD_not, Status.getLsbD_one_shiftLeft, decide_eq_true hj, Bool.true_and,
        Bool.true_and, Bool.not_eq_false', decide_eq_true_eq] at out
      rw [out]
      exact clear
    · exact BitVec.getLsbD_of_ge w j hj

end Word.Within

/-! ## Legal values -/

namespace Status

/-- The bits that mean something. -/
def definedMask : Word := 0x807E79BB

/-- A value the status register can have. -/
structure Legal (s : Status) : Prop where
  defined : Word.Within s.bits definedMask
  settled : s.Settled
  /-- MPP names a mode. -/
  mpp : s.mppField ≠ 0b10#2

/-- The bits that can have either value, whatever the others are. -/
def freePositions : List Nat :=
  [iePosition .user, iePosition .supervisor, iePosition .machine,
    piePosition .user, piePosition .supervisor, piePosition .machine, sppPosition,
    fsPosition, fsPosition + 1, mprvPosition, sumPosition, mxrPosition,
    tvmPosition, twPosition, tsrPosition]

/-- A bit has a meaning if it is free, or belongs to MPP, or is SD. -/
theorem getLsbD_definedMask {i : Nat} : definedMask.getLsbD i = true ↔
    i ∈ freePositions ∨ i ∈ ppPositions .machine ∨ i = sdPosition := by
  rw [← List.mem_singleton (b := sdPosition), ← List.mem_append, ← List.mem_append]
  exact getLsbD_iff_mem (by decide) (by decide)

/-- There is nothing in XS. -/
theorem Legal.xs {s : Status} (l : s.Legal) : s.bits.extractLsb' xsPosition 2 = 0 := by
  have clear : ∀ i < 2, definedMask.getLsbD (xsPosition + i) = false := by decide
  refine BitVec.eq_of_getLsbD_eq fun i hi => ?_
  rw [BitVec.getLsbD_extractLsb', l.defined _ (clear i hi), Bool.and_false]
  exact BitVec.getLsbD_zero.symm

/-! ## Writing -/

/-- What means nothing is out of reach. -/
theorem within_reached (s : Status) (value mask : Word) :
    Word.Within (s.reached value mask) definedMask := by
  intro i out
  rw [Bool.eq_false_iff]
  intro reached
  obtain ⟨plain | rfl | ⟨field, -⟩, -⟩ := (getLsbD_reached s value mask).mp reached
  · rw [getLsbD_of_submask (by decide) out] at plain
    cases plain
  · cases out
  · rw [getLsbD_definedMask.mpr (.inr (.inl field))] at out
    cases out

theorem Legal.written {s : Status} (l : s.Legal) (value mask : Word) :
    (s.written value mask).Legal := by
  refine ⟨fun i out => ?defined, settled_written s value mask, ?mpp⟩
  case defined =>
    have other : i ≠ sdPosition := by
      rintro rfl
      cases out
    rw [← bit, bit_written other, within_reached s value mask i out]
    exact l.defined i out
  case mpp =>
    rw [mppField_written]
    split
    case isTrue => exact l.mpp
    case isFalse named => exact named

/-- What a write of `value` to the bits of `mask` has to make of a register. -/
structure LawfulWrite (s : Status) (value mask : Word) (after : Status) : Prop where
  legal : after.Legal
  outside : ∀ i, i ≠ sdPosition → mask.getLsbD i = false → after.bit i = s.bit i
  inside : ∀ i ∈ freePositions, mask.getLsbD i = true → after.bit i = value.getLsbD i
  /-- MPP becomes what the value, inside the mask, and the register, outside of it, make of it;
  but it stays if that names no mode. -/
  mpp : after.mppField = if (s.replace mask value).mppField = 0b10#2 then s.mppField
    else (s.replace mask value).mppField

namespace LawfulWrite

variable {s t t' : Status} {value mask : Word}

theorem of_written (l : s.Legal) : LawfulWrite s value mask (s.written value mask) where
  legal := l.written value mask
  outside := fun _ other out => bit_written_out other out s value
  inside := by
    intro i free chosen
    have copied : ∀ j ∈ freePositions,
        (plainMask.getLsbD j = true ∨ j = sppPosition) ∧ j ≠ sdPosition := by decide
    obtain ⟨copied, other⟩ := copied i free
    rw [bit_written other, if_pos]
    exact (getLsbD_reached s value mask).mpr ⟨copied.imp_right .inl, chosen⟩
  mpp := mppField_written s value mask

/-- The laws leave no freedom. -/
theorem unique (w : LawfulWrite s value mask t) (w' : LawfulWrite s value mask t') : t = t' := by
  refine w.legal.settled.ext w'.legal.settled fun i other => ?_
  cases chosen : mask.getLsbD i with
  | false => rw [w.outside i other chosen, w'.outside i other chosen]
  | true =>
    cases meant : definedMask.getLsbD i with
    | false => exact (w.legal.defined i meant).trans (w'.legal.defined i meant).symm
    | true =>
      obtain free | field | sd := getLsbD_definedMask.mp meant
      · rw [w.inside i free chosen, w'.inside i free chosen]
      · exact bit_eq_of_mppField (w.mpp.trans w'.mpp.symm) field
      · exact absurd sd other

/-- What is there can be written without a change. -/
theorem back (l : s.Legal) : LawfulWrite s s.bits mask s where
  legal := l
  outside := fun _ _ _ => rfl
  inside := fun _ _ _ => rfl
  mpp := by rw [replace_self, ite_self]

/-- What was written can be written again without a change. -/
theorem again (w : LawfulWrite s value mask t) : LawfulWrite t value mask t where
  legal := w.legal
  outside := fun _ _ _ => rfl
  inside := w.inside
  mpp := by
    -- the part of MPP outside the mask is as it was, and so is the mode that is made of both
    have bit : ∀ i ∈ ppPositions .machine,
        (t.replace mask value).bit i = (s.replace mask value).bit i := by
      intro i field
      have other : i ≠ sdPosition := by
        rintro rfl
        exact absurd field (by decide)
      rw [bit_replace, bit_replace]
      split
      case isTrue => rfl
      case isFalse out => exact w.outside i other (Bool.eq_false_iff.mpr out)
    have merged : (t.replace mask value).mppField = (s.replace mask value).mppField :=
      mppField_congr (bit _ (by decide)) (bit _ (by decide))
    rw [merged]
    split
    case isTrue => rfl
    case isFalse named => rw [w.mpp, if_neg named]

end LawfulWrite

/-- A write through any mask does what it has to do to a legal register; writing back what is
there changes nothing, and writing twice is writing once. -/
theorem written_lawful {s : Status} (l : s.Legal) (value mask : Word) :
    LawfulWrite s value mask (s.written value mask) ∧
    s.written s.bits mask = s ∧
    (s.written value mask).written value mask = s.written value mask := by
  have lawful : LawfulWrite s value mask (s.written value mask) := .of_written l
  refine ⟨lawful, ?back, ?again⟩
  case back => exact LawfulWrite.unique (.of_written l) (.back l)
  case again => exact LawfulWrite.unique (.of_written lawful.legal) lawful.again

/-- A mask with one half of MPP: to clear that half would leave MPP of machine mode reserved, so
it stays.  XS is not written, FS is, and SD with it from outside the mask. -/
theorem written_lawful_of_half_mode :
    Legal ⟨0x1800⟩ ∧ written ⟨0x1800⟩ 0xE000 0xE800 = ⟨0x80007800⟩ ∧
      LawfulWrite ⟨0x1800⟩ 0xE000 0xE800 ⟨0x80007800⟩ := by
  have legal : Legal ⟨0x1800⟩ := ⟨by decide, by unfold Settled; decide, by decide⟩
  have after : written ⟨0x1800⟩ 0xE000 0xE800 = ⟨0x80007800⟩ := by decide
  have lawful := (written_lawful legal 0xE000 0xE800).1
  rw [after] at lawful
  exact ⟨legal, after, lawful⟩

end Status
end Rv32
