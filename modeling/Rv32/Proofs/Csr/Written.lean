/-
# `Rv32.Proofs.Csr.Written` — a write of the status register, in one equation

A write takes the bits of its mask from a value, but not all in the same way: most of them
are copied, SPP and MPP are set as fields, and SD is not taken from the value at all.  It comes
to this: a write replaces those bits of its mask that it reaches (`reached`), and then settles
SD (`written_eq`).  All that is said of a write follows from the equation.

A mask may have one half of MPP only.  Then the mode that is written is the one that both
halves name, the new one and the old one; and MPP is reached only if there is such a mode.
-/
import Rv32.Proofs.Csr.Status

namespace Rv32.Status

/-! ## Fields of two bits -/

/-- A field of two bits is known by them. -/
theorem twoBits_congr {s s' : Status} {position : Nat} (low : s.bit position = s'.bit position)
    (high : s.bit (position + 1) = s'.bit (position + 1)) :
    s.bits.extractLsb' position 2 = s'.bits.extractLsb' position 2 := by
  apply BitVec.eq_of_getLsbD_eq
  intro i hi
  simp only [BitVec.getLsbD_extractLsb', hi, decide_true, Bool.true_and]
  have : i = 0 ∨ i = 1 := by omega
  rcases this with rfl | rfl
  · exact low
  · exact high

/-! ## SD -/

/-- SD says that FS is 3. -/
def Settled (s : Status) : Prop := s.bit sdPosition = (s.fs == 0b11#2)

theorem fs_congr {s s' : Status} (low : s.bit fsPosition = s'.bit fsPosition)
    (high : s.bit (fsPosition + 1) = s'.bit (fsPosition + 1)) : s.fs = s'.fs :=
  twoBits_congr low high

/-- A change that leaves SD and FS alone keeps SD right. -/
theorem Settled.congr {s s' : Status} (h : s.Settled)
    (same : ∀ i ∈ [fsPosition, fsPosition + 1, sdPosition], s'.bit i = s.bit i) : s'.Settled := by
  have hfs : s'.fs = s.fs := fs_congr (same _ (by decide)) (same _ (by decide))
  rw [Settled, hfs, same sdPosition (by decide)]
  exact h

/-- Where SD is right, it is as FS is. -/
theorem Settled.bit_sd {s s' : Status} (h : s.Settled) (h' : s'.Settled)
    (low : s.bit fsPosition = s'.bit fsPosition)
    (high : s.bit (fsPosition + 1) = s'.bit (fsPosition + 1)) :
    s.bit sdPosition = s'.bit sdPosition := by
  rw [h, h', fs_congr low high]

/-- Where SD is right, the other bits tell all. -/
theorem Settled.ext {s s' : Status} (h : s.Settled) (h' : s'.Settled)
    (same : ∀ i, i ≠ sdPosition → s.bit i = s'.bit i) : s = s' := by
  refine ext_bit fun i => ?_
  by_cases sd : i = sdPosition
  · subst sd
    exact h.bit_sd h' (same _ (by decide)) (same _ (by decide))
  · exact same i sd

theorem bit_settle_out {i : Nat} (h : i ≠ sdPosition) (s : Status) : s.settle.bit i = s.bit i :=
  bit_setBit_ne (by decide) h s _

theorem settled_settle (s : Status) : s.settle.Settled := by
  have hfs : s.settle.fs = s.fs :=
    fs_congr (bit_settle_out (by decide) s) (bit_settle_out (by decide) s)
  rw [Settled, hfs]
  exact bit_setBit_self (by decide) s _

/-! ## MPP -/

/-- The two bits of MPP, which may name a mode or not. -/
def mppField (s : Status) : BitVec 2 := s.bits.extractLsb' mppPosition 2

theorem mppField_congr {s s' : Status} (low : s.bit mppPosition = s'.bit mppPosition)
    (high : s.bit (mppPosition + 1) = s'.bit (mppPosition + 1)) : s.mppField = s'.mppField :=
  twoBits_congr low high

theorem bit_eq_of_mppField {s s' : Status} (same : s.mppField = s'.mppField) {i : Nat}
    (field : i ∈ ppPositions .machine) : s.bit i = s'.bit i := by
  have read (t : Status) (half : Nat) (inside : half < 2) :
      t.bit (mppPosition + half) = t.mppField.getLsbD half := by
    rw [mppField, BitVec.getLsbD_extractLsb', decide_eq_true inside]
    exact (Bool.true_and _).symm
  have both (half : Nat) (inside : half < 2) :
      s.bit (mppPosition + half) = s'.bit (mppPosition + half) := by
    rw [read s half inside, read s' half inside, same]
  simp only [ppPositions, List.mem_cons, List.not_mem_nil, or_false] at field
  obtain rfl | rfl := field
  · exact both 0 (by decide)
  · exact both 1 (by decide)

/-! ## Fields set from a word -/

/-- SPP set to a bit of a word. -/
theorem setSpp_of (s : Status) (word : Word) :
    s.setSpp (if word.getLsbD sppPosition then .supervisor else .user) =
      s.replace (1#32 <<< sppPosition) word := by
  have set (up : Bool) (read : word.getLsbD sppPosition = up) :
      s.setBit sppPosition up = s.replace (1#32 <<< sppPosition) word := by
    refine replace_congr (fun i inside => ?_) s
    rw [getLsbD_one_shiftLeft, Bool.and_eq_true, decide_eq_true_eq, decide_eq_true_eq] at inside
    rw [inside.2, read]
    cases up <;> rfl
  cases read : word.getLsbD sppPosition
  · exact set false read
  · exact set true read

/-- MPP set to two bits of a word, which have to name a mode. -/
theorem setMpp_of (s : Status) (word : Word) :
    s.setMpp (.ofBits (word.extractLsb' mppPosition 2)) =
      s.replace (if word.extractLsb' mppPosition 2 = 0b10#2 then 0 else 0b11#32 <<< mppPosition)
        word := by
  have set (p : Privilege) (read : word.extractLsb' mppPosition 2 = p.bits) :
      s.setMpp (.ofPrivilege p) = s.replace (0b11#32 <<< mppPosition) word := by
    rw [setMpp, privilege?_ofPrivilege]
    refine replace_congr (fun i inside => ?_) s
    rw [← read]
    simp only [getLsbD_mppMask, ppPositions, List.mem_cons, List.not_mem_nil, or_false] at inside
    obtain rfl | rfl := inside <;> simp [mppPosition]
  have all : ∀ field : BitVec 2, field = 0b10#2 ∨ field = Privilege.user.bits ∨
      field = Privilege.supervisor.bits ∨ field = Privilege.machine.bits := by decide
  obtain read | read | read | read := all (word.extractLsb' mppPosition 2)
  case inl =>
    rw [if_pos read, read, replace_zero]
    rfl
  all_goals
    rw [if_neg (by rw [read]; decide), ← set _ read, read, ofBits_bits]

/-! ## The equation -/

/-- The bits of the mask that a write changes: those that are copied, and SPP, and MPP if it
would then name a mode. -/
def reached (s : Status) (value mask : Word) : Word :=
  (plainMask ||| 1#32 <<< sppPosition |||
    if (s.replace mask value).mppField = 0b10#2 then 0 else 0b11#32 <<< mppPosition) &&& mask

/-- A field that the mask has no part of can be left out or not. -/
theorem replace_skipped {field mask : Word} (apart : field &&& mask = 0) (s : Status)
    (part value : Word) : s.replace part (s.replace mask value).bits =
      s.replace (part ||| field) (s.replace mask value).bits := by
  rw [replace_replaced, replace_replaced, BitVec.and_or_distrib_right, apart]
  exact congrArg (s.replace · value) BitVec.or_zero.symm

theorem sppMask_and_eq_zero {mask : Word} (skipped : mask.getLsbD sppPosition = false) :
    1#32 <<< sppPosition &&& mask = 0 := by
  rw [BitVec.and_comm]
  exact bne_eq_false_iff_eq.mp ((and_bit mask (by decide)).trans skipped)

theorem mppMask_and_eq_zero {mask : Word} (skipped : mask.extractLsb' mppPosition 2 = 0) :
    0b11#32 <<< mppPosition &&& mask = 0 := by
  refine BitVec.eq_of_getLsbD_eq fun i _ => ?_
  refine Eq.trans ?_ BitVec.getLsbD_zero.symm
  rw [BitVec.getLsbD_and, Bool.and_eq_false_imp, getLsbD_mppMask]
  intro inside
  have same : (⟨mask⟩ : Status).mppField = (⟨0⟩ : Status).mppField := skipped
  exact (bit_eq_of_mppField same inside).trans BitVec.getLsbD_zero

theorem written_eq (s : Status) (value mask : Word) :
    s.written value mask = (s.replace (s.reached value mask) value).settle := by
  -- a field is set to its bits in this word; one that the mask misses is not set, but there its
  -- bits are the old ones
  let merged := (s.replace mask value).bits
  let mpp : Word :=
    if merged.extractLsb' mppPosition 2 = 0b10#2 then 0 else 0b11#32 <<< mppPosition
  have plain : s.replace (plainMask &&& mask) merged = s.replace plainMask merged := by
    rw [replace_replaced, replace_replaced, BitVec.and_assoc, BitVec.and_self]
  have withSpp (part : Word) : (if mask.getLsbD sppPosition then
        (s.replace part merged).setSpp
          (if merged.getLsbD sppPosition then .supervisor else .user)
      else s.replace part merged) = s.replace (part ||| 1#32 <<< sppPosition) merged := by
    split
    case isTrue => rw [setSpp_of, replace_replace]
    case isFalse skipped =>
      exact replace_skipped (sppMask_and_eq_zero (Bool.eq_false_iff.mpr skipped)) s part value
  have withMpp (part : Word) : (if mask.extractLsb' mppPosition 2 ≠ 0 then
        (s.replace part merged).setMpp (.ofBits (merged.extractLsb' mppPosition 2))
      else s.replace part merged) = s.replace (part ||| mpp) merged := by
    split
    case isTrue => rw [setMpp_of, replace_replace]
    case isFalse skipped =>
      refine replace_skipped ?_ s part value
      have apart := mppMask_and_eq_zero (Decidable.not_not.mp skipped)
      simp only [mpp]
      split
      · exact BitVec.zero_and
      · exact apart
  calc s.written value mask
      = (s.replace (plainMask ||| 1#32 <<< sppPosition ||| mpp) merged).settle := by
        rw [← withMpp, ← withSpp, ← plain]
        rfl
    _ = (s.replace (s.reached value mask) value).settle := by
        rw [replace_replaced]
        rfl

/-! ## What follows -/

theorem settled_written (s : Status) (value mask : Word) : (s.written value mask).Settled := by
  rw [written_eq]
  exact settled_settle _

theorem getLsbD_reached (s : Status) (value mask : Word) {i : Nat} :
    (s.reached value mask).getLsbD i = true ↔
      (plainMask.getLsbD i = true ∨ i = sppPosition ∨
        i ∈ ppPositions .machine ∧ (s.replace mask value).mppField ≠ 0b10#2) ∧
      mask.getLsbD i = true := by
  have spp : (1#32 <<< sppPosition).getLsbD i = true ↔ i = sppPosition := by
    rw [getLsbD_one_shiftLeft, Bool.and_eq_true, decide_eq_true_eq, decide_eq_true_eq]
    exact ⟨And.right, fun here => ⟨here ▸ by decide, here⟩⟩
  have mpp : (if (s.replace mask value).mppField = 0b10#2 then (0 : Word)
        else 0b11#32 <<< mppPosition).getLsbD i = true ↔
      i ∈ ppPositions .machine ∧ (s.replace mask value).mppField ≠ 0b10#2 := by
    split
    case isTrue reserved => simp [reserved]
    case isFalse named => rw [getLsbD_mppMask, and_iff_left named]
  simp only [reached, BitVec.getLsbD_and, BitVec.getLsbD_or, Bool.and_eq_true, Bool.or_eq_true,
    spp, mpp, or_assoc]

/-- Every bit but SD has its new value if the write reaches it, and else the old one. -/
theorem bit_written {i : Nat} (not_sd : i ≠ sdPosition) (s : Status) (value mask : Word) :
    (s.written value mask).bit i =
      if (s.reached value mask).getLsbD i then value.getLsbD i else s.bit i := by
  rw [written_eq, bit_settle_out not_sd, bit_replace]

/-- Up to SD, every bit that a write changes is one that was written to. -/
theorem bit_written_or {i : Nat} (not_sd : i ≠ sdPosition) (s : Status) (value mask : Word) :
    (s.written value mask).bit i = s.bit i ∨
      mask.getLsbD i = true ∧ (s.written value mask).bit i = value.getLsbD i := by
  rw [bit_written not_sd]
  split
  case isTrue reached => exact .inr ⟨((getLsbD_reached s value mask).mp reached).2, rfl⟩
  case isFalse => exact .inl rfl

/-- Up to SD, what is outside the mask stays. -/
theorem bit_written_out {i : Nat} (not_sd : i ≠ sdPosition) {mask : Word}
    (out : mask.getLsbD i = false) (s : Status) (value : Word) :
    (s.written value mask).bit i = s.bit i := by
  refine (bit_written_or not_sd s value mask).resolve_right fun written => ?_
  rw [out] at written
  cases written.1

/-- SD stays too, if it was right and the mask has FS only together with SD. -/
theorem bit_written_out_of_settled {mask : Word} (noFs : mask.getLsbD sdPosition = false →
      mask.getLsbD fsPosition = false ∧ mask.getLsbD (fsPosition + 1) = false)
    {s : Status} (settled : s.Settled) (value : Word) {i : Nat} (out : mask.getLsbD i = false) :
    (s.written value mask).bit i = s.bit i := by
  by_cases sd : i = sdPosition
  case neg => exact bit_written_out sd out s value
  case pos =>
    subst sd
    obtain ⟨low, high⟩ := noFs out
    exact (settled_written s value mask).bit_sd settled
      (bit_written_out (by decide) low s value) (bit_written_out (by decide) high s value)

/-- MPP takes what the mask makes of it, if that names a mode. -/
theorem mppField_written (s : Status) (value mask : Word) : (s.written value mask).mppField =
    if (s.replace mask value).mppField = 0b10#2 then s.mppField
    else (s.replace mask value).mppField := by
  have apart : ∀ i ∈ ppPositions .machine,
      plainMask.getLsbD i = false ∧ i ≠ sppPosition ∧ i ≠ sdPosition := by decide
  have bit : ∀ i ∈ ppPositions .machine, (s.written value mask).bit i =
      if (s.replace mask value).mppField ≠ 0b10#2 ∧ mask.getLsbD i = true
      then value.getLsbD i else s.bit i := by
    intro i field
    obtain ⟨plain, spp, sd⟩ := apart i field
    simp only [bit_written sd, getLsbD_reached, plain, spp, field, Bool.false_eq_true, false_or,
      true_and]
  split
  case isTrue reserved =>
    have kept : ∀ i ∈ ppPositions .machine, (s.written value mask).bit i = s.bit i :=
      fun i field => (bit i field).trans (if_neg fun reached => reached.1 reserved)
    exact mppField_congr (kept _ (by decide)) (kept _ (by decide))
  case isFalse named =>
    have taken : ∀ i ∈ ppPositions .machine,
        (s.written value mask).bit i = (s.replace mask value).bit i := by
      intro i field
      rw [bit i field, bit_replace]
      simp only [ne_eq, named, not_false_eq_true, true_and]
    exact mppField_congr (taken _ (by decide)) (taken _ (by decide))

/-- A mode that is reserved is not written. -/
theorem mppField_written_reserved (s : Status) {value : Word}
    (reserved : value.extractLsb' mppPosition 2 = 0b10#2) :
    (s.written value (BitVec.allOnes 32)).mppField = s.mppField := by
  have all : s.replace (BitVec.allOnes 32) value = ⟨value⟩ := by
    rw [replace, BitVec.not_allOnes, BitVec.and_zero, BitVec.zero_or, BitVec.and_allOnes]
  rw [mppField_written, if_pos (all ▸ reserved)]

end Rv32.Status
