/-
# `Rv32.Proofs.Csr.Status` — the status register, bit by bit

Every change of the status register is a change of some of its bits, so what a
change leaves alone is said of single bits: a setter gives its own bits their new
value, and `bit` is the same as before everywhere else.  The fields that decide how
memory is accessed are bits too, and so are covered by the same rules.

MPP is the one field of two bits that names a mode.  It reads back the mode it was
set to.
-/
import Rv32.Proofs.Csr.File

namespace Rv32.Status

/-! ## Masks and single bits -/

theorem bit_replace (s : Status) (mask value : Word) (i : Nat) :
    (s.replace mask value).bit i = if mask.getLsbD i then value.getLsbD i else s.bit i :=
  getLsbD_masked s.bits value mask i

/-- Bits outside the mask keep their value. -/
theorem bit_replace_out {mask : Word} {i : Nat} (h : mask.getLsbD i = false) (s : Status)
    (value : Word) : (s.replace mask value).bit i = s.bit i := by
  rw [bit_replace, h]
  rfl

theorem getLsbD_one_shiftLeft (i j : Nat) :
    (1#32 <<< i).getLsbD j = (decide (j < 32) && decide (j = i)) := by
  rw [BitVec.getLsbD_shiftLeft]
  by_cases h : j = i
  · subst h
    simp
  · rcases Nat.lt_or_gt_of_ne h with hlt | hgt
    · simp [h, hlt]
    · have : j - i ≠ 0 := by omega
      simp [h, this, BitVec.getLsbD_one]

theorem bit_setBit {i : Nat} (hi : i < 32) (s : Status) (value : Bool) (j : Nat) :
    (s.setBit i value).bit j = if j = i then value else s.bit j := by
  rw [setBit, bit_replace, getLsbD_one_shiftLeft]
  by_cases h : j = i
  · subst h
    cases value <;> simp [hi]
  · simp [h]

theorem bit_setBit_self {i : Nat} (hi : i < 32) (s : Status) (value : Bool) :
    (s.setBit i value).bit i = value := by
  rw [bit_setBit hi, if_pos rfl]

theorem bit_setBit_ne {i j : Nat} (hi : i < 32) (h : j ≠ i) (s : Status) (value : Bool) :
    (s.setBit i value).bit j = s.bit j := by
  rw [bit_setBit hi, if_neg h]

/-- A register is known by its bits. -/
theorem ext_bit {s t : Status} (same : ∀ i, s.bit i = t.bit i) : s = t :=
  congrArg mk (BitVec.eq_of_getLsbD_eq fun i _ => same i)

/-! ## Replacing bits -/

/-- Only the bits of the mask are looked at. -/
theorem replace_congr {mask value value' : Word}
    (same : ∀ i, mask.getLsbD i = true → value.getLsbD i = value'.getLsbD i) (s : Status) :
    s.replace mask value = s.replace mask value' := by
  refine ext_bit fun i => ?_
  rw [bit_replace, bit_replace]
  split
  case isTrue reached => exact same i reached
  case isFalse => rfl

theorem replace_zero (s : Status) (value : Word) : s.replace 0 value = s :=
  ext_bit fun _ => bit_replace_out BitVec.getLsbD_zero s value

/-- Putting back what is there changes nothing. -/
theorem replace_self (s : Status) (mask : Word) : s.replace mask s.bits = s := by
  refine ext_bit fun i => ?_
  rw [bit_replace]
  exact ite_self _

theorem replace_replace (s : Status) (mask mask' value : Word) :
    (s.replace mask value).replace mask' value = s.replace (mask ||| mask') value := by
  refine ext_bit fun i => ?_
  rw [bit_replace, bit_replace, bit_replace, BitVec.getLsbD_or]
  cases mask.getLsbD i <;> cases mask'.getLsbD i <;> rfl

/-- Of bits taken from the same register after a replacement, only those that it replaced are
new. -/
theorem replace_replaced (s : Status) (field mask value : Word) :
    s.replace field (s.replace mask value).bits = s.replace (field &&& mask) value := by
  refine ext_bit fun i => ?_
  have source : (s.replace mask value).bits.getLsbD i = _ := bit_replace s mask value i
  rw [bit_replace, bit_replace, BitVec.getLsbD_and, source]
  cases field.getLsbD i <;> cases mask.getLsbD i <;> rfl

/-! ## The fields of a mode -/

theorem iePosition_lt (level : Privilege) : iePosition level < 32 := by cases level <;> decide

theorem piePosition_lt (level : Privilege) : piePosition level < 32 := by cases level <;> decide

/-- The bits of the field that says where a mode was entered from. -/
def ppPositions : Privilege → List Nat
  | .machine => [mppPosition, mppPosition + 1]
  | .supervisor => [sppPosition]
  | .user => []

theorem bit_setIe (s : Status) (level : Privilege) (value : Bool) (j : Nat) :
    (s.setIe level value).bit j = if j = iePosition level then value else s.bit j :=
  bit_setBit (iePosition_lt level) s value j

theorem bit_setPie (s : Status) (level : Privilege) (value : Bool) (j : Nat) :
    (s.setPie level value).bit j = if j = piePosition level then value else s.bit j :=
  bit_setBit (piePosition_lt level) s value j

theorem bit_setMprv (s : Status) (value : Bool) (j : Nat) :
    (s.setMprv value).bit j = if j = mprvPosition then value else s.bit j :=
  bit_setBit (by decide) s value j

theorem privilege?_ofPrivilege (p : Privilege) :
    (PrivilegeField.ofPrivilege p).privilege? = .ok p := by
  cases p <;> rfl

theorem ofBits_bits (p : Privilege) : PrivilegeField.ofBits p.bits = .ofPrivilege p := by
  cases p <;> rfl

/-- The bits of the mask of MPP. -/
theorem getLsbD_mppMask {i : Nat} :
    (0b11#32 <<< mppPosition).getLsbD i = true ↔ i ∈ ppPositions .machine :=
  getLsbD_iff_mem (by decide) (by decide)

/-- Setting where a mode was entered from changes that field only. -/
theorem bit_setPp_out {level : Privilege} {j : Nat} (h : j ∉ ppPositions level) (s : Status)
    (value : Privilege) : (s.setPp level value).bit j = s.bit j := by
  cases level with
  | machine =>
      have hout : (0b11#32 <<< mppPosition).getLsbD j = false := by
        rwa [Bool.eq_false_iff, Ne, getLsbD_mppMask]
      simp only [setPp, setMpp, privilege?_ofPrivilege]
      exact bit_replace_out hout s _
  | supervisor =>
      have hne : j ≠ sppPosition := by simpa [ppPositions] using h
      cases value with
      | user => exact bit_setBit_ne (by decide) hne s false
      | supervisor => exact bit_setBit_ne (by decide) hne s true
      | machine => rfl
  | user => rfl

theorem extractLsb'_mpp (old field : Word) :
    ((old &&& ~~~(0b11#32 <<< mppPosition)) |||
      (field <<< mppPosition &&& 0b11#32 <<< mppPosition)).extractLsb' mppPosition 2 =
      field.setWidth 2 := by
  apply BitVec.eq_of_getLsbD_eq
  intro i hi
  have hmask : (0b11#32 <<< mppPosition).getLsbD (mppPosition + i) = true := by
    simp only [getLsbD_mppMask, ppPositions, List.mem_cons, List.not_mem_nil, or_false]
    omega
  have hlt : mppPosition + i < 32 := by
    simp only [mppPosition]
    omega
  rw [BitVec.getLsbD_extractLsb', getLsbD_masked, hmask]
  have hnlt : ¬mppPosition + i < mppPosition := by omega
  simp only [hi, hlt, hnlt, decide_true, decide_false, Bool.not_false, Bool.true_and, if_true,
    BitVec.getLsbD_shiftLeft, BitVec.getLsbD_setWidth, Nat.add_sub_cancel_left]

theorem mpp_setMpp (s : Status) (p : Privilege) : (s.setMpp (.ofPrivilege p)).mpp = p := by
  have hbits : ((p.bits.setWidth 32 : Word)).setWidth 2 = p.bits := by cases p <;> rfl
  simp only [mpp, setMpp, privilege?_ofPrivilege, replace]
  rw [extractLsb'_mpp, hbits, ofBits_bits, privilege?_ofPrivilege]

/-- A mode reads back where it was entered from, which is never from above. -/
theorem pp_setPp {level value : Privilege} (h : value ≤ level) (s : Status) :
    (s.setPp level value).pp level = value := by
  cases level with
  | machine => exact mpp_setMpp s value
  | supervisor =>
      cases value with
      | user => simp only [pp, spp, setPp, PrivilegeField.ofPrivilege, setSpp,
          bit_setBit_self (show sppPosition < 32 by decide), Bool.false_eq_true, if_false]
      | supervisor => simp only [pp, spp, setPp, PrivilegeField.ofPrivilege, setSpp,
          bit_setBit_self (show sppPosition < 32 by decide), if_true]
      | machine => exact absurd h (by decide)
  | user =>
      cases value with
      | user => rfl
      | supervisor => exact absurd h (by decide)
      | machine => exact absurd h (by decide)

end Rv32.Status
