/-
# `Rv32.Proofs.Word` — a double word and its halves

A double word is put together from two words, and is what they are: each half can be
replaced without the other one noticing.
-/
import Rv32.Word

namespace Rv32.Dword

theorem low_ofHalves (high low : Word) : Dword.low (ofHalves high low) = low :=
  BitVec.setWidth_append_eq_right

theorem high_ofHalves (high low : Word) : Dword.high (ofHalves high low) = high := by
  refine BitVec.eq_of_getLsbD_eq fun i hi => ?_
  rw [Dword.high, ofHalves, BitVec.getLsbD_setWidth, BitVec.getLsbD_ushiftRight,
    BitVec.getLsbD_append]
  simp [hi]

theorem ofHalves_high_low (d : Dword) : ofHalves (Dword.high d) (Dword.low d) = d := by
  refine BitVec.eq_of_getLsbD_eq fun i hi => ?_
  rw [ofHalves, BitVec.getLsbD_append]
  split
  case isTrue inLow => rw [Dword.low, BitVec.getLsbD_setWidth, decide_eq_true inLow, Bool.true_and]
  case isFalse inHigh =>
    rw [Dword.high, BitVec.getLsbD_setWidth, BitVec.getLsbD_ushiftRight,
      decide_eq_true (by omega), Bool.true_and, Nat.add_sub_cancel' (Nat.le_of_not_lt inHigh)]

end Rv32.Dword
