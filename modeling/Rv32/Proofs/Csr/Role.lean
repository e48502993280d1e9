/-
# `Rv32.Proofs.Csr.Role` — whose views the registers with a view are

Three registers are shown to each mode as far as it may see them.  The number of
such a view asks for just the mode whose view it is; so whoever may use the view of
a mode has at least that mode.
-/
import Mathlib.Logic.Basic
import Rv32.Csr.Role

namespace Rv32

/-- The mode whose view of another register a register is. -/
def CsrRole.view? : CsrRole → Option Privilege
  | .status view | .enabled view | .pending view => some view
  | _ => none

namespace PrivilegeField

theorem rank_ofPrivilege (p : Privilege) : (ofPrivilege p).rank = p.rank := by cases p <;> rfl

theorem exceeds_ofPrivilege (p q : Privilege) : (ofPrivilege p).exceeds q = decide (q < p) := by
  simp only [exceeds, rank_ofPrivilege]
  rfl

end PrivilegeField

namespace Csr

theorem requiredPrivilege_of_view {c : Csr} {view : Privilege} (h : c.role.view? = some view) :
    c.requiredPrivilege = .ofPrivilege view := by
  obtain ⟨r, hr⟩ : ∃ r, c.role = r := ⟨_, rfl⟩
  rw [hr] at h
  unfold role at hr
  -- one round for each condition of `role`
  repeat
    rcases ite_eq_iff.mp hr with ⟨hc, rfl⟩ | ⟨-, hr⟩
    · cases h <;> cases hc <;> rfl
  subst hr
  cases h

/-- A view that may be used is the view of a mode no higher than the user's. -/
theorem view_le {c : Csr} {view p : Privilege} (h : c.role.view? = some view)
    (may : c.requiredPrivilege.exceeds p = false) : view ≤ p := by
  rw [requiredPrivilege_of_view h, PrivilegeField.exceeds_ofPrivilege, decide_eq_false_iff_not]
    at may
  exact Nat.le_of_not_lt may

end Csr
end Rv32
