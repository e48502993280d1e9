/-
# `Rv32.Proofs.Register.File` — what writing a register does to the others
-/
import Rv32.Register.File

namespace Rv32.RegisterFile

/-- A register that was written has the value, unless it is the one that reads zero. -/
theorem x_setX (f : RegisterFile) (r q : Reg) (value : Word) :
    (f.setX r value).x q = if q = r ∧ r ≠ Reg.zero then value else f.x q := by
  by_cases zero : r = Reg.zero
  case pos => rw [setX, if_pos zero, if_neg fun both => both.2 zero]
  case neg =>
    rw [setX, if_neg zero]
    by_cases same : q = r
    case pos =>
      rw [if_pos ⟨same, zero⟩, same]
      exact Vector.getElem_set_self r.isLt
    case neg =>
      rw [if_neg fun both => same both.1]
      have apart : r.toNat ≠ q.toNat := fun equal => same (BitVec.eq_of_toNat_eq equal).symm
      exact Vector.getElem_set_ne r.isLt q.isLt apart

/-- Register 0 is never written. -/
theorem zero_setX (f : RegisterFile) (r : Reg) (value : Word) :
    (f.setX r value).x Reg.zero = f.x Reg.zero := by
  rw [x_setX, if_neg]
  rintro ⟨rfl, ne⟩
  exact ne rfl

@[simp] theorem pc_setX (f : RegisterFile) (r : Reg) (value : Word) :
    (f.setX r value).pc = f.pc := by
  unfold setX
  split <;> rfl

@[simp] theorem floats_setX (f : RegisterFile) (r : Reg) (value : Word) :
    (f.setX r value).floats = f.floats := by
  unfold setX
  split <;> rfl

theorem f_setF (file : RegisterFile) (r q : Reg) (value : Dword) :
    (file.setF r value).f q = if q = r then value else file.f q := by
  by_cases same : q = r
  case pos =>
    rw [if_pos same, same]
    exact Vector.getElem_set_self r.isLt
  case neg =>
    rw [if_neg same]
    have apart : r.toNat ≠ q.toNat := fun equal => same (BitVec.eq_of_toNat_eq equal).symm
    exact Vector.getElem_set_ne r.isLt q.isLt apart

end Rv32.RegisterFile
