/-
# `Rv32.Proofs.Csr.File` — a control register reads back what was stored

The storage of the control registers is a function from numbers to words, and
storing changes it at one number.  The trap registers of the three modes are
distinct from each other and from the status register, so the words a trap saves
do not get into each other's way.
-/
import Rv32.Csr.File
import Rv32.Csr.Role

namespace Rv32

/-! ## Storing one word -/

namespace CsrFile

theorem get_eq (f : CsrFile) (c : Csr) (h : c.toNat < 4096) : f.get c = f.words[c.toNat] := rfl

@[simp] theorem get_set_self (f : CsrFile) (c : Csr) (value : Word) :
    (f.set c value).get c = value := by
  rw [get_eq _ c c.isLt]
  exact Vector.getElem_set_self c.isLt

theorem get_set_ne {c d : Csr} (h : d ≠ c) (f : CsrFile) (value : Word) :
    (f.set c value).get d = f.get d := by
  have hne : c.toNat ≠ d.toNat := fun e => h (BitVec.eq_of_toNat_eq e.symm)
  rw [get_eq _ d d.isLt, get_eq _ d d.isLt]
  exact Vector.getElem_set_ne c.isLt d.isLt hne

theorem get_setMasked_ne {c d : Csr} (h : d ≠ c) (f : CsrFile) (value mask : Word) :
    (f.setMasked c value mask).get d = f.get d :=
  get_set_ne h f _

@[simp] theorem get_init (c : Csr) : init.get c = 0 := by
  rw [get_eq _ c c.isLt]
  exact Vector.getElem_replicate c.isLt

/-! ## Storing the status register -/

@[simp] theorem status_setStatus (f : CsrFile) (s : Status) : (f.setStatus s).status = s := by
  simp [status, setStatus]

theorem get_mstatus (f : CsrFile) : f.get Csr.mstatus = f.status.bits := rfl

theorem get_setStatus_ne {d : Csr} (h : d ≠ Csr.mstatus) (f : CsrFile) (s : Status) :
    (f.setStatus s).get d = f.get d :=
  get_set_ne h f _

theorem status_set_ne {c : Csr} (h : c ≠ Csr.mstatus) (f : CsrFile) (value : Word) :
    (f.set c value).status = f.status := by
  simp only [status, get_set_ne h.symm]

end CsrFile

/-! ## Masks -/

/-- Storing the bits of a mask leaves the others as they were. -/
theorem getLsbD_masked (old value mask : Word) (i : Nat) :
    ((old &&& ~~~mask) ||| (value &&& mask)).getLsbD i =
      if mask.getLsbD i then value.getLsbD i else old.getLsbD i := by
  rcases Nat.lt_or_ge i 32 with hi | hi
  · simp only [BitVec.getLsbD_or, BitVec.getLsbD_and, BitVec.getLsbD_not, hi, decide_true,
      Bool.true_and]
    cases mask.getLsbD i <;> simp
  · simp only [BitVec.getLsbD_of_ge _ _ hi, Bool.false_eq_true, if_false]

/-- A mask is known by the positions of its bits. -/
theorem getLsbD_iff_mem {mask : Word} {positions : List Nat} (small : ∀ i ∈ positions, i < 32)
    (same : ∀ i < 32, mask.getLsbD i = true ↔ i ∈ positions) {i : Nat} :
    mask.getLsbD i = true ↔ i ∈ positions := by
  rcases Nat.lt_or_ge i 32 with hi | hi
  · exact same i hi
  · rw [BitVec.getLsbD_of_ge _ _ hi]
    exact iff_of_false Bool.false_ne_true fun inside => absurd (small i inside) (by omega)

/-- What a mask leaves out, a smaller mask leaves out too. -/
theorem getLsbD_of_submask {m m' : Word} (sub : m &&& ~~~m' = 0) {i : Nat}
    (out : m'.getLsbD i = false) : m.getLsbD i = false := by
  have h : (m &&& ~~~m').getLsbD i = false := by
    rw [sub]
    exact BitVec.getLsbD_zero
  rcases Nat.lt_or_ge i 32 with hi | hi
  · rw [BitVec.getLsbD_and, BitVec.getLsbD_not, out, decide_eq_true hi] at h
    exact (Bool.and_true _).symm.trans h
  · exact BitVec.getLsbD_of_ge m i hi

/-- A word has a bit in common with a mask of one bit if it has that bit. -/
theorem and_bit (w : Word) {code : Nat} (h : code < 32) :
    ((w &&& 1#32 <<< code) != 0) = w.getLsbD code := by
  rw [← BitVec.twoPow_eq, BitVec.and_twoPow]
  have hpow : BitVec.twoPow 32 code ≠ 0#32 := by
    rw [Ne, ← BitVec.toNat_inj, BitVec.toNat_twoPow_of_lt h]
    exact Nat.ne_of_gt (Nat.two_pow_pos code)
  cases w.getLsbD code with
  | true => exact bne_iff_ne.mpr hpow
  | false => rfl

/-! ## The trap registers of a mode -/

namespace Csr

theorem mepc_ne_mcause (level : Privilege) : mepc.atLevel level ≠ mcause.atLevel level := by
  cases level <;> decide

theorem mepc_ne_mtval (level : Privilege) : mepc.atLevel level ≠ mtval.atLevel level := by
  cases level <;> decide

theorem mcause_ne_mtval (level : Privilege) : mcause.atLevel level ≠ mtval.atLevel level := by
  cases level <;> decide

end Csr
end Rv32
