/-
# `Rv32.Proofs.Memory.Cells` — cells read back what was written

`Cells.get` is the view through which memory is seen.  Replacing one byte changes it
at one offset, whether or not the block of the offset existed before, and replacing a
list of bytes changes it at as many offsets as there are bytes.  Cutting off makes it zero
from an offset on.

The cells of a memory of `n` bytes hold nothing past these, not even blocks of zeros
(`Cells.Fits`).  Writing into them keeps it so, and cutting them off where they end changes
nothing at all.
-/
import Rv32.Memory.Cells

namespace Rv32

namespace Block

theorem index_lt (b : Block) (i : Fin 4096) : i.val < b.bytes.data.size := by
  have hsize : b.bytes.data.size = 4096 := b.size_eq
  rw [hsize]
  exact i.isLt

theorem get_eq (b : Block) (i : Fin 4096) (h : i.val < b.bytes.data.size) :
    b.get i = b.bytes.data[i.val].toBitVec := rfl

theorem get_zero (i : Fin 4096) : zero.get i = 0 := by
  rw [get_eq zero i (zero.index_lt i)]
  exact congrArg UInt8.toBitVec (Array.getElem_replicate _)

theorem get_set (b : Block) (i j : Fin 4096) (value : Byte) :
    (b.set i value).get j = if j = i then value else b.get j := by
  have hi := b.index_lt i
  have hj := b.index_lt j
  have hset : j.val < (b.bytes.data.set i.val (.ofBitVec value) hi).size :=
    (b.set i value).index_lt j
  show (b.bytes.data.set i.val (.ofBitVec value) hi)[j.val].toBitVec = _
  rw [Array.getElem_set, get_eq b j hj]
  by_cases h : i.val = j.val
  · rw [if_pos h, if_pos (Fin.ext h.symm)]
  · rw [if_neg h, if_neg fun heq => h (congrArg Fin.val heq.symm)]

/-- A block is what its bytes are. -/
theorem ext_get {b b' : Block} (h : ∀ i, b.get i = b'.get i) : b = b' := by
  obtain ⟨⟨data⟩, size⟩ := b
  obtain ⟨⟨data'⟩, size'⟩ := b'
  have hdata : data = data' := by
    refine Array.ext (Eq.trans size size'.symm) fun i hi hi' => ?_
    have hsize : i < 4096 := Nat.lt_of_lt_of_eq hi size
    exact UInt8.toBitVec_inj.mp (h ⟨i, hsize⟩)
  subst hdata
  rfl

theorem get_truncate (b : Block) (n : Nat) (i : Fin 4096) :
    (b.truncate n).get i = if n ≤ i.val then 0 else b.get i := by
  have hfold : ∀ (l : List (Fin 4096)) (b : Block),
      (l.foldl (fun b i => if n ≤ i.val then b.set i 0 else b) b).get i =
        if i ∈ l ∧ n ≤ i.val then 0 else b.get i := by
    intro l
    induction l with
    | nil => exact fun b => by simp
    | cons j rest ih =>
        intro b
        rw [List.foldl_cons, ih]
        by_cases hj : n ≤ j.val
        · by_cases hij : i = j
          · subst hij
            simp [hj, get_set]
          · simp [hj, hij, get_set]
        · have hij : n ≤ i.val → i ≠ j := fun hi heq => hj (heq ▸ hi)
          by_cases hi : n ≤ i.val
          · simp [hj, hi, hij hi]
          · simp [hj, hi]
  rw [truncate, hfold]
  simp only [List.mem_finRange, true_and]

end Block

namespace Cells

/-- An offset is a block and a place in it. -/
theorem eq_of_block_of_place {o p : Nat} (hb : block o = block p) (hp : place o = place p) :
    o = p := by
  have hp' : o % 4096 = p % 4096 := congrArg Fin.val hp
  simp only [block] at hb
  omega

theorem get_reach (c : Cells) (n o : Nat) : (c.reach n).get o = c.get o := by
  simp only [get, reach, Array.getElem?_append]
  by_cases h : block o < c.blocks.size
  · simp only [h, if_true]
  · have hnone : c.blocks[block o]? = none := Array.getElem?_eq_none (Nat.le_of_not_lt h)
    simp only [h, if_false, hnone, Array.getElem?_replicate]
    split
    · rename_i b hb
      split at hb
      · cases hb
        exact Block.get_zero _
      · cases hb
    · rfl

/-- Replacing a byte in a block that exists. -/
theorem get_modify (c : Cells) {offset : Nat} (h : block offset < c.blocks.size) (value : Byte)
    (o : Nat) :
    (Cells.mk (c.blocks.modify (block offset) (·.set (place offset) value))).get o =
      if o = offset then value else c.get o := by
  simp only [get, Array.getElem?_modify]
  by_cases hb : block offset = block o
  · obtain ⟨b, hblock⟩ : ∃ b, c.blocks[block o]? = some b := by
      rw [← hb]
      exact ⟨_, Array.getElem?_eq_getElem h⟩
    simp only [hb, if_true, hblock, Option.map_some, Block.get_set]
    by_cases hp : place o = place offset
    · rw [if_pos hp, if_pos (eq_of_block_of_place hb.symm hp)]
    · rw [if_neg hp, if_neg fun heq => hp (congrArg place heq)]
  · have hne : o ≠ offset := fun heq => hb (congrArg block heq.symm)
    simp only [hb, if_false, hne]

theorem get_set (c : Cells) (offset : Nat) (value : Byte) (o : Nat) :
    (c.set offset value).get o = if o = offset then value else c.get o := by
  unfold set
  by_cases h : block offset < c.blocks.size
  · simp only [h, if_true]
    exact get_modify c h value o
  · have hsize : block offset < (c.reach (block offset + 1)).blocks.size := by
      simp only [reach, Array.size_append, Array.size_replicate]
      omega
    simp only [h, if_false]
    rw [get_modify _ hsize, get_reach]

theorem get_setAll (c : Cells) (offset : Nat) (bytes : List Byte) (o : Nat) :
    (c.setAll offset bytes).get o =
      if offset ≤ o ∧ o < offset + bytes.length then bytes.getD (o - offset) 0 else c.get o := by
  induction bytes generalizing c offset with
  | nil =>
      have hout : ¬(offset ≤ o ∧ o < offset + 0) := by omega
      simp only [setAll, List.length_nil, hout, if_false]
  | cons b rest ih =>
      simp only [setAll, ih, get_set, List.length_cons]
      by_cases heq : o = offset
      · subst heq
        have hout : ¬(o + 1 ≤ o ∧ o < o + 1 + rest.length) := by omega
        have hin : o ≤ o ∧ o < o + (rest.length + 1) := by omega
        simp only [hout, hin, if_false, if_true, Nat.sub_self, List.getD_cons_zero, and_self]
      · by_cases hin : offset + 1 ≤ o ∧ o < offset + 1 + rest.length
        · have hin' : offset ≤ o ∧ o < offset + (rest.length + 1) := by omega
          have hsub : o - offset = (o - (offset + 1)) + 1 := by omega
          simp only [hin, hin', and_self, if_true, hsub, List.getD_cons_succ]
        · have hout : ¬(offset ≤ o ∧ o < offset + (rest.length + 1)) := by omega
          simp only [hin, hout, heq, if_false]

/-! ## Cutting off -/

theorem get_truncate (c : Cells) (n o : Nat) :
    (c.truncate n).get o = if o < n then c.get o else 0 := by
  have hextract : (c.blocks.extract 0 (block n + 1))[block o]? =
      if block o ≤ block n then c.blocks[block o]? else none := by
    rw [Array.getElem?_extract, Nat.zero_add, Nat.sub_zero]
    by_cases hsize : block o < c.blocks.size
    · have hmin : block o < min (block n + 1) c.blocks.size ↔ block o ≤ block n := by omega
      simp only [hmin]
    · rw [Array.getElem?_eq_none (Nat.le_of_not_lt hsize), ite_self, ite_self]
  simp only [get, truncate, Array.getElem?_modify, hextract]
  rcases Nat.lt_trichotomy (block o) (block n) with hlt | heq | hgt
  · have hon : o < n := by unfold block at hlt; omega
    simp only [if_neg (Nat.ne_of_gt hlt), if_pos hon, if_pos (Nat.le_of_lt hlt)]
  · have hplace : n % 4096 ≤ (place o).val ↔ ¬o < n := by
      unfold block at heq
      unfold place
      dsimp only
      omega
    simp only [heq, if_true, Nat.le_refl]
    cases c.blocks[block n]? with
    | none => simp only [Option.map_none, ite_self]
    | some b => simp only [Option.map_some, Block.get_truncate, hplace, ite_not]
  · have hon : ¬o < n := by unfold block at hgt; omega
    simp only [if_neg (Nat.ne_of_lt hgt), if_neg hon, if_neg (Nat.not_le.mpr hgt)]

/-- Cells of a memory of `n` bytes: there is nothing behind them. -/
structure Fits (c : Cells) (n : Nat) : Prop where
  blocks : c.blocks.size ≤ block n + 1
  blank : ∀ o, n ≤ o → c.get o = 0

theorem fits_zero (n : Nat) : zero.Fits n := ⟨Nat.zero_le _, fun _ _ => rfl⟩

theorem fits_truncate (c : Cells) (n : Nat) : (c.truncate n).Fits n where
  blocks := by
    simp only [truncate, Array.size_modify, Array.size_extract]
    omega
  blank o ho := by rw [get_truncate, if_neg (Nat.not_lt.mpr ho)]

namespace Fits

variable {c : Cells} {n : Nat}

/-- There is nothing behind more bytes either. -/
theorem mono (h : c.Fits n) {n' : Nat} (le : n ≤ n') : c.Fits n' where
  blocks := by
    have := h.blocks
    unfold block at this ⊢
    omega
  blank o ho := h.blank o (Nat.le_trans le ho)

theorem set (h : c.Fits n) {offset : Nat} (inside : offset < n) (value : Byte) :
    (c.set offset value).Fits n where
  blocks := by
    have hblocks := h.blocks
    have hblock : block offset ≤ block n := Nat.div_le_div_right (Nat.le_of_lt inside)
    unfold Cells.set
    split
    · simpa only [Array.size_modify] using hblocks
    · simp only [reach, Array.size_modify, Array.size_append, Array.size_replicate]
      omega
  blank o ho := by
    rw [get_set, if_neg (by omega)]
    exact h.blank o ho

theorem setAll (h : c.Fits n) {offset : Nat} {bytes : List Byte}
    (inside : offset + bytes.length ≤ n) : (c.setAll offset bytes).Fits n := by
  induction bytes generalizing c offset with
  | nil => exact h
  | cons b rest ih =>
      rw [List.length_cons] at inside
      exact ih (h.set (by omega) b) (by omega)

/-- Cutting off where the cells end changes nothing. -/
theorem truncate_eq (h : c.Fits n) : c.truncate n = c := by
  have hextract : c.blocks.extract 0 (block n + 1) = c.blocks :=
    Array.extract_eq_self_of_le h.blocks
  have hmodify : c.blocks.modify (block n) (·.truncate (n % 4096)) = c.blocks := by
    refine Array.ext_getElem? fun i => ?_
    rw [Array.getElem?_modify]
    split
    case isFalse => rfl
    case isTrue heq =>
      subst heq
      cases hb : c.blocks[block n]? with
      | none => rfl
      | some b =>
          rw [Option.map_some]
          refine congrArg some (Block.ext_get fun i => ?_)
          rw [Block.get_truncate]
          split
          case isFalse => rfl
          case isTrue hi =>
            -- The byte at place `i` of the last block is one of those behind the cells.
            have hblank := h.blank (4096 * block n + i.val) (by unfold block; omega)
            have hblock : block (4096 * block n + i.val) = block n := by unfold block; omega
            have hplace : place (4096 * block n + i.val) = i :=
              Fin.ext (by unfold place; dsimp only; omega)
            simp only [get, hblock, hplace, hb] at hblank
            exact hblank.symm
  rw [truncate, hextract, hmodify]

end Fits
end Cells
end Rv32
