/-
# `Rv32.Proofs.Paging.Page` — an address is its page and its place in it

Taking an address apart and putting it together undo each other, and the indices into
a page table are those of the page.
-/
import Rv32.Paging.Page

namespace Rv32.Paging

@[simp] theorem pageOf_join (page : Page) (offset : BitVec 12) :
    pageOf (join page offset) = page :=
  BitVec.extractLsb'_append_eq_left

@[simp] theorem offsetOf_join (page : Page) (offset : BitVec 12) :
    offsetOf (join page offset) = offset :=
  BitVec.extractLsb'_append_eq_right

@[simp] theorem join_pageOf_offsetOf (address : Word) :
    join (pageOf address) (offsetOf address) = address :=
  @BitVec.extractLsb'_append_extractLsb' 20 12 address

/-- The number of an address, from its page and its offset. -/
theorem toNat_eq (address : Word) :
    address.toNat = (pageOf address).toNat * pageSize + (offsetOf address).toNat := by
  have h := address.isLt
  simp only [pageOf, offsetOf, pageSize, BitVec.extractLsb'_toNat, Nat.shiftRight_eq_div_pow]
  omega

theorem firstIndex_eq (address : Word) :
    firstIndex address = (pageOf address).extractLsb' 10 10 := by
  apply BitVec.eq_of_toNat_eq
  simp only [firstIndex, pageOf, BitVec.extractLsb'_toNat, Nat.shiftRight_eq_div_pow]
  omega

theorem secondIndex_eq (address : Word) :
    secondIndex address = (pageOf address).extractLsb' 0 10 := by
  apply BitVec.eq_of_toNat_eq
  simp only [secondIndex, pageOf, BitVec.extractLsb'_toNat, Nat.shiftRight_eq_div_pow]
  omega

theorem firstIndex_congr {a b : Word} (h : pageOf a = pageOf b) : firstIndex a = firstIndex b := by
  rw [firstIndex_eq, firstIndex_eq, h]

theorem secondIndex_congr {a b : Word} (h : pageOf a = pageOf b) :
    secondIndex a = secondIndex b := by
  rw [secondIndex_eq, secondIndex_eq, h]

end Rv32.Paging
