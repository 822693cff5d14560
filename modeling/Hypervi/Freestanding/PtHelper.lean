import Hypervi.Bits.Field

/-!
# Addresses and page-table indices

`pt_helper` of `freestanding/x86utils.cc`: an address as four table indices of
nine bits above the twelve bits of the page offset, with the two functions that
convert between the two readings.
-/

namespace Hypervi.Freestanding

open Bits

/-! ## `pt_helper` -/

namespace PtHelper

def pt : Field := ⟨12, 9⟩
def pd : Field := ⟨21, 9⟩
def pdpt : Field := ⟨30, 9⟩
def pml4 : Field := ⟨39, 9⟩

end PtHelper

/-- The indices `address_to_pt` returns through its pointers. -/
structure PtIndices where
  pml4 : BitVec 32
  pdpt : BitVec 32
  pd : BitVec 32
  pt : BitVec 32
deriving DecidableEq, Repr

/-- `address_to_pt` -/
def addressToPt (address : BitVec 64) : PtIndices where
  pml4 := (PtHelper.pml4.get address).setWidth 32
  pdpt := (PtHelper.pdpt.get address).setWidth 32
  pd := (PtHelper.pd.get address).setWidth 32
  pt := (PtHelper.pt.get address).setWidth 32

/-- `pt_to_address` -/
def ptToAddress (pml4 pdpt pd pt : BitVec 32) : BitVec 64 :=
  let helper : BitVec 64 := 0
  let helper := PtHelper.pml4.set helper (pml4.setWidth 64)
  let helper := PtHelper.pdpt.set helper (pdpt.setWidth 64)
  let helper := PtHelper.pd.set helper (pd.setWidth 64)
  PtHelper.pt.set helper (pt.setWidth 64)

/-! ## As numbers -/

theorem toNat_ptToAddress (pml4 pdpt pd pt : BitVec 32) :
    (ptToAddress pml4 pdpt pd pt).toNat =
      pml4.toNat % 512 * 2 ^ 39 + pdpt.toNat % 512 * 2 ^ 30 + pd.toNat % 512 * 2 ^ 21 +
        pt.toNat % 512 * 2 ^ 12 := by
  have hw (v : BitVec 32) : (v.setWidth 64).toNat = v.toNat := by
    rw [BitVec.toNat_setWidth]
    exact Nat.mod_eq_of_lt (Nat.lt_trans v.isLt (by decide))
  unfold ptToAddress
  rw [Field.toNat_set (by decide), Field.toNat_set (by decide), Field.toNat_set (by decide),
    Field.toNat_set (by decide), hw, hw, hw, hw]
  · simp [PtHelper.pml4, PtHelper.pdpt, PtHelper.pd, PtHelper.pt]
  · exact Field.get_zero _
  · rw [Field.get_set_of_disjoint (by decide)]
    exact Field.get_zero _
  · rw [Field.get_set_of_disjoint (by decide), Field.get_set_of_disjoint (by decide)]
    exact Field.get_zero _
  · rw [Field.get_set_of_disjoint (by decide), Field.get_set_of_disjoint (by decide),
      Field.get_set_of_disjoint (by decide)]
    exact Field.get_zero _

/-- An index is nine bits of the address. -/
theorem toNat_setWidth_get {f : Field} (hf : f.len = 9) (address : BitVec 64) :
    ((f.get address).setWidth 32).toNat = address.toNat / 2 ^ f.off % 512 := by
  rw [BitVec.toNat_setWidth, Field.toNat_get, hf]
  exact Nat.mod_eq_of_lt (Nat.lt_trans (Nat.mod_lt _ (by decide)) (by decide))

theorem toNat_addressToPt_pml4 (address : BitVec 64) :
    (addressToPt address).pml4.toNat = address.toNat / 2 ^ 39 % 512 := toNat_setWidth_get rfl address

theorem toNat_addressToPt_pdpt (address : BitVec 64) :
    (addressToPt address).pdpt.toNat = address.toNat / 2 ^ 30 % 512 := toNat_setWidth_get rfl address

theorem toNat_addressToPt_pd (address : BitVec 64) :
    (addressToPt address).pd.toNat = address.toNat / 2 ^ 21 % 512 := toNat_setWidth_get rfl address

theorem toNat_addressToPt_pt (address : BitVec 64) :
    (addressToPt address).pt.toNat = address.toNat / 2 ^ 12 % 512 := toNat_setWidth_get rfl address

end Hypervi.Freestanding
