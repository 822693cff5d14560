import Mathlib.Algebra.GroupWithZero.Nat
import Mathlib.Tactic.Common

/-!
# Pages of the firmware

The firmware hands out memory in pages.  `NUM_PAGES` rounds a size up to pages in 64-bit
arithmetic, so that a size within a page of `2 ^ 64` becomes no page at all.
-/

namespace Hypervi.Freestanding

/-- `PAGE_SIZE` -/
def pageSize : BitVec 64 := 4096

/-- `NUM_PAGES` -/
def numPages (y : BitVec 64) : BitVec 64 := (y + pageSize - 1) / pageSize

/-- The number of bytes in so many pages. -/
def pageBytes (pages : BitVec 64) : Nat := 4096 * pages.toNat

theorem toNat_numPages (y : BitVec 64) :
    (numPages y).toNat = (y.toNat + 4095) % 2 ^ 64 / 4096 := by
  have hone : (1 : BitVec 64).toNat = 1 := rfl
  have hpage : pageSize.toNat = 4096 := rfl
  rw [numPages, BitVec.toNat_udiv, BitVec.toNat_sub, BitVec.toNat_add, hpage, hone]
  omega

/-- Sizes that do not wrap are rounded up. -/
theorem toNat_numPages_of_le {y : BitVec 64} (h : y.toNat ≤ 2 ^ 64 - 4096) :
    (numPages y).toNat = (y.toNat + 4095) / 4096 := by
  rw [toNat_numPages, Nat.mod_eq_of_lt (by omega)]

theorem pageBytes_numPages_lt (y : BitVec 64) : pageBytes (numPages y) < 2 ^ 64 := by
  rw [pageBytes, toNat_numPages]
  have := Nat.mod_lt (y.toNat + 4095) (show 0 < 2 ^ 64 by decide)
  omega

end Hypervi.Freestanding
