import Mathlib.Algebra.GroupWithZero.Nat
import Mathlib.Tactic.Common

/-!
# Contiguous masks

A mask whose set bits are exactly the bits from `k` to `n - 1` compares two words
from bit `k` on.  `IsRun.and_eq_and_iff` reads that comparison as the equality of
two quotients, so that the words matching a base form an aligned interval of
`2 ^ k` words (`IsRun.and_eq_and_iff_mem`), and `IsRun.ctz` finds `k` back as the
index of the lowest set bit.  `IsRun.and_eq_zero_iff` and `IsRun.and_eq_self_iff`
read a test of the mask as one statement about each bit.
-/

namespace Hypervi.Bits

variable {w : Nat}

/-- The set bits of `m` are the bits from `k` to `n - 1`. -/
def IsRun (m : BitVec w) (k n : Nat) : Prop :=
  ∀ i, m.getLsbD i = decide (k ≤ i ∧ i < n)

/-- Only the bits of the word need to be looked at. -/
theorem isRun_of_forall_lt {m : BitVec w} {k n : Nat} (hn : n ≤ w)
    (h : ∀ i < w, m.getLsbD i = decide (k ≤ i ∧ i < n)) : IsRun m k n := by
  intro i
  by_cases hi : i < w
  · exact h i hi
  · rw [BitVec.getLsbD_of_ge m i (Nat.le_of_not_lt hi), eq_comm, decide_eq_false_iff_not]
    omega

namespace IsRun

variable {m x y : BitVec w} {k n : Nat}

/-- Two words below `2 ^ n` agree under the mask when they agree from bit `k` on. -/
theorem and_eq_and_iff (h : IsRun m k n) (hx : x.toNat < 2 ^ n) (hy : y.toNat < 2 ^ n) :
    x &&& m = y &&& m ↔ x.toNat / 2 ^ k = y.toNat / 2 ^ k := by
  constructor
  · intro he
    apply Nat.eq_of_testBit_eq
    intro i
    rw [Nat.testBit_div_two_pow, Nat.testBit_div_two_pow]
    by_cases hi : i + k < n
    · have hb := congrArg (·.getLsbD (i + k)) he
      simpa [BitVec.testBit_toNat, h (i + k), hi] using hb
    · have hle : 2 ^ n ≤ 2 ^ (i + k) := Nat.pow_le_pow_right (by decide) (Nat.le_of_not_lt hi)
      rw [Nat.testBit_lt_two_pow (Nat.lt_of_lt_of_le hx hle),
        Nat.testBit_lt_two_pow (Nat.lt_of_lt_of_le hy hle)]
  · intro he
    apply BitVec.eq_of_getLsbD_eq
    intro i _
    rw [BitVec.getLsbD_and, BitVec.getLsbD_and, h i]
    by_cases hi : k ≤ i
    · have hb := congrArg (Nat.testBit · (i - k)) he
      simp only [Nat.testBit_div_two_pow, Nat.sub_add_cancel hi, BitVec.testBit_toNat] at hb
      rw [hb]
    · simp [hi]

/-- The words that match an aligned base under the mask are the `2 ^ k` words
from the base on. -/
theorem and_eq_and_iff_mem (h : IsRun m k n) (hx : x.toNat < 2 ^ n) (hy : y.toNat < 2 ^ n)
    (hdvd : 2 ^ k ∣ y.toNat) :
    x &&& m = y &&& m ↔ y.toNat ≤ x.toNat ∧ x.toNat < y.toNat + 2 ^ k := by
  rw [h.and_eq_and_iff hx hy, Nat.div_eq_iff (Nat.two_pow_pos k)]
  obtain ⟨q, hq⟩ := hdvd
  rw [hq, Nat.mul_div_cancel_left _ (Nat.two_pow_pos k), Nat.mul_comm]
  have := Nat.two_pow_pos k
  omega

/-- No bit under the mask is set. -/
theorem and_eq_zero_iff (h : IsRun m k n) :
    x &&& m = 0#w ↔ ∀ i, k ≤ i → i < n → x.getLsbD i = false := by
  constructor
  · intro he i hk hn
    have hb := congrArg (·.getLsbD i) he
    simpa [h i, hk, hn] using hb
  · intro hx
    apply BitVec.eq_of_getLsbD_eq
    intro i _
    rw [BitVec.getLsbD_and, h i, BitVec.getLsbD_zero]
    by_cases hi : k ≤ i ∧ i < n
    · rw [hx i hi.1 hi.2, Bool.false_and]
    · simp [hi]

/-- Every bit under the mask is set. -/
theorem and_eq_self_iff (h : IsRun m k n) :
    x &&& m = m ↔ ∀ i, k ≤ i → i < n → x.getLsbD i = true := by
  constructor
  · intro he i hk hn
    have hb := congrArg (·.getLsbD i) he
    simpa [h i, hk, hn] using hb
  · intro hx
    apply BitVec.eq_of_getLsbD_eq
    intro i _
    rw [BitVec.getLsbD_and, h i]
    by_cases hi : k ≤ i ∧ i < n
    · rw [hx i hi.1 hi.2, Bool.true_and]
    · simp [hi]

/-- The lowest set bit of the mask is bit `k`. -/
theorem ctz (h : IsRun m k n) (hkn : k < n) : m.ctz.toNat = k := by
  have hk : m.getLsbD k = true := by simp [h k, hkn]
  have hne : m ≠ 0#w := by
    rintro rfl
    simp at hk
  have hlow := h m.ctz.toNat
  rw [BitVec.getLsbD_true_ctz_of_ne_zero hne] at hlow
  obtain ⟨hle, -⟩ := of_decide_eq_true hlow.symm
  refine Nat.le_antisymm (Nat.le_of_not_lt fun hlt ↦ ?_) hle
  rw [BitVec.getLsbD_false_of_lt_ctz hlt] at hk
  cases hk

/-- A run of set bits is not the zero word. -/
theorem ne_zero (h : IsRun m k n) (hkn : k < n) : m ≠ 0 := by
  rintro rfl
  simpa [hkn] using h k

end IsRun

end Hypervi.Bits
