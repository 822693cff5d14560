import Mathlib.Algebra.GroupWithZero.Nat
import Mathlib.Tactic.Common

/-!
# Words with required and permitted bits

A capability of a processor often is a pair of masks: the bits that must be one,
among the bits that may be one.  `Allowed w` is such a pair, and
`Allowed.legalise` makes a word legal by setting the bits that must be one and
clearing those that may not.  `leastChange_iff` says that this is the only way to
do it that leaves every other bit alone.
-/

namespace Hypervi.Bits

variable {w : Nat}

/-- The bits of a word that must be one, and those that may be. -/
structure Allowed (w : Nat) where
  must : BitVec w
  may : BitVec w
  within : must &&& may = must

namespace Allowed

variable (c : Allowed w) (x y : BitVec w)

/-- `x` with the required bits set and the others that are not permitted cleared. -/
def legalise : BitVec w := (x &&& c.may) ||| c.must

/-- `y` is legal, and differs from `x` in no bit that is free. -/
structure LeastChange (x y : BitVec w) : Prop where
  must_set : ∀ i < w, c.must.getLsbD i = true → y.getLsbD i = true
  may_not_clear : ∀ i < w, c.may.getLsbD i = false → y.getLsbD i = false
  free_kept : ∀ i < w, c.must.getLsbD i = false → c.may.getLsbD i = true →
    y.getLsbD i = x.getLsbD i

theorem may_of_must {i : Nat} (h : c.must.getLsbD i = true) : c.may.getLsbD i = true := by
  have hi := congrArg (·.getLsbD i) c.within
  simp only [BitVec.getLsbD_and, h, Bool.true_and] at hi
  exact hi

theorem getLsbD_legalise (i : Nat) : (c.legalise x).getLsbD i =
    ((x.getLsbD i && c.may.getLsbD i) || c.must.getLsbD i) := by
  rw [legalise, BitVec.getLsbD_or, BitVec.getLsbD_and]

/-- Each bit is determined: it is required, not permitted, or free. -/
theorem leastChange_iff : c.LeastChange x y ↔ y = c.legalise x := by
  constructor
  · intro h
    apply BitVec.eq_of_getLsbD_eq
    intro i hi
    rw [getLsbD_legalise]
    cases hmust : c.must.getLsbD i with
    | true => rw [h.must_set i hi hmust, Bool.or_true]
    | false =>
        cases hmay : c.may.getLsbD i with
        | false => rw [h.may_not_clear i hi hmay, Bool.and_false, Bool.or_false]
        | true => rw [h.free_kept i hi hmust hmay, Bool.and_true, Bool.or_false]
  · rintro rfl
    refine ⟨fun i _ hmust ↦ ?_, fun i _ hmay ↦ ?_, fun i _ hmust hmay ↦ ?_⟩
    · rw [getLsbD_legalise, hmust, Bool.or_true]
    · have hmust : c.must.getLsbD i = false := by
        cases h : c.must.getLsbD i with
        | false => rfl
        | true => exact absurd (hmay.symm.trans (c.may_of_must h)) Bool.false_ne_true
      rw [getLsbD_legalise, hmust, hmay, Bool.and_false, Bool.or_false]
    · rw [getLsbD_legalise, hmust, hmay, Bool.and_true, Bool.or_false]

end Allowed

/-- Clearing and setting the same bits again changes nothing, whichever bits they
are. -/
theorem and_or_idempotent (x a o : BitVec w) :
    (((x &&& a) ||| o) &&& a) ||| o = (x &&& a) ||| o := by
  apply BitVec.eq_of_getLsbD_eq
  intro i _
  simp only [BitVec.getLsbD_or, BitVec.getLsbD_and]
  cases x.getLsbD i <;> cases a.getLsbD i <;> cases o.getLsbD i <;> rfl

/-- Narrowing to the low bits keeps the value of a word when its high bits are
clear. -/
theorem setWidth_setWidth_eq_iff {n : Nat} (hn : n ≤ w) (x : BitVec w) :
    (x.setWidth n).setWidth w = x ↔ x.toNat < 2 ^ n := by
  have hlt : x.toNat % 2 ^ n < 2 ^ w :=
    Nat.lt_of_lt_of_le (Nat.mod_lt _ (Nat.two_pow_pos n)) (Nat.pow_le_pow_right Nat.two_pos hn)
  rw [← BitVec.toNat_inj, BitVec.toNat_setWidth, BitVec.toNat_setWidth, Nat.mod_eq_of_lt hlt]
  constructor
  · exact fun h ↦ h ▸ Nat.mod_lt _ (Nat.two_pow_pos n)
  · exact Nat.mod_eq_of_lt

theorem or_lt_two_pow_iff {n : Nat} (x y : BitVec w) :
    (x ||| y).toNat < 2 ^ n ↔ x.toNat < 2 ^ n ∧ y.toNat < 2 ^ n := by
  rw [BitVec.toNat_or]
  constructor
  · exact fun h ↦ ⟨Nat.lt_of_le_of_lt Nat.left_le_or h, Nat.lt_of_le_of_lt Nat.right_le_or h⟩
  · exact fun h ↦ Nat.or_lt_two_pow h.1 h.2

end Hypervi.Bits
