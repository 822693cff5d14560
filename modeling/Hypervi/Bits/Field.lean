import Mathlib.Algebra.GroupWithZero.Nat
import Mathlib.Tactic.Common

/-!
# Bit-fields of a machine word

A C bit-field is a run of bits inside a word: reading it shifts the run down to
bit `0`, assigning to it replaces the run by the low bits of the value and keeps
every other bit.  This file gives the two operations for words of any width and
the rules that a program built from such assignments is read with:

* `getLsbD_get` and `getLsbD_set` say what each operation does to single bits;
* `get_set_self` and `get_set_of_disjoint` read a field back after an
  assignment to it, or to a field it does not overlap;
* `toNat_get` and `toNat_set` are the arithmetic reading of the same two
  operations, by division and by addition.

Nothing here depends on what the fields stand for.
-/

namespace Hypervi.Bits

/-- A run of `len` bits whose lowest bit is bit `off` of the word. -/
structure Field where
  /-- The position of the lowest bit. -/
  off : Nat
  /-- The number of bits. -/
  len : Nat
deriving DecidableEq, Repr

namespace Field

variable {w : Nat}

/-- The bits of the field, in place. -/
def mask (f : Field) : BitVec w := (BitVec.allOnes f.len).setWidth w <<< f.off

/-- Reading a field: its bits, shifted down and zero-extended. -/
def get (f : Field) (x : BitVec w) : BitVec w := (x.extractLsb' f.off f.len).setWidth w

/-- The value an assignment keeps: the low `len` bits. -/
def trunc (f : Field) (v : BitVec w) : BitVec w := (v.setWidth f.len).setWidth w

/-- Assigning to a field: the low `len` bits of `v` replace the field. -/
def set (f : Field) (x v : BitVec w) : BitVec w := (x &&& ~~~f.mask) ||| (f.trunc v <<< f.off)

/-- A field read in a condition: is any of its bits set? -/
def test (f : Field) (x : BitVec w) : Bool := f.get x != 0

/-- Two fields that share no bit. -/
def Disjoint (f g : Field) : Prop := f.off + f.len ≤ g.off ∨ g.off + g.len ≤ f.off

instance (f g : Field) : Decidable (Disjoint f g) := inferInstanceAs (Decidable (_ ∨ _))

/-! ## Single bits -/

theorem test_eq_true_iff {f : Field} {x : BitVec w} : f.test x = true ↔ f.get x ≠ 0 := bne_iff_ne

theorem test_eq_false_iff {f : Field} {x : BitVec w} : f.test x = false ↔ f.get x = 0 := by
  rw [test, bne_eq_false_iff_eq]

theorem getLsbD_mask (f : Field) {i : Nat} (hi : i < w) :
    (f.mask : BitVec w).getLsbD i = decide (f.off ≤ i ∧ i < f.off + f.len) := by
  simp only [mask, BitVec.getLsbD_shiftLeft, BitVec.getLsbD_setWidth, BitVec.getLsbD_allOnes]
  by_cases h : f.off ≤ i
  · have hlt : (i - f.off < f.len) ↔ (i < f.off + f.len) := by omega
    have hw : i - f.off < w := by omega
    simp [hi, h, hlt, hw]
  · simp [h]

theorem getLsbD_get (f : Field) (x : BitVec w) (i : Nat) :
    (f.get x).getLsbD i = (decide (i < f.len) && x.getLsbD (f.off + i)) := by
  simp only [get, BitVec.getLsbD_setWidth, BitVec.getLsbD_extractLsb']
  by_cases hi : i < w
  · simp [hi]
  · simp [hi, BitVec.getLsbD_of_ge x (f.off + i) (by omega)]

theorem getLsbD_trunc (f : Field) (v : BitVec w) (i : Nat) :
    (f.trunc v).getLsbD i = (decide (i < f.len) && v.getLsbD i) := by
  simp only [trunc, BitVec.getLsbD_setWidth]
  by_cases hi : i < w
  · simp [hi]
  · simp [hi, BitVec.getLsbD_of_ge v i (by omega)]

theorem getLsbD_set (f : Field) (x v : BitVec w) {i : Nat} (hi : i < w) :
    (f.set x v).getLsbD i =
      if f.off ≤ i ∧ i < f.off + f.len then v.getLsbD (i - f.off) else x.getLsbD i := by
  simp only [set, BitVec.getLsbD_or, BitVec.getLsbD_and, BitVec.getLsbD_not, getLsbD_mask f hi,
    BitVec.getLsbD_shiftLeft, getLsbD_trunc]
  by_cases h₁ : f.off ≤ i
  · by_cases h₂ : i < f.off + f.len
    · have : i - f.off < f.len := by omega
      simp [hi, h₁, h₂, this]
    · have : ¬ i - f.off < f.len := by omega
      simp [hi, h₁, h₂, this]
  · simp [hi, h₁]

/-! ## Reading back an assignment -/

/-- A field reads back the value assigned to it, truncated to its width. -/
@[simp] theorem get_set_self (f : Field) (x v : BitVec w) (hw : f.off + f.len ≤ w) :
    f.get (f.set x v) = f.trunc v := by
  apply BitVec.eq_of_getLsbD_eq
  intro i _
  rw [getLsbD_get, getLsbD_trunc]
  by_cases h : i < f.len
  · rw [getLsbD_set f x v (by omega), if_pos (by omega)]
    simp [h]
  · simp [h]

/-- A field that does not overlap the assigned one keeps its value. -/
theorem get_set_of_disjoint {f g : Field} (h : Disjoint f g) (x v : BitVec w) :
    f.get (g.set x v) = f.get x := by
  apply BitVec.eq_of_getLsbD_eq
  intro i _
  rw [getLsbD_get, getLsbD_get]
  by_cases hi : i < f.len
  · by_cases hw : f.off + i < w
    · rw [getLsbD_set g x v hw, if_neg]
      rcases h with h | h <;> omega
    · simp [BitVec.getLsbD_of_ge _ _ (Nat.le_of_not_lt hw)]
  · simp [hi]

/-- A field of a word that is shifted down is the field that many bits higher. -/
theorem get_ushiftRight (f : Field) (x : BitVec w) (n : Nat) :
    f.get (x >>> n) = (⟨f.off + n, f.len⟩ : Field).get x := by
  apply BitVec.eq_of_getLsbD_eq
  intro i _
  rw [getLsbD_get, getLsbD_get, BitVec.getLsbD_ushiftRight, Nat.add_left_comm, ← Nat.add_assoc]

@[simp] theorem get_zero (f : Field) : f.get 0#w = 0#w := by simp [get]

/-- A field that does not overlap the assigned one tests as before. -/
theorem test_set_of_disjoint {f g : Field} (h : Disjoint f g) (x v : BitVec w) :
    f.test (g.set x v) = f.test x := by rw [test, test, get_set_of_disjoint h]

/-- Assignments to fields that do not overlap commute. -/
theorem set_comm {f g : Field} (h : Disjoint f g) (x u v : BitVec w) :
    f.set (g.set x v) u = g.set (f.set x u) v := by
  apply BitVec.eq_of_getLsbD_eq
  intro i hi
  rw [getLsbD_set f _ _ hi, getLsbD_set g _ _ hi, getLsbD_set g _ _ hi, getLsbD_set f _ _ hi]
  by_cases hf : f.off ≤ i ∧ i < f.off + f.len
  · rw [if_pos hf, if_neg, if_pos hf]
    rcases h with h | h <;> omega
  · rw [if_neg hf, if_neg hf]

/-! ## The arithmetic reading -/

theorem toNat_trunc (f : Field) (v : BitVec w) : (f.trunc v).toNat = v.toNat % 2 ^ f.len := by
  rw [trunc, BitVec.toNat_setWidth, BitVec.toNat_setWidth]
  exact Nat.mod_eq_of_lt (Nat.lt_of_le_of_lt (Nat.mod_le _ _) v.isLt)

theorem toNat_get (f : Field) (x : BitVec w) :
    (f.get x).toNat = x.toNat / 2 ^ f.off % 2 ^ f.len := by
  rw [get, BitVec.toNat_setWidth, BitVec.extractLsb'_toNat, Nat.shiftRight_eq_div_pow]
  refine Nat.mod_eq_of_lt (Nat.lt_of_le_of_lt (Nat.mod_le _ _) ?_)
  exact Nat.lt_of_le_of_lt (Nat.div_le_self _ _) x.isLt

/-- The lowest bits of a word are its remainder. -/
theorem toNat_get_low (n : Nat) (x : BitVec w) : (get ⟨0, n⟩ x).toNat = x.toNat % 2 ^ n := by
  rw [toNat_get, Nat.pow_zero, Nat.div_one]

/-- A field of one bit that is set reads one. -/
theorem get_eq_one_iff [NeZero w] {f : Field} (hlen : f.len = 1) {x : BitVec w} :
    f.get x = 1 ↔ f.test x = true := by
  have hone : (1#w).toNat = 1 := by
    rw [BitVec.toNat_ofNat, Nat.mod_eq_of_lt (Nat.one_lt_two_pow (NeZero.ne w))]
  have hlt : (f.get x).toNat < 2 := by
    rw [toNat_get, hlen]
    exact Nat.mod_lt _ (by decide)
  rw [test_eq_true_iff, ← BitVec.toNat_inj, ne_eq, ← BitVec.toNat_inj, BitVec.ofNat_eq_ofNat, hone]
  simp
  omega

/-- A field of one bit tests that bit. -/
theorem test_eq_getLsbD {f : Field} (hlen : f.len = 1) (x : BitVec w) :
    f.test x = x.getLsbD f.off := by
  have hbit : (f.get x).getLsbD 0 = x.getLsbD f.off := by
    rw [getLsbD_get, hlen]
    rfl
  cases hx : x.getLsbD f.off with
  | true =>
      rw [test_eq_true_iff]
      intro hzero
      rw [hzero, hx] at hbit
      exact absurd hbit (by simp)
  | false =>
      rw [test_eq_false_iff]
      apply BitVec.eq_of_getLsbD_eq
      intro i _
      rw [getLsbD_get, hlen]
      cases i with
      | zero => simp [hx]
      | succ i => simp

/-- Assigning to a field that reads zero adds the value at the field's place. -/
theorem toNat_set {f : Field} {x : BitVec w} (hw : f.off + f.len ≤ w) (h : f.get x = 0)
    (v : BitVec w) :
    (f.set x v).toNat = x.toNat + v.toNat % 2 ^ f.len * 2 ^ f.off := by
  have hx : x &&& ~~~f.mask = x := by
    apply BitVec.eq_of_getLsbD_eq
    intro i hi
    rw [BitVec.getLsbD_and, BitVec.getLsbD_not, getLsbD_mask f hi]
    by_cases hf : f.off ≤ i ∧ i < f.off + f.len
    · have hb : (f.get x).getLsbD (i - f.off) = false := by simp [h]
      rw [getLsbD_get, show f.off + (i - f.off) = i by omega] at hb
      have : i - f.off < f.len := by omega
      simp [this] at hb
      simp [hb]
    · simp [hf, hi]
  have hz : x &&& (f.trunc v <<< f.off) = 0#w := by
    apply BitVec.eq_of_getLsbD_eq
    intro i hi
    rw [← hx, BitVec.getLsbD_and, BitVec.getLsbD_and, BitVec.getLsbD_not, getLsbD_mask f hi,
      BitVec.getLsbD_shiftLeft, getLsbD_trunc]
    by_cases hf : f.off ≤ i ∧ i < f.off + f.len
    · simp [hf]
    · have : i < f.off ∨ ¬ i - f.off < f.len := by omega
      rcases this with h' | h' <;> simp [h']
  have hlt : v.toNat % 2 ^ f.len * 2 ^ f.off < 2 ^ w := by
    calc v.toNat % 2 ^ f.len * 2 ^ f.off
        < 2 ^ f.len * 2 ^ f.off :=
          Nat.mul_lt_mul_of_pos_right (Nat.mod_lt _ (Nat.two_pow_pos _)) (Nat.two_pow_pos _)
      _ = 2 ^ (f.len + f.off) := (Nat.pow_add 2 f.len f.off).symm
      _ ≤ 2 ^ w := Nat.pow_le_pow_right (by decide) (by omega)
  have hs : (f.trunc v <<< f.off).toNat = v.toNat % 2 ^ f.len * 2 ^ f.off := by
    rw [BitVec.toNat_shiftLeft, toNat_trunc, Nat.shiftLeft_eq, Nat.mod_eq_of_lt hlt]
  rw [set, hx, ← BitVec.add_eq_or_of_and_eq_zero _ _ hz, ← hs]
  exact BitVec.toNat_add_of_and_eq_zero hz

end Field

end Hypervi.Bits
