import Mathlib.Data.List.GetD
import Mathlib.Tactic.Common

/-!
# `strcmp` on strings of which one is known to end

`strcmp` walks two strings until one of them ends or they differ.  In this program one
of the two is always a string of the program itself, a `CString`: characters other than
NUL, and then the NUL.  The loop then makes at most as many steps as that string has
characters, so its length is enough fuel (`strcmp_of_le`).
-/

namespace Hypervi.Freestanding

/-- The characters of a string before its NUL. -/
structure CString where
  chars : List (BitVec 8)
  ne_nul : ∀ c ∈ chars, c ≠ 0

namespace CString

/-- A string literal. -/
def ofChars (cs : List Char) (h : cs.all (fun c ↦ BitVec.ofNat 8 c.toNat != 0) = true) :
    CString where
  chars := cs.map fun c ↦ BitVec.ofNat 8 c.toNat
  ne_nul := by
    intro c hc
    obtain ⟨d, hd, rfl⟩ := List.mem_map.mp hc
    exact bne_iff_ne.mp (List.all_eq_true.mp h d hd)

/-- The number of characters. -/
def length (s : CString) : Nat := s.chars.length

/-- The character at `k`, the NUL included. -/
def char (s : CString) (k : Nat) : BitVec 8 := s.chars.getD k 0

@[simp] theorem char_length (s : CString) : s.char s.length = 0 :=
  List.getD_eq_default _ _ (Nat.le_refl _)

theorem char_ne_zero (s : CString) {k : Nat} (h : k < s.length) : s.char k ≠ 0 := by
  rw [char, List.getD_eq_getElem _ _ h]
  exact s.ne_nul _ (List.getElem_mem h)

end CString

/-- The characters at a pointer are those of the string, up to its NUL. -/
def Spells (a : Nat → BitVec 8) (s : CString) : Prop := ∀ k ≤ s.length, a k = s.char k

instance (a : Nat → BitVec 8) (s : CString) : Decidable (Spells a s) := by
  unfold Spells
  infer_instance

/-- `strcmp(a, b)`, given as many steps as the shorter string has characters. -/
def strcmp : Nat → (Nat → BitVec 8) → (Nat → BitVec 8) → Int
  | 0, a, b => (a 0).toNat - (b 0).toNat
  | n + 1, a, b =>
      if a 0 ≠ 0 ∧ a 0 = b 0 then strcmp n (fun k ↦ a (k + 1)) (fun k ↦ b (k + 1))
      else (a 0).toNat - (b 0).toNat

/-- The loop ends with the string that ends first: more steps change nothing. -/
theorem strcmp_of_le {n n' : Nat} (hle : n ≤ n') {a b : Nat → BitVec 8} (h : a n = 0 ∨ b n = 0) :
    strcmp n' a b = strcmp n a b := by
  induction n generalizing n' a b with
  | zero =>
      cases n' with
      | zero => rfl
      | succ n' =>
          have hstop : ¬ (a 0 ≠ 0 ∧ a 0 = b 0) := by
            rintro ⟨hne, heq⟩
            rcases h with ha | hb
            · exact hne ha
            · exact hne (heq.trans hb)
          simp only [strcmp, if_neg hstop]
  | succ n ih =>
      cases n' with
      | zero => exact absurd hle (Nat.not_succ_le_zero n)
      | succ n' =>
          rw [strcmp, strcmp, ih (Nat.le_of_succ_le_succ hle) h]

theorem sub_toNat_eq_zero {c d : BitVec 8} : (c.toNat : Int) - d.toNat = 0 ↔ c = d := by
  rw [Int.sub_eq_zero, Int.ofNat_inj, BitVec.toNat_inj]

/-- Where the loop stops at once, the strings agree up to a NUL when both are empty. -/
theorem agree_iff_of_stop {n : Nat} {a b : Nat → BitVec 8} (hstop : a 0 = b 0 → a 0 = 0) :
    a 0 = b 0 ↔ ∃ k ≤ n, a k = 0 ∧ ∀ j ≤ k, a j = b j := by
  constructor
  · intro heq
    refine ⟨0, Nat.zero_le n, hstop heq, fun j hj ↦ ?_⟩
    rw [Nat.le_zero.mp hj]
    exact heq
  · rintro ⟨k, -, -, heq⟩
    exact heq 0 (Nat.zero_le k)

/-- The result is zero for equal strings only. -/
theorem strcmp_eq_zero_iff {n : Nat} {a b : Nat → BitVec 8} (h : a n = 0 ∨ b n = 0) :
    strcmp n a b = 0 ↔ ∃ k ≤ n, a k = 0 ∧ ∀ j ≤ k, a j = b j := by
  induction n generalizing a b with
  | zero =>
      rw [strcmp, sub_toNat_eq_zero]
      apply agree_iff_of_stop
      intro heq
      rcases h with ha | hb
      · exact ha
      · exact heq.trans hb
  | succ n ih =>
      rw [strcmp]
      split
      · rename_i hstep
        rw [ih h]
        constructor
        · rintro ⟨k, hk, hzero, heq⟩
          refine ⟨k + 1, Nat.succ_le_succ hk, hzero, fun j hj ↦ ?_⟩
          cases j with
          | zero => exact hstep.2
          | succ j => exact heq j (Nat.le_of_succ_le_succ hj)
        · rintro ⟨k, hk, hzero, heq⟩
          cases k with
          | zero => exact absurd hzero hstep.1
          | succ k =>
              exact ⟨k, Nat.le_of_succ_le_succ hk, hzero,
                fun j hj ↦ heq (j + 1) (Nat.succ_le_succ hj)⟩
      · rename_i hstop
        rw [sub_toNat_eq_zero]
        apply agree_iff_of_stop
        intro heq
        by_contra hne
        exact hstop ⟨hne, heq⟩

/-- A string agrees with the characters at a pointer up to a NUL when it is there. -/
theorem agree_char_iff (s : CString) (b : Nat → BitVec 8) :
    (∃ k ≤ s.length, s.char k = 0 ∧ ∀ j ≤ k, s.char j = b j) ↔ Spells b s := by
  constructor
  · rintro ⟨k, hk, hzero, heq⟩
    have hend : k = s.length := by
      by_contra hne
      exact s.char_ne_zero (Nat.lt_of_le_of_ne hk hne) hzero
    subst hend
    exact fun j hj ↦ (heq j hj).symm
  · intro h
    exact ⟨s.length, Nat.le_refl _, s.char_length, fun j hj ↦ (h j hj).symm⟩

/-- Against a string of the program in the second place. -/
theorem strcmp_char_eq_zero_iff (a : Nat → BitVec 8) (s : CString) :
    strcmp s.length a s.char = 0 ↔ Spells a s := by
  rw [strcmp_eq_zero_iff (.inr s.char_length), ← agree_char_iff]
  constructor
  · rintro ⟨k, hk, hzero, heq⟩
    exact ⟨k, hk, (heq k (Nat.le_refl k)).symm.trans hzero, fun j hj ↦ (heq j hj).symm⟩
  · rintro ⟨k, hk, hzero, heq⟩
    exact ⟨k, hk, (heq k (Nat.le_refl k)).symm.trans hzero, fun j hj ↦ (heq j hj).symm⟩

/-- And in the first. -/
theorem strcmp_char_left_eq_zero_iff (s : CString) (b : Nat → BitVec 8) :
    strcmp s.length s.char b = 0 ↔ Spells b s := by
  rw [strcmp_eq_zero_iff (.inl s.char_length), agree_char_iff]

end Hypervi.Freestanding
