import Mathlib.Data.Nat.Digits.Lemmas
import Mathlib.Tactic.Common

/-!
# Positional numerals

The digits that repeated division by a radix produces, and the numeral that they make when
they are written in the opposite order.  The numeral of zero is a single digit.

What a string of characters denotes is said without reference to how it was made
(`IsNumeral`), for any characters that stand for digits; `isNumeral_numeral` is the round
trip.
-/

namespace Hypervi.Numerals

universe u

variable {b n : Nat}

/-! ## Digits -/

/-- The digits of a number, the least significant one first. -/
def digitsOf (b n : Nat) : List Nat := if n = 0 then [0] else Nat.digits b n

theorem digitsOf_of_div_eq_zero (hb : 2 ≤ b) (h : n / b = 0) : digitsOf b n = [n % b] := by
  unfold digitsOf
  split
  · next hn => rw [hn, Nat.zero_mod]
  · next hn => rw [Nat.digits_def' hb (Nat.pos_of_ne_zero hn), h, Nat.digits_zero]

theorem digitsOf_of_div_ne_zero (hb : 2 ≤ b) (h : n / b ≠ 0) :
    digitsOf b n = n % b :: digitsOf b (n / b) := by
  have hn : n ≠ 0 := by
    rintro rfl
    exact h (Nat.zero_div b)
  rw [digitsOf, digitsOf, if_neg hn, if_neg h, Nat.digits_def' hb (Nat.pos_of_ne_zero hn)]

theorem digitsOf_lt (hb : 2 ≤ b) {d : Nat} (hd : d ∈ digitsOf b n) : d < b := by
  unfold digitsOf at hd
  split at hd
  · rw [List.mem_singleton.mp hd]
    exact Nat.lt_of_lt_of_le Nat.two_pos hb
  · exact Nat.digits_lt_base hb hd

theorem ofDigits_digitsOf (b n : Nat) : Nat.ofDigits b (digitsOf b n) = n := by
  unfold digitsOf
  split
  · next hn => rw [Nat.ofDigits_singleton, hn]
  · exact Nat.ofDigits_digits b n

theorem digitsOf_ne_nil (b n : Nat) : digitsOf b n ≠ [] := by
  unfold digitsOf
  split
  · exact List.cons_ne_nil _ _
  · next hn => exact Nat.digits_ne_nil_iff_ne_zero.mpr hn

theorem length_digitsOf_le {k : Nat} (hb : 2 ≤ b) (hk : 0 < k) (hn : n < b ^ k) :
    (digitsOf b n).length ≤ k := by
  unfold digitsOf
  split
  · exact hk
  · exact (Nat.digits_length_le_iff hb n).mpr hn

/-- The most significant digit is zero for the number zero only. -/
theorem digitsOf_eq_of_getLast (h : (digitsOf b n).getLast (digitsOf_ne_nil b n) = 0) :
    digitsOf b n = [0] := by
  by_cases hn : n = 0
  · rw [digitsOf, if_pos hn]
  · simp only [digitsOf, if_neg hn] at h
    exact absurd h (Nat.getLast_digit_ne_zero b hn)

/-! ## Numerals -/

/-- The number that digits denote, the most significant one first. -/
def value (b : Nat) (ds : List Nat) : Nat := ds.foldl (fun v d ↦ d + b * v) 0

theorem value_reverse (b : Nat) (ds : List Nat) : value b ds.reverse = Nat.ofDigits b ds := by
  rw [value, List.foldl_reverse, Nat.ofDigits_eq_foldr]
  rfl

variable {α : Type u}

section model

variable (digit : α → Option Nat) (b : Nat) (cs : List α)

/-- The number that characters denote, if each is a digit. -/
def decode : Option Nat := (cs.mapM digit).map (value b)

/-- The characters are the numeral of `n`: digits below the radix, without leading zeros. -/
structure IsNumeral (n : Nat) : Prop where
  digits : ∀ c ∈ cs, ∃ d < b, digit c = some d
  ne_nil : cs ≠ []
  leading : ∀ c, cs.head? = some c → digit c = some 0 → cs = [c]
  decodes : decode digit b cs = some n

end model

/-- The numeral of a number, in the characters given for the digits. -/
def numeral (char : Nat → α) (b n : Nat) : List α := (digitsOf b n).reverse.map char

section numeral

variable {digit : α → Option Nat} {char : Nat → α}

theorem mapM_map {ds : List Nat} (h : ∀ d ∈ ds, digit (char d) = some d) :
    (ds.map char).mapM digit = some ds := by
  induction ds with
  | nil => rfl
  | cons d ds ih =>
      obtain ⟨hd, hds⟩ := List.forall_mem_cons.mp h
      rw [List.map_cons, List.mapM_cons, hd, ih hds]
      rfl

theorem decode_numeral (h : ∀ d < b, digit (char d) = some d) (hb : 2 ≤ b) (n : Nat) :
    decode digit b (numeral char b n) = some n := by
  have hdigits : ∀ d ∈ (digitsOf b n).reverse, digit (char d) = some d :=
    fun d hd ↦ h d (digitsOf_lt hb (List.mem_reverse.mp hd))
  rw [decode, numeral, mapM_map hdigits, Option.map_some, value_reverse, ofDigits_digitsOf]

/-- **Round trip.** -/
theorem isNumeral_numeral (h : ∀ d < b, digit (char d) = some d) (hb : 2 ≤ b) (n : Nat) :
    IsNumeral digit b (numeral char b n) n where
  digits := by
    intro c hc
    obtain ⟨d, hd, rfl⟩ := List.mem_map.mp hc
    have hlt := digitsOf_lt hb (List.mem_reverse.mp hd)
    exact ⟨d, hlt, h d hlt⟩
  ne_nil := by
    rw [numeral, ne_eq, List.map_eq_nil_iff, List.reverse_eq_nil_iff]
    exact digitsOf_ne_nil b n
  leading := by
    intro c hc hzero
    have hlast := List.getLast?_eq_some_getLast (digitsOf_ne_nil b n)
    rw [numeral, List.head?_map, List.head?_reverse, hlast, Option.map_some,
      Option.some.injEq] at hc
    have hmem := List.getLast_mem (digitsOf_ne_nil b n)
    rw [← hc, h _ (digitsOf_lt hb hmem), Option.some.injEq] at hzero
    have hsingle := digitsOf_eq_of_getLast hzero
    rw [hzero] at hc
    rw [numeral, hsingle, ← hc]
    rfl
  decodes := decode_numeral h hb n

theorem length_numeral (char : Nat → α) (b n : Nat) :
    (numeral char b n).length = (digitsOf b n).length := by
  rw [numeral, List.length_map, List.length_reverse]

end numeral

end Hypervi.Numerals
