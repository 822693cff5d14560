import Hypervi.Buffer
import Hypervi.Numerals

/-!
# `itoa`

The digits of the number come out of a division loop in the wrong order, padding and the
sign are put behind them, and the whole is reversed in place.

The division loop is run for a number of steps, as it does not end for every radix that the
guard lets through; `ItoaReturns` says that it has ended after some number.  For a radix
from 2 to 16 it ends, and `itoaReturns_formats` says what is in the buffer.
-/

namespace Hypervi.Freestanding

open Numerals

/-! ## The function -/

/-- Why there is no result. -/
inductive ItoaFault where
  | divisionByZero
  | unfinished
deriving DecidableEq, Repr

/-- `digit < 10 ? '0' + digit : 'A' + digit - 10` -/
def digitChar (digit : Nat) : BitVec 8 :=
  if digit < 10 then BitVec.ofNat 8 (0x30 + digit) else BitVec.ofNat 8 (0x41 + digit - 10)

/-- The loop over the digits, for as many steps as it is given. -/
def digitLoop (radix : BitVec 32) : Nat → BitVec 64 → Buffer (BitVec 8) →
    Except ItoaFault (Buffer (BitVec 8))
  | 0, _, _ => .error .unfinished
  | fuel + 1, value, buff =>
      if radix = 0 then .error .divisionByZero
      else
        let digit := value % radix.setWidth 64
        let buff := buff.push (digitChar digit.toNat)
        let value := value / radix.setWidth 64
        if 0 < value then digitLoop radix fuel value buff else .ok buff

/-- What `itoa` returns, and the buffer that it leaves. -/
structure Itoa where
  count : BitVec 32
  buff : Buffer (BitVec 8)

/-- `itoa`.  `value` is unsigned, as the comparison of it with zero is. -/
def itoa (fuel : Nat) (value : BitVec 64) (buff : Nat → BitVec 8) (radix sign pad : BitVec 32) :
    Except ItoaFault Itoa :=
  let buff : Buffer (BitVec 8) := ⟨buff, 0, []⟩
  if 16 < radix then .ok ⟨0, buff.set 0 0⟩
  else
    let neg : Bool := sign ≠ 0 ∧ value < 0
    let value := if neg then -value else value
    match digitLoop radix fuel value buff with
    | .error fault => .error fault
    | .ok buff =>
        -- `i` and `len` are 32-bit
        let i := BitVec.ofNat 32 buff.ptr
        let buff := forRange (pad.toNat - i.toNat) (fun _ buff ↦ buff.push 0) buff
        let buff := if neg then buff.push 0x2D else buff
        let buff := buff.set buff.ptr 0
        let len := BitVec.ofNat 32 buff.ptr
        .ok ⟨len, buff.reverse len.toNat⟩

/-- `itoa` returns with the result `r`. -/
def ItoaReturns (value : BitVec 64) (buff : Nat → BitVec 8) (radix sign pad : BitVec 32)
    (r : Itoa) : Prop := ∃ fuel, itoa fuel value buff radix sign pad = .ok r

/-! ## The number of steps -/

section steps

variable {value : BitVec 64} {radix sign pad : BitVec 32}

/-- More steps change nothing once the loop has ended. -/
theorem digitLoop_of_le {fuel fuel' : Nat} (hle : fuel ≤ fuel') {buff buff' : Buffer (BitVec 8)}
    (h : digitLoop radix fuel value buff = .ok buff') :
    digitLoop radix fuel' value buff = .ok buff' := by
  induction fuel generalizing fuel' value buff with
  | zero => cases h
  | succ fuel ih =>
      cases fuel' with
      | zero => exact absurd hle (Nat.not_succ_le_zero fuel)
      | succ fuel' =>
          rw [digitLoop] at h ⊢
          split
          · next hradix =>
            rw [if_pos hradix] at h
            cases h
          · next hradix =>
            rw [if_neg hradix] at h
            simp only at h ⊢
            split
            · next hgo =>
              rw [if_pos hgo] at h
              exact ih (Nat.le_of_succ_le_succ hle) h
            · next hend =>
              rwa [if_neg hend] at h

/-- The comparison of an unsigned number with zero fails. -/
theorem neg_eq_false (sign : BitVec 32) (value : BitVec 64) :
    decide (sign ≠ 0 ∧ value < 0) = false :=
  decide_eq_false fun h ↦ absurd h.2 (Nat.not_lt_zero _)

/-- Where the loop has ended, `itoa` goes on to its end. -/
theorem itoa_of_digitLoop (sign pad : BitVec 32) (hradix : ¬ 16 < radix) {fuel : Nat}
    {buff : Nat → BitVec 8} {buff' : Buffer (BitVec 8)}
    (h : digitLoop radix fuel value ⟨buff, 0, []⟩ = .ok buff') :
    itoa fuel value buff radix sign pad =
      let padded := buff'.pushes
        (List.replicate (pad.toNat - (BitVec.ofNat 32 buff'.ptr).toNat) 0)
      .ok ⟨BitVec.ofNat 32 padded.ptr,
        (padded.set padded.ptr 0).reverse (BitVec.ofNat 32 padded.ptr).toNat⟩ := by
  unfold itoa
  simp only [if_neg hradix, neg_eq_false, Bool.false_eq_true, if_false, h, Buffer.forRange_push]
  rfl

/-- `itoa` returns exactly when the loop over the digits ends. -/
theorem itoa_ok_iff (hradix : ¬ 16 < radix) {fuel : Nat} {buff : Nat → BitVec 8} :
    (∃ r, itoa fuel value buff radix sign pad = .ok r) ↔
      ∃ buff', digitLoop radix fuel value ⟨buff, 0, []⟩ = .ok buff' := by
  constructor
  · rintro ⟨r, hr⟩
    unfold itoa at hr
    simp only [if_neg hradix, neg_eq_false, Bool.false_eq_true, if_false] at hr
    cases hloop : digitLoop radix fuel value ⟨buff, 0, []⟩ with
    | error fault =>
        rw [hloop] at hr
        cases hr
    | ok buff' => exact ⟨buff', rfl⟩
  · rintro ⟨buff', h⟩
    exact ⟨_, itoa_of_digitLoop sign pad hradix h⟩

/-- The result does not depend on the number of steps. -/
theorem ItoaReturns.unique {buff : Nat → BitVec 8} {r r' : Itoa} (hradix : ¬ 16 < radix)
    (h : ItoaReturns value buff radix sign pad r) (h' : ItoaReturns value buff radix sign pad r') :
    r = r' := by
  obtain ⟨fuel, h⟩ := h
  obtain ⟨fuel', h'⟩ := h'
  obtain ⟨buff₁, hloop⟩ := (itoa_ok_iff hradix).mp ⟨r, h⟩
  obtain ⟨buff₂, hloop'⟩ := (itoa_ok_iff hradix).mp ⟨r', h'⟩
  have hmax := digitLoop_of_le (Nat.le_max_left fuel fuel') hloop
  have hmax' := digitLoop_of_le (Nat.le_max_right fuel fuel') hloop'
  rw [hmax, Except.ok.injEq] at hmax'
  subst hmax'
  rw [itoa_of_digitLoop sign pad hradix hloop, Except.ok.injEq] at h
  rw [itoa_of_digitLoop sign pad hradix hloop', Except.ok.injEq] at h'
  exact h.symm.trans h'

end steps

/-! ## The result -/

/-- The characters of the result: digits, and zeros in front of them to fill up to the
width. -/
def itoaChars (value : BitVec 64) (radix pad : BitVec 32) : List (BitVec 8) :=
  List.replicate (pad.toNat - (digitsOf radix.toNat value.toNat).length) 0 ++
    numeral digitChar radix.toNat value.toNat

/-- The characters are counted, stand at the start of the buffer with a NUL behind them, and
nothing else is written. -/
structure Formats (r : Itoa) (cs : List (BitVec 8)) : Prop where
  count : r.count.toNat = cs.length
  chars : r.buff.Holds 0 cs
  nul : r.buff.contents cs.length = 0
  written : ∀ k ∈ r.buff.written, k ≤ cs.length

section result

variable {value : BitVec 64} {radix : BitVec 32}

theorem digitLoop_eq (hradix : 2 ≤ radix.toNat) {fuel : Nat}
    (hfuel : (digitsOf radix.toNat value.toNat).length ≤ fuel) (buff : Buffer (BitVec 8)) :
    digitLoop radix fuel value buff =
      .ok (buff.pushes ((digitsOf radix.toNat value.toNat).map digitChar)) := by
  have hne : radix ≠ 0 := by
    rintro rfl
    exact absurd hradix (by decide)
  have hwidth : (radix.setWidth 64).toNat = radix.toNat := by
    rw [BitVec.toNat_setWidth, Nat.mod_eq_of_lt (Nat.lt_trans radix.isLt (by decide))]
  have hmod (v : BitVec 64) : (v % radix.setWidth 64).toNat = v.toNat % radix.toNat := by
    rw [BitVec.toNat_umod, hwidth]
  have hdiv (v : BitVec 64) : (v / radix.setWidth 64).toNat = v.toNat / radix.toNat := by
    rw [BitVec.toNat_udiv, hwidth]
  induction fuel generalizing value buff with
  | zero =>
      rw [Nat.le_zero, List.length_eq_zero_iff] at hfuel
      exact absurd hfuel (digitsOf_ne_nil _ _)
  | succ fuel ih =>
      rw [digitLoop, if_neg hne]
      simp only [hmod]
      by_cases hend : value.toNat / radix.toNat = 0
      · have hzero : ¬ 0 < value / radix.setWidth 64 := by
          rw [BitVec.lt_def, hdiv, hend]
          exact Nat.lt_irrefl 0
        rw [if_neg hzero, digitsOf_of_div_eq_zero hradix hend]
        rfl
      · have hgo : 0 < value / radix.setWidth 64 := by
          rw [BitVec.lt_def, hdiv]
          exact Nat.pos_of_ne_zero hend
        rw [digitsOf_of_div_ne_zero hradix hend, List.length_cons, ← hdiv] at hfuel
        rw [if_pos hgo, ih (Nat.le_of_succ_le_succ hfuel), hdiv,
          digitsOf_of_div_ne_zero hradix hend]
        rfl

theorem length_digitsOf_le_sixtyFour (hradix : 2 ≤ radix.toNat) (value : BitVec 64) :
    (digitsOf radix.toNat value.toNat).length ≤ 64 :=
  length_digitsOf_le hradix (by decide)
    (Nat.lt_of_lt_of_le value.isLt (Nat.pow_le_pow_left hradix 64))

theorem length_itoaChars (value : BitVec 64) (radix pad : BitVec 32) :
    (itoaChars value radix pad).length =
      max (digitsOf radix.toNat value.toNat).length pad.toNat := by
  rw [itoaChars, List.length_append, List.length_replicate, length_numeral]
  omega

/-- The result, once the characters have been stored in the opposite order. -/
def finish (buff : Nat → BitVec 8) (cs : List (BitVec 8)) : Itoa :=
  ⟨BitVec.ofNat 32 cs.length,
    (((⟨buff, 0, []⟩ : Buffer (BitVec 8)).pushes cs.reverse).set cs.length 0).reverse cs.length⟩

theorem formats_finish (buff : Nat → BitVec 8) {cs : List (BitVec 8)}
    (hlength : cs.length < 2 ^ 32) : Formats (finish buff cs) cs := by
  let stored : Buffer (BitVec 8) := (⟨buff, 0, []⟩ : Buffer (BitVec 8)).pushes cs.reverse
  have hstored : stored.Holds 0 cs.reverse := Buffer.holds_pushes ⟨buff, 0, []⟩ cs.reverse
  have hset : (stored.set cs.length 0).Holds 0 cs.reverse :=
    hstored.set (by rw [List.length_reverse, Nat.zero_add]) 0
  obtain ⟨hcontents, hwritten⟩ := Buffer.reverse_spec cs.length (stored.set cs.length 0)
  refine ⟨?_, ?_, ?_, fun k hk ↦ ?_⟩
  · rw [finish, BitVec.toNat_ofNat, Nat.mod_eq_of_lt hlength]
  · have hreverse := Buffer.holds_reverse hset
    rwa [List.length_reverse, List.reverse_reverse] at hreverse
  · rw [finish, hcontents, if_neg (Nat.lt_irrefl _), Buffer.set_contents_self]
  · rcases hwritten k hk with hk | hk
    · rcases List.mem_cons.mp hk with rfl | hk
      · exact Nat.le_refl _
      · rcases Buffer.mem_written_pushes.mp hk with hk | ⟨-, hk⟩
        · exact absurd hk List.not_mem_nil
        · rw [List.length_reverse, Nat.zero_add] at hk
          exact Nat.le_of_lt hk
    · exact Nat.le_of_lt hk

/-- For a radix from 2 to 16, `itoa` returns. -/
theorem itoaReturns_finish (value : BitVec 64) (buff : Nat → BitVec 8) (sign pad : BitVec 32)
    (h₂ : 2 ≤ radix.toNat) (h₁₆ : radix.toNat ≤ 16) :
    ItoaReturns value buff radix sign pad (finish buff (itoaChars value radix pad)) := by
  have hlength := length_digitsOf_le_sixtyFour h₂ value
  have hchars := length_itoaChars value radix pad
  have hpad := pad.isLt
  -- the characters in the order in which they are stored
  have hbody : (itoaChars value radix pad).reverse =
      (digitsOf radix.toNat value.toNat).map digitChar ++
        List.replicate (pad.toNat - (digitsOf radix.toNat value.toNat).length) 0 := by
    rw [itoaChars, List.reverse_append, List.reverse_replicate, numeral, ← List.map_reverse,
      List.reverse_reverse]
  have hptr : (BitVec.ofNat 32
      ((⟨buff, 0, []⟩ : Buffer (BitVec 8)).pushes
        ((digitsOf radix.toNat value.toNat).map digitChar)).ptr).toNat =
      (digitsOf radix.toNat value.toNat).length := by
    rw [Buffer.pushes_ptr, List.length_map, Nat.zero_add, BitVec.toNat_ofNat,
      Nat.mod_eq_of_lt (by omega)]
  have hstored : ((⟨buff, 0, []⟩ : Buffer (BitVec 8)).pushes
      (itoaChars value radix pad).reverse).ptr = (itoaChars value radix pad).length := by
    rw [Buffer.pushes_ptr, List.length_reverse, Nat.zero_add]
  have hlen : (BitVec.ofNat 32 (itoaChars value radix pad).length).toNat =
      (itoaChars value radix pad).length := by
    rw [BitVec.toNat_ofNat, Nat.mod_eq_of_lt (by omega)]
  refine ⟨64, ?_⟩
  rw [itoa_of_digitLoop sign pad (Nat.not_lt.mpr h₁₆) (digitLoop_eq h₂ hlength _)]
  simp only [hptr, ← Buffer.pushes_append, ← hbody, hstored, hlen, finish]

theorem itoaReturns_formats (value : BitVec 64) (buff : Nat → BitVec 8) (sign pad : BitVec 32)
    (h₂ : 2 ≤ radix.toNat) (h₁₆ : radix.toNat ≤ 16) :
    ∃ r, ItoaReturns value buff radix sign pad r ∧ Formats r (itoaChars value radix pad) := by
  refine ⟨_, itoaReturns_finish value buff sign pad h₂ h₁₆, formats_finish buff ?_⟩
  have hlength := length_digitsOf_le_sixtyFour h₂ value
  have hpad := pad.isLt
  rw [length_itoaChars]
  omega

end result

end Hypervi.Freestanding
