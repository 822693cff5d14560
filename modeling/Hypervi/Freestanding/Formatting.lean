import Hypervi.Freestanding.Itoa
import Hypervi.Freestanding.Strings

/-!
# Formatting numbers

What is expected of `itoa`, and when it holds.

* Without padding the result is the numeral of the number (`itoa_roundTrip`).
* Padding is with the byte 0, which ends up in front, so that a padded string is empty
  (`not_padded`).
* The sign is looked for in an unsigned number, so that there is never one
  (`signedFormat_iff`).
* A radix of 0 or 1 gets through the guard, and the division by it faults or does not end
  (`itoa_returns_iff`).
-/

namespace Hypervi.Freestanding

open Numerals

/-! ## Characters -/

/-- The digit that a character stands for, from `0` to `9` and from `A` to `F`. -/
def digitValue (c : BitVec 8) : Option Nat :=
  if 0x30 ≤ c.toNat ∧ c.toNat ≤ 0x39 then some (c.toNat - 0x30)
  else if 0x41 ≤ c.toNat ∧ c.toNat ≤ 0x46 then some (c.toNat - 0x41 + 10)
  else none

theorem digitValue_digitChar : ∀ d < 16, digitValue (digitChar d) = some d := by decide

theorem digitChar_ne_zero : ∀ d < 16, digitChar d ≠ 0 := by decide

/-- `-` -/
def minus : BitVec 8 := 0x2D

theorem digitChar_ne_minus : ∀ d < 16, digitChar d ≠ minus := by decide

section chars

variable {radix n : Nat}

theorem forall_numeral {P : BitVec 8 → Prop} (h : ∀ d < 16, P (digitChar d)) (h₂ : 2 ≤ radix)
    (h₁₆ : radix ≤ 16) : ∀ c ∈ numeral digitChar radix n, P c := by
  intro c hc
  obtain ⟨d, hd, rfl⟩ := List.mem_map.mp hc
  exact h d (Nat.lt_of_lt_of_le (digitsOf_lt h₂ (List.mem_reverse.mp hd)) h₁₆)

/-- The numeral of a number. -/
theorem isNumeral_digitChar (h₂ : 2 ≤ radix) (h₁₆ : radix ≤ 16) :
    IsNumeral digitValue radix (numeral digitChar radix n) n :=
  isNumeral_numeral (fun d hd ↦ digitValue_digitChar d (Nat.lt_of_lt_of_le hd h₁₆)) h₂ n

theorem Formats.spells {r : Itoa} {s : CString} (h : Formats r s.chars) :
    Spells r.buff.contents s := by
  intro k hk
  rcases Nat.lt_or_eq_of_le hk with hlt | rfl
  · have hchar := h.chars k s.chars[k] (List.getElem?_eq_getElem hlt)
    rw [Nat.zero_add] at hchar
    rw [hchar, CString.char, List.getD_eq_getElem _ _ hlt]
  · exact h.nul.trans s.char_length.symm

theorem Formats.toInt_count {r : Itoa} {cs : List (BitVec 8)} (h : Formats r cs)
    (hlt : cs.length < 2 ^ 31) : r.count.toInt = cs.length := by
  have hsmall : 2 * r.count.toNat < 2 ^ 32 := by
    rw [h.count]
    omega
  rw [BitVec.toInt_eq_toNat_of_lt hsmall, h.count]

end chars

/-! ## Without padding -/

/-- The result is a string `s` of as many characters as are counted, the numeral of the
number, and nothing is written behind its NUL. -/
structure RoundTrip (value : BitVec 64) (radix : BitVec 32) (r : Itoa) (s : CString) : Prop where
  spells : Spells r.buff.contents s
  count : r.count.toInt = s.length
  numeral : IsNumeral digitValue radix.toNat s.chars value.toNat
  written : ∀ k ∈ r.buff.written, k ≤ s.length
  /-- In radix 16 there are at most 17 bytes. -/
  hex : radix = 16 → ∀ k ∈ r.buff.written, k < 17

section unpadded

variable {value : BitVec 64} {radix : BitVec 32}

/-- Without padding there are digits only. -/
theorem itoaChars_zero (value : BitVec 64) (radix : BitVec 32) :
    itoaChars value radix 0 = numeral digitChar radix.toNat value.toNat := by
  have hzero : (0 : BitVec 32).toNat = 0 := rfl
  rw [itoaChars, hzero, Nat.zero_sub]
  rfl

theorem length_numeral_lt (h₂ : 2 ≤ radix.toNat) (value : BitVec 64) :
    (numeral digitChar radix.toNat value.toNat).length < 2 ^ 31 := by
  have hlength := length_digitsOf_le_sixtyFour h₂ value
  rw [length_numeral]
  omega

/-- The characters of a number fit into 17 bytes in radix 16, with the NUL. -/
theorem length_numeral_hex (value : BitVec 64) :
    (numeral digitChar 16 value.toNat).length ≤ 16 := by
  rw [length_numeral]
  exact length_digitsOf_le (by decide) (by decide) (Nat.lt_of_lt_of_le value.isLt (by decide))

/-- **Round trip.** -/
theorem itoa_roundTrip (value : BitVec 64) (buff : Nat → BitVec 8) (radix : BitVec 32)
    (h₂ : 2 ≤ radix.toNat) (h₁₆ : radix.toNat ≤ 16) :
    ∃ r s, ItoaReturns value buff radix 0 0 r ∧ RoundTrip value radix r s := by
  obtain ⟨r, hreturns, hformats⟩ := itoaReturns_formats value buff 0 0 h₂ h₁₆
  rw [itoaChars_zero] at hformats
  let s : CString := ⟨numeral digitChar radix.toNat value.toNat,
    forall_numeral digitChar_ne_zero h₂ h₁₆⟩
  refine ⟨r, s, hreturns, Formats.spells hformats,
    hformats.toInt_count (length_numeral_lt h₂ value), isNumeral_digitChar h₂ h₁₆,
    hformats.written, ?_⟩
  rintro rfl k hk
  exact Nat.lt_succ_of_le (Nat.le_trans (hformats.written k hk) (length_numeral_hex value))

end unpadded

/-- A number in radix 16. -/
theorem itoa_roundTrip_hex :
    ∃ r s, ItoaReturns 0xBEEF (fun _ ↦ 0xFF) 16 0 0 r ∧ RoundTrip 0xBEEF 16 r s :=
  itoa_roundTrip 0xBEEF (fun _ ↦ 0xFF) 16 (by decide) (by decide)

/-! ## Padding -/

/-- The result is a string of the width asked for: zeros, and the numeral of the number. -/
def Padded (value : BitVec 64) (buff : Nat → BitVec 8) (radix pad : BitVec 32) : Prop :=
  ∃ r s, ItoaReturns value buff radix 0 pad r ∧ Spells r.buff.contents s ∧
    s.length = pad.toNat ∧ r.count.toInt = pad.toNat ∧
    s.chars =
      List.replicate (pad.toNat - (digitsOf radix.toNat value.toNat).length) (digitChar 0) ++
        numeral digitChar radix.toNat value.toNat ∧
    decode digitValue radix.toNat s.chars = some value.toNat

/-- A padded number starts with a NUL. -/
theorem contents_zero_of_pad {value : BitVec 64} {buff : Nat → BitVec 8} {radix pad : BitVec 32}
    (h₂ : 2 ≤ radix.toNat) (h₁₆ : radix.toNat ≤ 16)
    (hpad : (digitsOf radix.toNat value.toNat).length < pad.toNat) {r : Itoa}
    (h : ItoaReturns value buff radix 0 pad r) : r.buff.contents 0 = 0 := by
  obtain ⟨r', hreturns, hformats⟩ := itoaReturns_formats value buff 0 pad h₂ h₁₆
  obtain rfl := h.unique (Nat.not_lt.mpr h₁₆) hreturns
  refine hformats.chars 0 0 ?_
  obtain ⟨n, hn⟩ := Nat.exists_eq_succ_of_ne_zero (Nat.sub_ne_zero_of_lt hpad)
  rw [itoaChars, hn]
  rfl

/-- A string whose first byte is NUL has no width. -/
theorem not_padded_of_contents_zero {value : BitVec 64} {buff : Nat → BitVec 8}
    {radix pad : BitVec 32} (hpos : 0 < pad.toNat)
    (h : ∀ r, ItoaReturns value buff radix 0 pad r → r.buff.contents 0 = 0) :
    ¬ Padded value buff radix pad := by
  rintro ⟨r, s, hreturns, hspells, hlength, -, -, -⟩
  rw [← hlength] at hpos
  refine s.char_ne_zero hpos ?_
  rw [← hspells 0 (Nat.zero_le _)]
  exact h r hreturns

/-- **Padding.**  No number is padded. -/
theorem not_padded (value : BitVec 64) (buff : Nat → BitVec 8) (radix pad : BitVec 32)
    (h₂ : 2 ≤ radix.toNat) (h₁₆ : radix.toNat ≤ 16)
    (hpad : (digitsOf radix.toNat value.toNat).length < pad.toNat) :
    ¬ Padded value buff radix pad :=
  not_padded_of_contents_zero (Nat.lt_of_le_of_lt (Nat.zero_le _) hpad)
    fun _ hreturns ↦ contents_zero_of_pad h₂ h₁₆ hpad hreturns

theorem not_padded_hex : ¬ Padded 0xBEEF (fun _ ↦ 0xFF) 16 8 :=
  not_padded 0xBEEF (fun _ ↦ 0xFF) 16 8 (by decide) (by decide) (by decide +kernel)

/-- The number 5 in two digits. -/
theorem not_padded_five : ¬ Padded 5 (fun _ ↦ 0xFF) 10 2 :=
  not_padded_of_contents_zero (by decide) fun _ hreturns ↦
    contents_zero_of_pad (by decide) (by decide) (by decide +kernel) hreturns

/-! ## Signs -/

/-- The numeral of a number that may be negative. -/
def signedNumeral (radix : Nat) (z : Int) : List (BitVec 8) :=
  if z < 0 then minus :: numeral digitChar radix z.natAbs else numeral digitChar radix z.natAbs

/-- The result is the numeral of the number read as a signed one, and what
`efi_console_hex` lets `itoa` write is in its buffer of 17 bytes. -/
structure SignedFormat (value : BitVec 64) (buff : Nat → BitVec 8) (radix sign : BitVec 32) :
    Prop where
  signed : ∃ r s, ItoaReturns value buff radix sign 0 r ∧ Spells r.buff.contents s ∧
    r.count.toInt = s.length ∧ s.chars = signedNumeral radix.toNat value.toInt
  room : ∃ r, ItoaReturns value buff 16 1 0 r ∧ ∀ k ∈ r.buff.written, k < 17

section signed

variable {value : BitVec 64} {radix : BitVec 32}

/-- The sign is not asked for: the result is that of an unsigned number. -/
theorem room_hex (value : BitVec 64) (buff : Nat → BitVec 8) :
    ∃ r, ItoaReturns value buff 16 1 0 r ∧ ∀ k ∈ r.buff.written, k < 17 := by
  obtain ⟨r, hreturns, hformats⟩ :
      ∃ r, ItoaReturns value buff 16 1 0 r ∧ Formats r (itoaChars value 16 0) :=
    itoaReturns_formats value buff 1 0 (by decide) (by decide)
  rw [itoaChars_zero] at hformats
  refine ⟨r, hreturns, fun k hk ↦ ?_⟩
  exact Nat.lt_succ_of_le (Nat.le_trans (hformats.written k hk) (length_numeral_hex value))

/-- The numeral of a negative number starts with another character. -/
theorem numeral_ne_signedNumeral (h₂ : 2 ≤ radix.toNat) (h₁₆ : radix.toNat ≤ 16)
    (hneg : value.toInt < 0) :
    numeral digitChar radix.toNat value.toNat ≠ signedNumeral radix.toNat value.toInt := by
  intro heq
  have hmem : minus ∈ numeral digitChar radix.toNat value.toNat := by
    rw [heq, signedNumeral, if_pos hneg]
    exact List.mem_cons_self
  have hne : ∀ c ∈ numeral digitChar radix.toNat value.toNat, c ≠ minus :=
    forall_numeral digitChar_ne_minus h₂ h₁₆
  exact hne minus hmem rfl

/-- What `itoa` leaves, whatever the sign is. -/
theorem itoaReturns_numeral (value : BitVec 64) (buff : Nat → BitVec 8) (sign : BitVec 32)
    (h₂ : 2 ≤ radix.toNat) (h₁₆ : radix.toNat ≤ 16) :
    ∃ (r : Itoa) (s : CString), ItoaReturns value buff radix sign 0 r ∧
      Spells r.buff.contents s ∧ r.count.toInt = s.length ∧
      s.chars = numeral digitChar radix.toNat value.toNat := by
  obtain ⟨r, hreturns, hformats⟩ := itoaReturns_formats value buff sign 0 h₂ h₁₆
  rw [itoaChars_zero] at hformats
  let s : CString := ⟨numeral digitChar radix.toNat value.toNat,
    forall_numeral digitChar_ne_zero h₂ h₁₆⟩
  exact ⟨r, s, hreturns, Formats.spells hformats,
    hformats.toInt_count (length_numeral_lt h₂ value), rfl⟩

theorem not_signedFormat_of_msb {buff : Nat → BitVec 8} {sign : BitVec 32} (h₂ : 2 ≤ radix.toNat)
    (h₁₆ : radix.toNat ≤ 16) (hmsb : value.msb = true) : ¬ SignedFormat value buff radix sign := by
  rintro ⟨⟨r', s', hreturns', hspells', -, hchars'⟩, -⟩
  obtain ⟨r, s, hreturns, hspells, -, hchars⟩ := itoaReturns_numeral value buff sign h₂ h₁₆
  obtain rfl := hreturns.unique (Nat.not_lt.mpr h₁₆) hreturns'
  refine numeral_ne_signedNumeral h₂ h₁₆ (BitVec.toInt_neg_of_msb_true hmsb) ?_
  rw [← hchars, ← hchars']
  exact hspells.from.unique hspells'.from

/-- **Signs.**  The result is the signed numeral exactly when bit 63 is clear. -/
theorem signedFormat_iff (value : BitVec 64) (buff : Nat → BitVec 8) (radix sign : BitVec 32)
    (h₂ : 2 ≤ radix.toNat) (h₁₆ : radix.toNat ≤ 16) :
    SignedFormat value buff radix sign ↔ value.msb = false := by
  constructor
  · intro h
    rw [← Bool.not_eq_true]
    exact fun hmsb ↦ not_signedFormat_of_msb h₂ h₁₆ hmsb h
  · intro hmsb
    obtain ⟨r, s, hreturns, hspells, hcount, hchars⟩ := itoaReturns_numeral value buff sign h₂ h₁₆
    refine ⟨⟨r, s, hreturns, hspells, hcount, ?_⟩, room_hex value buff⟩
    rw [hchars, signedNumeral, BitVec.toInt_eq_toNat_of_msb hmsb, if_neg (by omega)]
    rfl

end signed

/-- A positive number. -/
theorem signedFormat_hex : SignedFormat 0xBEEF (fun _ ↦ 0xFF) 16 1 :=
  (signedFormat_iff 0xBEEF (fun _ ↦ 0xFF) 16 1 (by decide) (by decide)).mpr (by decide)

/-- The number -1 comes out as 16 digits. -/
theorem not_signedFormat_minusOne :
    ¬ SignedFormat 0xFFFFFFFFFFFFFFFF (fun _ ↦ 0) 16 1 :=
  not_signedFormat_of_msb (by decide) (by decide) (by decide)

/-! ## Termination -/

/-- Division by one leaves the number as it is. -/
theorem digitLoop_one {value : BitVec 64} (hvalue : value ≠ 0) (fuel : Nat)
    (buff : Buffer (BitVec 8)) : digitLoop 1 fuel value buff = .error .unfinished := by
  have hdiv : value / (1 : BitVec 32).setWidth 64 = value := BitVec.udiv_one
  have hpos : 0 < value := Nat.pos_of_ne_zero fun h ↦ hvalue (BitVec.eq_of_toNat_eq h)
  induction fuel generalizing buff with
  | zero => rfl
  | succ fuel ih =>
      rw [digitLoop, if_neg (by decide)]
      simp only [hdiv, if_pos hpos]
      exact ih _

theorem digitLoop_zero (value : BitVec 64) (fuel : Nat) (buff : Buffer (BitVec 8)) :
    ∃ fault, digitLoop 0 fuel value buff = .error fault := by
  cases fuel with
  | zero => exact ⟨_, rfl⟩
  | succ fuel => exact ⟨_, rfl⟩

/-- **Termination.**  Among the radices that the guard lets through, `itoa` returns exactly
for those from 2 on, and for 1 if the number is zero. -/
theorem itoa_returns_iff (value : BitVec 64) (buff : Nat → BitVec 8) (radix sign pad : BitVec 32)
    (hguard : ¬ 16 < radix) :
    (∃ r, ItoaReturns value buff radix sign pad r) ↔
      2 ≤ radix.toNat ∨ radix = 1 ∧ value = 0 := by
  constructor
  · rintro ⟨r, fuel, hr⟩
    obtain ⟨buff', hloop⟩ := (itoa_ok_iff hguard).mp ⟨r, hr⟩
    by_contra hnot
    rw [not_or, not_and] at hnot
    obtain ⟨hsmall, hone⟩ := hnot
    have hcases : radix = 0 ∨ radix = 1 := by
      have hle : radix.toNat = 0 ∨ radix.toNat = 1 := by omega
      exact hle.imp (fun h ↦ BitVec.eq_of_toNat_eq h) fun h ↦ BitVec.eq_of_toNat_eq h
    rcases hcases with rfl | rfl
    · obtain ⟨fault, hfault⟩ := digitLoop_zero value fuel ⟨buff, 0, []⟩
      rw [hfault] at hloop
      cases hloop
    · rw [digitLoop_one (hone rfl)] at hloop
      cases hloop
  · rintro (h₂ | ⟨rfl, rfl⟩)
    · exact ⟨_, itoaReturns_finish value buff sign pad h₂ (Nat.not_lt.mp hguard)⟩
    · have hloop : digitLoop 1 1 0 ⟨buff, 0, []⟩ = .ok (.push ⟨buff, 0, []⟩ (digitChar 0)) := rfl
      exact ⟨_, 1, itoa_of_digitLoop sign pad hguard hloop⟩

/-- Decimal numbers. -/
theorem itoa_returns_decimal : ∃ r, ItoaReturns 1234 (fun _ ↦ 0) 10 1 8 r :=
  (itoa_returns_iff 1234 (fun _ ↦ 0) 10 1 8 (by decide)).mpr (.inl (by decide))

/-- The division by a radix of zero. -/
theorem not_itoa_returns_zero :
    ¬ (16 : BitVec 32) < 0 ∧ ¬ ∃ r, ItoaReturns 5 (fun _ ↦ 0) 0 0 0 r := by
  refine ⟨by decide, ?_⟩
  rintro ⟨r, fuel, hr⟩
  obtain ⟨buff', hloop⟩ := (itoa_ok_iff (by decide)).mp ⟨r, hr⟩
  obtain ⟨fault, hfault⟩ := digitLoop_zero 5 fuel ⟨fun _ ↦ 0, 0, []⟩
  rw [hfault] at hloop
  cases hloop

end Hypervi.Freestanding
