import Hypervi.Freestanding.Libc

/-!
# `strcmp` and `strlen`

The loops of `string.cc`, with the offsets that they read and with no bound on the length of
a string: a loop that has not ended when its steps run out has no result.

* `strcmpFrom_spec`: `strcmp` ends, reads neither string behind its NUL, and its sign is that
  of the lexicographic order on unsigned bytes.
* `strlenFrom_eq`: `strlen` ends at the NUL.  The pointer is behind it then, and the
  difference that is returned is one more than the length.
-/

namespace Hypervi.Freestanding

/-! ## `strcmp` -/

/-- The result of `strcmp`, and the offsets at which it has read the two strings. -/
structure Comparison where
  result : Int
  readA : List Nat
  readB : List Nat

/-- The loop of `strcmp`, from the offset that the two pointers have reached. -/
def strcmpFrom (a b : Nat → BitVec 8) : Nat → Nat → Option Comparison
  | 0, _ => none
  | fuel + 1, k =>
      let difference : Int := (a k).toNat - (b k).toNat
      -- `while (*a)`
      if a k = 0 then some ⟨difference, [k, k], [k]⟩
      -- `if (*a != *b)`
      else if a k ≠ b k then some ⟨difference, [k, k, k], [k, k]⟩
      else
        (strcmpFrom a b fuel (k + 1)).map fun r ↦ ⟨r.result, k :: k :: r.readA, k :: r.readB⟩

/-- The sign of `r` tells how the strings compare. -/
structure Verdict (r : Int) (cs ds : List (BitVec 8)) : Prop where
  neg : r < 0 ↔ cs < ds
  zero : r = 0 ↔ cs = ds
  pos : 0 < r ↔ ds < cs

namespace Verdict

variable {r : Int} {c d : BitVec 8} {cs ds : List (BitVec 8)}

/-- Strings of one first character compare as what follows it. -/
theorem cons (h : Verdict r cs ds) : Verdict r (c :: cs) (c :: ds) := by
  have hirrefl : ¬ c < c := BitVec.lt_irrefl c
  refine ⟨?_, ?_, ?_⟩
  · rw [h.neg, List.cons_lt_cons_iff]
    simp [hirrefl]
  · rw [h.zero, List.cons.injEq, and_iff_right rfl]
  · rw [h.pos, List.cons_lt_cons_iff]
    simp [hirrefl]

theorem nil : Verdict ((0 : BitVec 8).toNat - (0 : BitVec 8).toNat) [] [] :=
  ⟨by simp, by simp, by simp⟩

/-- A string that ends is before one that goes on. -/
theorem nil_cons (hd : d ≠ 0) : Verdict ((0 : BitVec 8).toNat - d.toNat) [] (d :: ds) := by
  have hpos : 0 < d.toNat := Nat.pos_of_ne_zero fun h ↦ hd (BitVec.eq_of_toNat_eq h)
  have hzero : (0 : BitVec 8).toNat = 0 := rfl
  refine ⟨?_, ?_, ?_⟩
  · exact iff_of_true (by omega) (List.nil_lt_cons d ds)
  · exact iff_of_false (by omega) (List.cons_ne_nil d ds).symm
  · exact iff_of_false (by omega) (List.not_lt_nil _)

theorem cons_nil (hc : c ≠ 0) : Verdict (c.toNat - (0 : BitVec 8).toNat) (c :: cs) [] := by
  have hpos : 0 < c.toNat := Nat.pos_of_ne_zero fun h ↦ hc (BitVec.eq_of_toNat_eq h)
  have hzero : (0 : BitVec 8).toNat = 0 := rfl
  refine ⟨?_, ?_, ?_⟩
  · exact iff_of_false (by omega) (List.not_lt_nil _)
  · exact iff_of_false (by omega) (List.cons_ne_nil c cs)
  · exact iff_of_true (by omega) (List.nil_lt_cons c cs)

/-- Where the strings differ, the bytes decide. -/
theorem cons_cons (hne : c ≠ d) : Verdict (c.toNat - d.toNat) (c :: cs) (d :: ds) := by
  have hne' : c.toNat ≠ d.toNat := fun h ↦ hne (BitVec.eq_of_toNat_eq h)
  refine ⟨?_, ?_, ?_⟩
  · rw [List.cons_lt_cons_iff, or_iff_left (fun h ↦ hne h.1), BitVec.lt_def]
    omega
  · refine iff_of_false (by omega) fun h ↦ ?_
    exact hne (List.cons.inj h).1
  · rw [List.cons_lt_cons_iff, or_iff_left (fun h ↦ hne h.1.symm), BitVec.lt_def]
    omega

end Verdict

/-- The characters from offset `k` on are those of the list, and then a NUL. -/
def SpellsFrom (a : Nat → BitVec 8) (k : Nat) (cs : List (BitVec 8)) : Prop :=
  (∀ c ∈ cs, c ≠ 0) ∧ ∀ j ≤ cs.length, a (k + j) = cs.getD j 0

section spells

variable {a b : Nat → BitVec 8} {k : Nat} {c : BitVec 8} {cs ds : List (BitVec 8)}

theorem Spells.from {s : CString} (h : Spells a s) : SpellsFrom a 0 s.chars :=
  ⟨s.ne_nul, fun j hj ↦ by
    rw [Nat.zero_add]
    exact h j hj⟩

theorem spellsFrom_nil_iff : SpellsFrom a k [] ↔ a k = 0 := by
  constructor
  · exact fun h ↦ h.2 0 (Nat.le_refl 0)
  · intro h
    refine ⟨fun c hc ↦ absurd hc List.not_mem_nil, fun j hj ↦ ?_⟩
    rw [Nat.le_zero.mp hj]
    exact h

theorem SpellsFrom.tail (h : SpellsFrom a k (c :: cs)) :
    a k = c ∧ c ≠ 0 ∧ SpellsFrom a (k + 1) cs := by
  obtain ⟨hne, heq⟩ := h
  obtain ⟨hc, hcs⟩ := List.forall_mem_cons.mp hne
  refine ⟨heq 0 (Nat.zero_le _), hc, hcs, fun j hj ↦ ?_⟩
  rw [Nat.add_assoc, Nat.add_comm 1 j]
  exact heq (j + 1) (Nat.succ_le_succ hj)

/-- The characters at a pointer are those of one string only. -/
theorem SpellsFrom.unique (h : SpellsFrom a k cs) (h' : SpellsFrom a k ds) : cs = ds := by
  induction cs generalizing ds k with
  | nil =>
      cases ds with
      | nil => rfl
      | cons d ds =>
          obtain ⟨hd, hd0, -⟩ := h'.tail
          exact absurd (hd.symm.trans (spellsFrom_nil_iff.mp h)) hd0
  | cons c cs ih =>
      obtain ⟨hc, hc0, hcs⟩ := h.tail
      cases ds with
      | nil => exact absurd (hc.symm.trans (spellsFrom_nil_iff.mp h')) hc0
      | cons d ds =>
          obtain ⟨hd, -, hds⟩ := h'.tail
          rw [hc.symm.trans hd, ih hcs hds]

/-- The loop stops at the end of the first string, or where the two differ. -/
theorem strcmpFrom_of_zero (h : a k = 0) (fuel : Nat) :
    strcmpFrom a b (fuel + 1) k = some ⟨(a k).toNat - (b k).toNat, [k, k], [k]⟩ := by
  rw [strcmpFrom]
  exact if_pos h

theorem strcmpFrom_of_ne (h : a k ≠ 0) (hne : a k ≠ b k) (fuel : Nat) :
    strcmpFrom a b (fuel + 1) k = some ⟨(a k).toNat - (b k).toNat, [k, k, k], [k, k]⟩ := by
  rw [strcmpFrom]
  simp only [if_neg h, if_pos hne]

theorem strcmpFrom_of_eq (h : a k ≠ 0) (heq : a k = b k) (fuel : Nat) :
    strcmpFrom a b (fuel + 1) k =
      (strcmpFrom a b fuel (k + 1)).map
        fun r ↦ ⟨r.result, k :: k :: r.readA, k :: r.readB⟩ := by
  rw [strcmpFrom]
  simp only [if_neg h, if_neg (not_not_intro heq)]

/-- What is read from the next offset on, and this offset. -/
theorem forall_mem_cons_le {k n : Nat} {reads : List Nat} (h : ∀ i ∈ reads, i ≤ k + 1 + n) :
    ∀ i ∈ k :: reads, i ≤ k + (n + 1) := by
  rw [List.forall_mem_cons]
  refine ⟨Nat.le_add_right _ _, fun i hi ↦ ?_⟩
  have hle := h i hi
  omega

/-- `strcmp` ends with the string that ends first, or where they differ. -/
theorem strcmpFrom_spec (ha : SpellsFrom a k cs) (hb : SpellsFrom b k ds) :
    ∃ r, strcmpFrom a b (cs.length + 1) k = some r ∧ Verdict r.result cs ds ∧
      (∀ i ∈ r.readA, i ≤ k + cs.length) ∧ ∀ i ∈ r.readB, i ≤ k + ds.length := by
  induction cs generalizing ds k with
  | nil =>
      have hzero := spellsFrom_nil_iff.mp ha
      refine ⟨_, strcmpFrom_of_zero hzero _, ?_, by simp, by simp⟩
      rw [hzero]
      cases ds with
      | nil =>
          rw [spellsFrom_nil_iff.mp hb]
          exact Verdict.nil
      | cons d ds =>
          obtain ⟨hd, hd0, -⟩ := hb.tail
          rw [hd]
          exact Verdict.nil_cons hd0
  | cons c cs ih =>
      obtain ⟨hc, hc0, hcs⟩ := ha.tail
      have hgo : a k ≠ 0 := by rwa [hc]
      cases ds with
      | nil =>
          have hzero := spellsFrom_nil_iff.mp hb
          have hne : a k ≠ b k := by rwa [hzero]
          refine ⟨_, strcmpFrom_of_ne hgo hne _, ?_, by simp, by simp⟩
          rw [hc, hzero]
          exact Verdict.cons_nil hc0
      | cons d ds =>
          obtain ⟨hd, -, hds⟩ := hb.tail
          by_cases hcd : c = d
          · subst hcd
            obtain ⟨r, hr, hverdict, hreadA, hreadB⟩ := ih hcs hds
            rw [List.length_cons, strcmpFrom_of_eq hgo (hc.trans hd.symm), hr]
            refine ⟨_, rfl, hverdict.cons, ?_, forall_mem_cons_le hreadB⟩
            exact List.forall_mem_cons.mpr ⟨Nat.le_add_right _ _, forall_mem_cons_le hreadA⟩
          · have hne : a k ≠ b k := by rwa [hc, hd]
            refine ⟨_, strcmpFrom_of_ne hgo hne _, ?_, by simp, by simp⟩
            rw [hc, hd]
            exact Verdict.cons_cons hcd

/-- Where the loop stops, its result is the difference. -/
theorem result_of_stop (hstop : ¬ (a k ≠ 0 ∧ a k = b k)) {fuel : Nat} {r : Comparison}
    (hr : strcmpFrom a b (fuel + 1) k = some r) : r.result = (a k).toNat - (b k).toNat := by
  by_cases hzero : a k = 0
  · rw [strcmpFrom_of_zero hzero] at hr
    rw [← Option.some.inj hr]
  · rw [strcmpFrom_of_ne hzero fun heq ↦ hstop ⟨hzero, heq⟩] at hr
    rw [← Option.some.inj hr]

/-- The loop has the result of `strcmp`, which makes as many steps as it is given. -/
theorem strcmpFrom_result {n : Nat} (h : a (k + n) = 0 ∨ b (k + n) = 0) {r : Comparison}
    (hr : strcmpFrom a b (n + 1) k = some r) :
    r.result = strcmp n (fun j ↦ a (k + j)) (fun j ↦ b (k + j)) := by
  induction n generalizing k r with
  | zero =>
      refine result_of_stop (fun hgo ↦ ?_) hr
      rcases h with ha | hb
      · exact hgo.1 ha
      · exact hgo.1 (hgo.2.trans hb)
  | succ n ih =>
      rw [strcmp]
      simp only [Nat.add_zero]
      by_cases hgo : a k ≠ 0 ∧ a k = b k
      · rw [strcmpFrom_of_eq hgo.1 hgo.2] at hr
        obtain ⟨r', hr', rfl⟩ := Option.map_eq_some_iff.mp hr
        have hnext : a (k + 1 + n) = 0 ∨ b (k + 1 + n) = 0 := by
          rwa [Nat.add_assoc, Nat.add_comm 1 n]
        have hrec := ih hnext hr'
        simp only [Nat.add_assoc, Nat.add_comm 1] at hrec
        rw [if_pos hgo]
        exact hrec
      · rw [if_neg hgo]
        exact result_of_stop hgo hr

end spells

/-! ## `strlen` -/

/-- The loop of `strlen`, from the offset that the pointer has reached: what is returned, and
the offsets that are read. -/
def strlenFrom (a : Nat → BitVec 8) : Nat → Nat → Option (BitVec 64 × List Nat)
  | 0, _ => none
  | fuel + 1, k =>
      -- `*(str++) != '\0'`
      if a k ≠ 0 then (strlenFrom a fuel (k + 1)).map fun r ↦ (r.1, k :: r.2)
      else some (BitVec.ofNat 64 (k + 1), [k])

section strlen

variable {a : Nat → BitVec 8} {s : CString}

/-- The loop needs one more step than there are characters, and returns their number plus
one. -/
theorem strlenFrom_eq {cs : List (BitVec 8)} {k : Nat} (h : SpellsFrom a k cs) (fuel : Nat) :
    strlenFrom a fuel k =
      if cs.length < fuel then
        some (BitVec.ofNat 64 (k + cs.length + 1), List.range' k (cs.length + 1))
      else none := by
  induction fuel generalizing k cs with
  | zero => rw [if_neg (Nat.not_lt_zero _), strlenFrom]
  | succ fuel ih =>
      rw [strlenFrom]
      cases cs with
      | nil =>
          rw [if_neg (not_not_intro (spellsFrom_nil_iff.mp h)), List.length_nil,
            if_pos (Nat.succ_pos fuel)]
          rfl
      | cons c cs =>
          obtain ⟨hc, hc0, hcs⟩ := h.tail
          have hgo : a k ≠ 0 := by rwa [hc]
          rw [if_pos hgo, ih hcs, List.length_cons]
          by_cases hlt : cs.length < fuel
          · rw [if_pos hlt, if_pos (Nat.succ_lt_succ hlt), Option.map_some, Nat.add_assoc k 1,
              Nat.add_comm 1]
            rfl
          · rw [if_neg hlt, if_neg fun h ↦ hlt (Nat.lt_of_succ_lt_succ h)]
            rfl

/-- `strlen` returns the length, and reads nothing behind the NUL. -/
def StrlenReturnsLength (a : Nat → BitVec 8) (s : CString) : Prop :=
  ∃ fuel reads, strlenFrom a fuel 0 = some (BitVec.ofNat 64 s.length, reads) ∧
    ∀ i ∈ reads, i ≤ s.length

/-- It reads up to the NUL, and returns one more. -/
theorem strlenFrom_of_spells (h : Spells a s) :
    strlenFrom a (s.length + 1) 0 =
      some (BitVec.ofNat 64 (s.length + 1), List.range' 0 (s.length + 1)) := by
  have hlt : s.chars.length < s.length + 1 := Nat.lt_succ_self _
  rw [strlenFrom_eq h.from, if_pos hlt, Nat.zero_add]
  rfl

/-- **Length.**  The length is returned for no string. -/
theorem not_strlenReturnsLength (a : Nat → BitVec 8) (s : CString) (h : Spells a s) :
    ¬ StrlenReturnsLength a s := by
  rintro ⟨fuel, reads, hreturns, -⟩
  rw [strlenFrom_eq h.from] at hreturns
  split at hreturns
  · have hlength := congrArg Prod.fst (Option.some.inj hreturns)
    have hsucc : BitVec.ofNat 64 (0 + s.chars.length + 1) = BitVec.ofNat 64 s.length + 1 := by
      rw [Nat.zero_add, BitVec.ofNat_add]
      rfl
    rw [hsucc] at hlength
    generalize BitVec.ofNat 64 s.length = n at hlength
    bv_omega
  · cases hreturns

end strlen

/-- The empty string. -/
def emptyString : CString := ⟨[], fun _ h ↦ absurd h List.not_mem_nil⟩

theorem not_strlenReturnsLength_letters :
    ¬ StrlenReturnsLength (CString.ofChars ['a', 'b'] rfl).char (CString.ofChars ['a', 'b'] rfl) :=
  not_strlenReturnsLength (CString.ofChars ['a', 'b'] rfl).char (CString.ofChars ['a', 'b'] rfl)
    fun _ _ ↦ rfl

/-- The length of the empty string comes out as one. -/
theorem not_strlenReturnsLength_empty : ¬ StrlenReturnsLength (fun _ ↦ 0) emptyString := by
  rintro ⟨fuel, reads, hreturns, -⟩
  cases fuel with
  | zero => cases hreturns
  | succ fuel =>
      rw [strlenFrom, if_neg (not_not_intro rfl)] at hreturns
      have hzero : (1 : BitVec 64) = 0 := congrArg Prod.fst (Option.some.inj hreturns)
      exact absurd hzero (by decide)

end Hypervi.Freestanding
