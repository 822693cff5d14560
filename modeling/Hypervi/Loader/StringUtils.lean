import Hypervi.Freestanding.Strings
import Hypervi.Memory.Runs
import Mathlib.Tactic.IntervalCases

/-!
# The labels of the volumes

`efi_fs_init` logs the label of each volume.  The label is a string of 16-bit units, and
`efi_string_to_cstring` keeps the low byte of each, up to the unit that is zero, with nothing
to say where the buffer ends.

`efiStringToCstring_eq` is the whole loop: the buffer may be in the string, as long as no unit is
overwritten before it is read.  What is logged is the label exactly when its units fit into
a byte (`volumeLabel_spec`): a unit whose low byte is zero ends the string.
-/

namespace Hypervi.Loader

open Memory Freestanding

/-! ## The code -/

/-- The loop of `efi_string_to_cstring`: memory when it ends. -/
def efiStringToCstring : Nat → Mem → BitVec 64 → BitVec 64 → Option Mem
  | 0, _, _, _ => none
  | fuel + 1, m, source, dest =>
      let unit : BitVec 16 := load 2 m source
      if unit ≠ 0 then
        efiStringToCstring fuel (Function.update m dest (unit.setWidth 8)) (source + 2) (dest + 1)
      else
        some (Function.update m dest 0)

/-- Memory when `efi_fs_init` logs `label_c`, of 512 bytes. -/
def volumeLabel (fuel : Nat) (m : Mem) (label labelC : BitVec 64) : Option Mem :=
  (efiStringToCstring fuel m label labelC).map fun m ↦ Function.update m (labelC + 511) 0

/-! ## The strings -/

/-- The units at an address are those of the list, and then a zero. -/
def SpellsUnits (m : Mem) (a : BitVec 64) : List (BitVec 16) → Prop
  | [] => load 2 m a = 0
  | u :: us => load 2 m a = u ∧ u ≠ 0 ∧ SpellsUnits m (a + 2) us

/-- No unit of a string of `n` units is overwritten before it is read. -/
def ReadFirst (source dest : BitVec 64) (n : Nat) : Prop :=
  ∀ i j, i < j → j ≤ n → Apart (dest + BitVec.ofNat 64 i) 1 (source + BitVec.ofNat 64 (2 * j)) 2

/-- The bytes of the list, from an address on. -/
def bytesAt (a : BitVec 64) (bs : List (BitVec 8)) : Run :=
  ⟨a, bs.length, fun off ↦ bs.getD off.toNat 0⟩

/-- The low bytes of the units. -/
def lowBytes (us : List (BitVec 16)) : List (BitVec 8) := us.map (·.setWidth 8)

section run

variable {m : Mem} {a source dest : BitVec 64} {b : BitVec 8} {bs : List (BitVec 8)}
  {u : BitVec 16} {us : List (BitVec 16)} {n : Nat}

theorem length_lowBytes (us : List (BitVec 16)) : (lowBytes us).length = us.length :=
  List.length_map _

theorem size_bytesAt_lowBytes (dest : BitVec 64) (us : List (BitVec 16)) :
    (bytesAt dest (lowBytes us ++ [0])).size = us.length + 1 := by
  change (lowBytes us ++ [0]).length = us.length + 1
  rw [List.length_append, length_lowBytes, List.length_singleton]

/-- The unit behind another one. -/
theorem unit_succ (a : BitVec 64) (j : Nat) :
    a + BitVec.ofNat 64 (2 * (j + 1)) = a + 2 + BitVec.ofNat 64 (2 * j) := by
  rw [Nat.mul_add, Nat.add_comm, BitVec.ofNat_add, ← BitVec.add_assoc]
  rfl

theorem ReadFirst.tail (h : ReadFirst source dest (n + 1)) :
    ReadFirst (source + 2) (dest + 1) n := by
  intro i j hij hj
  have hapart := h (i + 1) (j + 1) (Nat.succ_lt_succ hij) (Nat.succ_le_succ hj)
  have hdest : dest + BitVec.ofNat 64 (i + 1) = dest + 1 + BitVec.ofNat 64 i := by
    rw [Nat.add_comm, BitVec.ofNat_add, ← BitVec.add_assoc]
    rfl
  rw [hdest, unit_succ] at hapart
  exact hapart

/-- Writing a byte leaves a string that it is apart from. -/
theorem SpellsUnits.update (h : SpellsUnits m a us)
    (hapart : ∀ j ≤ us.length, Apart dest 1 (a + BitVec.ofNat 64 (2 * j)) 2) (b : BitVec 8) :
    SpellsUnits (Function.update m dest b) a us := by
  have hload {a : BitVec 64} (hapart : Apart dest 1 a 2) :
      load 2 (Function.update m dest b) a = load 2 m a := by
    apply load_congr
    intro i hi
    have hle := hapart.le_toNat_sub hi
    apply Function.update_of_ne
    rintro heq
    rw [heq, BitVec.sub_self] at hle
    exact Nat.not_succ_le_zero 0 hle
  have hfirst : Apart dest 1 a 2 := by
    have hzero := hapart 0 (Nat.zero_le _)
    rwa [Nat.mul_zero, BitVec.add_zero] at hzero
  induction us generalizing a with
  | nil => exact (hload hfirst).trans h
  | cons u us ih =>
      obtain ⟨hu, hne, hus⟩ := h
      have hrest : ∀ j ≤ us.length, Apart dest 1 (a + 2 + BitVec.ofNat 64 (2 * j)) 2 := by
        intro j hj
        rw [← unit_succ]
        exact hapart (j + 1) (Nat.succ_le_succ hj)
      refine ⟨(hload hfirst).trans hu, hne, ih hus hrest ?_⟩
      have hzero := hrest 0 (Nat.zero_le _)
      rwa [Nat.mul_zero, BitVec.add_zero] at hzero

/-- The first byte, and then the others. -/
theorem bytesAt_cons (hlen : bs.length < 2 ^ 64) :
    (bytesAt (a + 1) bs).write (Function.update m a b) = (bytesAt a (b :: bs)).write m := by
  funext x
  by_cases hx : x = a
  · subst hx
    have hsub : (x - (x + 1)).toNat = 2 ^ 64 - 1 := by bv_omega
    rw [Run.write_of_not_over, Run.write_of_over, Function.update_self, Run.at']
    · change b = (b :: bs).getD (x - x).toNat 0
      rw [BitVec.sub_self]
      rfl
    · change (x - x).toNat < bs.length + 1
      rw [BitVec.sub_self]
      exact Nat.succ_pos _
    · change ¬ (x - (x + 1)).toNat < bs.length
      omega
  · have hsub : (x - a).toNat = (x - (a + 1)).toNat + 1 := by bv_omega
    have hiff : (bytesAt (a + 1) bs).Over x ↔ (bytesAt a (b :: bs)).Over x := by
      change (x - (a + 1)).toNat < bs.length ↔ (x - a).toNat < bs.length + 1
      rw [hsub, Nat.add_lt_add_iff_right]
    by_cases hover : (bytesAt (a + 1) bs).Over x
    · rw [Run.write_of_over hover, Run.write_of_over (hiff.mp hover)]
      change bs.getD (x - (a + 1)).toNat 0 = (b :: bs).getD (x - a).toNat 0
      rw [hsub, List.getD_cons_succ]
    · rw [Run.write_of_not_over hover, Run.write_of_not_over (mt hiff.mpr hover),
        Function.update_of_ne hx]

theorem bytesAt_nil : (bytesAt a [b]).write m = Function.update m a b := by
  have hnil : ([] : List (BitVec 8)).length < 2 ^ 64 := Nat.two_pow_pos 64
  rw [← bytesAt_cons hnil]
  funext x
  exact Run.write_of_not_over (Run.not_over_of_size rfl) _

/-- The loop writes the low bytes of the units and a NUL. -/
theorem efiStringToCstring_eq {fuel : Nat} (h : SpellsUnits m source us)
    (hlen : us.length < 2 ^ 64 - 1) (hread : ReadFirst source dest us.length)
    (hfuel : us.length < fuel) :
    efiStringToCstring fuel m source dest = some ((bytesAt dest (lowBytes us ++ [0])).write m) := by
  induction us generalizing m source dest fuel with
  | nil =>
      obtain ⟨fuel, rfl⟩ := Nat.exists_eq_succ_of_ne_zero (Nat.ne_of_gt hfuel)
      have hzero : load 2 m source = 0 := h
      simp only [efiStringToCstring]
      rw [if_neg (not_not_intro hzero)]
      exact congrArg some bytesAt_nil.symm
  | cons u us ih =>
      obtain ⟨fuel, rfl⟩ := Nat.exists_eq_succ_of_ne_zero (Nat.ne_of_gt (Nat.zero_lt_of_lt hfuel))
      obtain ⟨hu, hne, hus⟩ := h
      have hlen' : us.length + 1 < 2 ^ 64 - 1 := hlen
      have hapart (j : Nat) (hj : j ≤ us.length) :
          Apart dest 1 (source + 2 + BitVec.ofNat 64 (2 * j)) 2 := by
        have hfirst := hread 0 (j + 1) (Nat.succ_pos j) (Nat.succ_le_succ hj)
        rw [unit_succ, show dest + BitVec.ofNat 64 0 = dest from BitVec.add_zero dest] at hfirst
        exact hfirst
      simp only [efiStringToCstring]
      rw [hu, if_pos hne, ih (hus.update hapart _) (by omega) hread.tail
        (Nat.lt_of_succ_lt_succ hfuel), bytesAt_cons]
      · rfl
      · rw [List.length_append, length_lowBytes, List.length_singleton]
        omega

end run

/-! ## What is logged -/

section logged

variable {m : Mem} {a : Nat → BitVec 8} {k : Nat} {c : BitVec 8} {cs : List (BitVec 8)}
  {us : List (BitVec 16)}

theorem spellsFrom_cons (hc : a k = c) (hne : c ≠ 0) (h : SpellsFrom a (k + 1) cs) :
    SpellsFrom a k (c :: cs) := by
  refine ⟨List.forall_mem_cons.mpr ⟨hne, h.1⟩, fun j hj ↦ ?_⟩
  cases j with
  | zero => exact hc
  | succ j =>
      have hat := h.2 j (Nat.le_of_succ_le_succ hj)
      rw [Nat.add_right_comm] at hat
      exact hat

/-- A string ends at the first byte that is zero. -/
theorem spellsFrom_takeWhile (h : ∀ j ≤ cs.length, a (k + j) = cs.getD j 0) :
    SpellsFrom a k (cs.takeWhile (· ≠ 0)) := by
  induction cs generalizing k with
  | nil => exact spellsFrom_nil_iff.mpr (h 0 (Nat.le_refl 0))
  | cons c cs ih =>
      have hc : a k = c := h 0 (Nat.zero_le _)
      by_cases hzero : c = 0
      · rw [List.takeWhile_cons_of_neg (by simpa using hzero), spellsFrom_nil_iff, hc, hzero]
      · rw [List.takeWhile_cons_of_pos (by simpa using hzero)]
        refine spellsFrom_cons hc hzero (ih fun j hj ↦ ?_)
        rw [Nat.add_right_comm]
        exact h (j + 1) (Nat.succ_le_succ hj)

theorem setWidth_setWidth_eq_iff (u : BitVec 16) :
    (u.setWidth 8).setWidth 16 = u ↔ u < 0x100 := by
  constructor <;> intro h <;> bv_omega

/-- The bytes up to the first zero are the units exactly when each of these fits. -/
theorem takeWhile_lowBytes_eq_iff (hne : ∀ u ∈ us, u ≠ 0) :
    ((lowBytes us).takeWhile (· ≠ 0)).map (·.setWidth 16) = us ↔ ∀ u ∈ us, u < 0x100 := by
  induction us with
  | nil => exact iff_of_true rfl fun u hu ↦ absurd hu List.not_mem_nil
  | cons u us ih =>
      obtain ⟨hu, hus⟩ := List.forall_mem_cons.mp hne
      rw [List.forall_mem_cons, ← ih hus, ← setWidth_setWidth_eq_iff, lowBytes, List.map_cons]
      by_cases hzero : u.setWidth 8 = 0
      · rw [List.takeWhile_cons_of_neg (by simpa using hzero), List.map_nil, hzero]
        refine iff_of_false (List.cons_ne_nil u us).symm ?_
        rintro ⟨hu0, -⟩
        exact hu hu0.symm
      · rw [List.takeWhile_cons_of_pos (by simpa using hzero), List.map_cons, List.cons.injEq]
        rfl

theorem SpellsUnits.ne_zero {a : BitVec 64} (h : SpellsUnits m a us) : ∀ u ∈ us, u ≠ 0 := by
  induction us generalizing a with
  | nil => exact fun u hu ↦ absurd hu List.not_mem_nil
  | cons u us ih =>
      obtain ⟨-, hne, hus⟩ := h
      exact List.forall_mem_cons.mpr ⟨hne, ih hus⟩

end logged

/-- What is in the buffer when the loop has ended. -/
theorem write_bytesAt_lowBytes (m : Mem) (dest : BitVec 64) {us : List (BitVec 16)}
    (hlen : us.length < 2 ^ 64) {j : Nat} (hj : j ≤ us.length) :
    (bytesAt dest (lowBytes us ++ [0])).write m (dest + BitVec.ofNat 64 j) =
      (lowBytes us).getD j 0 := by
  have hat := toNat_add_sub_self dest (Nat.lt_of_le_of_lt hj hlen)
  have hover : (bytesAt dest (lowBytes us ++ [0])).Over (dest + BitVec.ofNat 64 j) := by
    rw [Run.Over, size_bytesAt_lowBytes]
    change (dest + BitVec.ofNat 64 j - dest).toNat < us.length + 1
    rw [hat]
    exact Nat.lt_succ_of_le hj
  rw [Run.write_of_over hover]
  change (lowBytes us ++ [0]).getD (dest + BitVec.ofNat 64 j - dest).toNat 0 = _
  rw [hat]
  rcases Nat.lt_or_eq_of_le hj with hlt | rfl
  · exact List.getD_append _ _ _ _ (by rwa [length_lowBytes])
  · have hend := Nat.le_of_eq (length_lowBytes us)
    rw [List.getD_append_right _ _ _ _ hend, List.getD_eq_default _ _ hend, length_lowBytes,
      Nat.sub_self]
    rfl

/-- A label of fewer than 512 units is put into `label_c` and nowhere else, and the string that
is logged is the label exactly when each of its units fits into a byte. -/
theorem volumeLabel_spec {m : Mem} {label labelC : BitVec 64} {us : List (BitVec 16)} {fuel : Nat}
    (h : SpellsUnits m label us) (hlen : us.length < 512)
    (hread : ReadFirst label labelC us.length) (hfuel : us.length < fuel) :
    ∃ m' cs, volumeLabel fuel m label labelC = some m' ∧
      SpellsFrom (fun k ↦ m' (labelC + BitVec.ofNat 64 k)) 0 cs ∧
      (∀ x, 512 ≤ (x - labelC).toNat → m' x = m x) ∧
      (cs.map (·.setWidth 16) = us ↔ ∀ u ∈ us, u < 0x100) := by
  have hlast : (labelC + 511 - labelC).toNat = 511 := toNat_add_sub_self labelC (by decide)
  have hrun : volumeLabel fuel m label labelC = some (Function.update
      ((bytesAt labelC (lowBytes us ++ [0])).write m) (labelC + 511) 0) := by
    rw [volumeLabel, efiStringToCstring_eq h (by omega) hread hfuel]
    rfl
  refine ⟨_, _, hrun, spellsFrom_takeWhile ?_, ?_,
    takeWhile_lowBytes_eq_iff h.ne_zero⟩
  · intro j hj
    rw [length_lowBytes] at hj
    have hat := toNat_add_sub_self labelC (show j < 2 ^ 64 by omega)
    have hbyte := write_bytesAt_lowBytes m labelC (show us.length < 2 ^ 64 by omega) hj
    rw [Nat.zero_add]
    by_cases heq : labelC + BitVec.ofNat 64 j = labelC + 511
    · -- the byte that is cleared is that of the NUL
      rw [heq, hlast] at hat
      rw [heq, Function.update_self, List.getD_eq_default]
      rw [length_lowBytes]
      omega
    · rw [Function.update_of_ne heq, hbyte]
  · intro x hx
    have hne : x ≠ labelC + 511 := by
      rintro rfl
      omega
    rw [Function.update_of_ne hne, Run.write_of_not_over]
    rw [Run.Over, size_bytesAt_lowBytes]
    change ¬ (x - labelC).toNat < _
    omega

/-- The label `Ā1`. -/
def wideLabel : Mem := fun x ↦ if x = 0x1001 then 0x01 else if x = 0x1002 then 0x31 else 0

/-- The low byte of its first unit is zero, and nothing is logged. -/
theorem volumeLabel_wideLabel :
    ∃ m' cs, volumeLabel 128 wideLabel 0x1000 0x2000 = some m' ∧
      SpellsFrom (fun k ↦ m' (0x2000 + BitVec.ofNat 64 k)) 0 cs ∧
      (∀ x, 512 ≤ (x - 0x2000).toNat → m' x = wideLabel x) ∧
      (cs.map (·.setWidth 16) = [0x100, 0x31] ↔
        ∀ u ∈ ([0x100, 0x31] : List (BitVec 16)), u < 0x100) := by
  refine volumeLabel_spec ⟨by decide, by decide, by decide, by decide, ?_⟩ (by decide) ?_
    (by decide)
  · change load 2 wideLabel (0x1000 + 2 + 2) = 0
    decide
  · intro i j hij hj
    have hj' : j ≤ 2 := hj
    interval_cases j <;> interval_cases i <;> decide

end Hypervi.Loader
