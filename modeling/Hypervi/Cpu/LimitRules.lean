import Hypervi.Bits.Run
import Hypervi.Cpu.SegmentRules

/-!
# The rule for limits and granularity

A segment register holds a limit of 32 bits, which a descriptor gives by 20 bits
and the granularity bit: either the 20 bits, or the 20 bits above twelve ones.  The
SDM states the rule bit by bit, and `granularityRule_iff_expandedLimit` says that it
describes the limits a descriptor can have.

The checker tests the twelve low bits as a whole, in both places where it makes this
check: it requires `G` to be clear when none of them is set, while the rule requires
it when one of them is clear.  `limitRules_iff` says which accepted VMCSs obey the
rule: those in which no segment in pages has low bits of both kinds.
-/

namespace Hypervi.Cpu

open Bits Ia32

/-- The rule of the SDM: a limit with a clear bit among the bits 11:0 is not in
pages, and one with a set bit among the bits 31:20 is. -/
def GranularityRule (ar limit : BitVec 32) : Prop :=
  ((∃ i < 12, limit.getLsbD i = false) → AccessRights.granularity.get ar = 0) ∧
    ((∃ i, 20 ≤ i ∧ i < 32 ∧ limit.getLsbD i = true) → AccessRights.granularity.get ar = 1)

/-! ## Bits and masks -/

theorem isRun_lowBits : IsRun (0xfff#32) 0 12 := isRun_of_forall_lt (by decide) (by decide)

theorem isRun_highBits : IsRun (0xfff00000#32) 20 32 := isRun_of_forall_lt (by decide) (by decide)

section masks

variable {limit : BitVec 32}

theorem exists_clear_lowBit :
    (∃ i < 12, limit.getLsbD i = false) ↔ limit &&& 0xfff#32 ≠ 0xfff#32 := by
  rw [ne_eq, isRun_lowBits.and_eq_self_iff]
  constructor
  · rintro ⟨i, hi, hbit⟩ hall
    exact Bool.false_ne_true (hbit.symm.trans (hall i (Nat.zero_le i) hi))
  · intro hne
    by_contra hall
    exact hne fun i _ hi ↦ (Bool.not_eq_false _).mp fun hbit ↦ hall ⟨i, hi, hbit⟩

theorem exists_set_highBit :
    (∃ i, 20 ≤ i ∧ i < 32 ∧ limit.getLsbD i = true) ↔ limit &&& 0xfff00000#32 ≠ 0 := by
  rw [ne_eq, BitVec.ofNat_eq_ofNat, isRun_highBits.and_eq_zero_iff]
  constructor
  · rintro ⟨i, hi, hlt, hbit⟩ hall
    exact Bool.false_ne_true ((hall i hi hlt).symm.trans hbit)
  · intro hne
    by_contra hall
    exact hne fun i hi hlt ↦ (Bool.not_eq_true _).mp fun hbit ↦ hall ⟨i, hi, hlt, hbit⟩

/-- The rule, with the masks that the code uses. -/
theorem granularityRule_iff {ar : BitVec 32} :
    GranularityRule ar limit ↔
      (limit &&& 0xfff#32 ≠ 0xfff#32 → AccessRights.granularity.get ar = 0) ∧
      (limit &&& 0xfff00000#32 ≠ 0 → AccessRights.granularity.get ar = 1) := by
  rw [GranularityRule, exists_clear_lowBit, exists_set_highBit]

end masks

/-! ## The limits a descriptor can have -/

section expanded

variable {limit : BitVec 32}

theorem and_lowBits_eq_iff : limit &&& 0xfff#32 = 0xfff#32 ↔ limit.toNat % 0x1000 = 0xfff := by
  rw [← BitVec.toNat_inj, BitVec.toNat_and]
  exact Eq.congr (Nat.and_two_pow_sub_one_eq_mod limit.toNat 12) rfl

theorem and_highBits_eq_iff : limit &&& 0xfff00000#32 = 0 ↔ limit.toNat < 2 ^ 20 := by
  rw [BitVec.ofNat_eq_ofNat, isRun_highBits.and_eq_zero_iff]
  constructor
  · intro hbits
    refine Nat.lt_pow_two_of_testBit _ fun i hi ↦ ?_
    by_cases hlt : i < 32
    · exact hbits i hi hlt
    · exact BitVec.getLsbD_of_ge limit i (Nat.le_of_not_lt hlt)
  · intro hlt i hi _
    exact Nat.testBit_lt_two_pow (Nat.lt_of_lt_of_le hlt (Nat.pow_le_pow_right (by decide) hi))

theorem exists_expandedLimit_bytes :
    (∃ raw : BitVec 20, limit.setWidth 64 = expandedLimit raw false) ↔ limit.toNat < 2 ^ 20 := by
  have hwidth : (limit.setWidth 64).toNat = limit.toNat :=
    BitVec.toNat_setWidth_of_le (by decide)
  constructor
  · rintro ⟨raw, hraw⟩
    rw [← hwidth, hraw, Freestanding.toNat_expandedLimit_bytes]
    exact raw.isLt
  · intro hlt
    refine ⟨limit.setWidth 20, BitVec.eq_of_toNat_eq ?_⟩
    rw [hwidth, Freestanding.toNat_expandedLimit_bytes, BitVec.toNat_setWidth,
      Nat.mod_eq_of_lt hlt]

theorem exists_expandedLimit_pages :
    (∃ raw : BitVec 20, limit.setWidth 64 = expandedLimit raw true) ↔
      limit.toNat % 0x1000 = 0xfff := by
  have hwidth : (limit.setWidth 64).toNat = limit.toNat :=
    BitVec.toNat_setWidth_of_le (by decide)
  constructor
  · rintro ⟨raw, hraw⟩
    rw [← hwidth, hraw, Freestanding.toNat_expandedLimit_pages]
    omega
  · intro hlow
    refine ⟨limit.extractLsb' 12 20, BitVec.eq_of_toNat_eq ?_⟩
    have hlt := limit.isLt
    rw [hwidth, Freestanding.toNat_expandedLimit_pages, BitVec.extractLsb'_toNat,
      Nat.shiftRight_eq_div_pow]
    omega

/-- The rule describes the limits that a descriptor can have. -/
theorem granularityRule_iff_expandedLimit {ar : BitVec 32} :
    GranularityRule ar limit ↔
      ∃ raw : BitVec 20,
        limit.setWidth 64 = expandedLimit raw (AccessRights.granularity.test ar) := by
  rw [granularityRule_iff]
  cases hg : AccessRights.granularity.test ar with
  | false =>
      rw [Field.test_eq_false_iff] at hg
      rw [exists_expandedLimit_bytes, ← and_highBits_eq_iff, hg]
      constructor
      · rintro ⟨-, hhigh⟩
        exact not_not.mp fun hne ↦ absurd (hhigh hne) (by decide)
      · exact fun hhigh ↦ ⟨fun _ ↦ rfl, fun hne ↦ absurd hhigh hne⟩
  | true =>
      rw [← Field.get_eq_one_iff rfl] at hg
      rw [exists_expandedLimit_pages, ← and_lowBits_eq_iff, hg]
      constructor
      · rintro ⟨hlow, -⟩
        exact not_not.mp fun hne ↦ absurd (hlow hne) (by decide)
      · exact fun hlow ↦ ⟨fun hne ↦ absurd hlow hne, fun _ ↦ rfl⟩

end expanded

/-! ## The accepted limits -/

/-- The registers to which the rule applies. -/
def LimitApplies (read : VmcsField → BitVec 64) (s : SegmentRegister) : Prop :=
  s = .cs ∨ s = .tr ∨ (s ∈ .ss :: dataRegisters ∧ Usable read s)

/-- The low bits of the limit are all clear or all set. -/
def LowBitsUniform (limit : BitVec 32) : Prop :=
  limit &&& 0xfff#32 = 0 ∨ limit &&& 0xfff#32 = 0xfff#32

section accepted

variable {read : VmcsField → BitVec 64}

/-- The check of the granularity is made for the registers to which the rule applies. -/
theorem granularityFits_of_passes (h : cpuVmxcheckGuest read = .ok ()) {s : SegmentRegister}
    (hs : LimitApplies read s) : GranularityFits (accessRights read s) (segLimit read s) := by
  obtain ⟨-, -, hseg, htr, -, -⟩ := cpuVmxcheckGuest_eq_ok.mp h
  rw [checkSegments_eq_ok] at hseg
  have hform : ∀ seg : SegmentType,
      seg = .cs ∨ AccessRights.unusable.get (accessRights read seg.register) = 0 →
        GranularityFits (accessRights read seg.register) (segLimit read seg.register) :=
    fun seg hchecked ↦ ((checkSegmentAccessRights_eq_ok.mp (hseg seg)).2.2.1 hchecked).2
  rcases hs with rfl | rfl | ⟨hs, hu⟩
  · exact hform .cs (.inl rfl)
  · exact (checkTr_eq_ok.mp htr).2.2.2.2.2.2.2
  · rcases List.mem_cons.mp hs with rfl | hs
    · exact hform .ss (.inr hu)
    · obtain ⟨seg, rfl, -, -⟩ := exists_segmentType hs
      exact hform seg (.inr hu)

/-- A limit that the check accepts obeys the rule when the segment is in bytes, or its low
bits are all alike. -/
theorem granularityRule_iff_of_fits {ar limit : BitVec 32} (h : GranularityFits ar limit) :
    GranularityRule ar limit ↔ AccessRights.granularity.get ar = 0 ∨ LowBitsUniform limit := by
  obtain ⟨hlow, hhigh⟩ := h
  rw [granularityRule_iff]
  constructor
  · rintro ⟨hrule, -⟩
    by_cases hones : limit &&& 0xfff#32 = 0xfff#32
    · exact .inr (.inr hones)
    · exact .inl (hrule hones)
  · rintro (hg | hzero | hones)
    · exact ⟨fun _ ↦ hg, hhigh⟩
    · exact ⟨fun _ ↦ hlow hzero, hhigh⟩
    · exact ⟨fun hne ↦ absurd hones hne, hhigh⟩

end accepted

/-- The limits of a VMCS that `cpu_vmxcheck` accepts obey the rule exactly when no
segment in pages has low bits of both kinds. -/
theorem limitRules_iff (p : VmxInstructions) (vmcs : Vmcs) (h : cpuVmxcheck p vmcs = true) :
    (∀ s, LimitApplies (cpuVmxread p vmcs) s →
      GranularityRule (accessRights (cpuVmxread p vmcs) s) (segLimit (cpuVmxread p vmcs) s)) ↔
    ∀ s, LimitApplies (cpuVmxread p vmcs) s →
      AccessRights.granularity.get (accessRights (cpuVmxread p vmcs) s) = 0 ∨
        LowBitsUniform (segLimit (cpuVmxread p vmcs) s) := by
  refine forall₂_congr fun s hs ↦ granularityRule_iff_of_fits ?_
  exact granularityFits_of_passes (cpuVmxcheck_eq_true.mp h) hs

/-- The 64-bit guest with a code segment in pages that has the limit `0x1001`. -/
def mixedLimitVmcs : Vmcs
  | .guestLimit .cs => 0x1001
  | field => longModeVmcs field

/-- It is accepted, although no descriptor has that limit. -/
theorem cpuVmxcheck_mixedLimit :
    cpuVmxcheck ⟨fun _ ↦ 0, fun _ ↦ 0⟩ mixedLimitVmcs = true ∧
      ¬ ∀ s, LimitApplies (cpuVmxread ⟨fun _ ↦ 0, fun _ ↦ 0⟩ mixedLimitVmcs) s →
        GranularityRule (accessRights (cpuVmxread ⟨fun _ ↦ 0, fun _ ↦ 0⟩ mixedLimitVmcs) s)
          (segLimit (cpuVmxread ⟨fun _ ↦ 0, fun _ ↦ 0⟩ mixedLimitVmcs) s) := by
  refine ⟨by decide +kernel, fun h ↦ ?_⟩
  have hclear : (0x1001#32).getLsbD 1 = false := by decide
  exact absurd ((h .cs (.inl rfl)).1 ⟨1, by decide, hclear⟩) (by decide +kernel)

/-- The code segment of the 64-bit guest, whose limit is in pages, obeys the rule. -/
theorem limitRules_longModeVmcs :
    LimitApplies (cpuVmxread ⟨fun _ ↦ 0, fun _ ↦ 0⟩ longModeVmcs) .cs ∧
      GranularityRule (accessRights (cpuVmxread ⟨fun _ ↦ 0, fun _ ↦ 0⟩ longModeVmcs) .cs)
        (segLimit (cpuVmxread ⟨fun _ ↦ 0, fun _ ↦ 0⟩ longModeVmcs) .cs) := by
  have happlies : LimitApplies (cpuVmxread ⟨fun _ ↦ 0, fun _ ↦ 0⟩ longModeVmcs) .cs :=
    .inl rfl
  refine ⟨happlies, (limitRules_iff _ longModeVmcs (by decide +kernel)).mpr ?_ .cs happlies⟩
  intro s _
  cases s with
  | cs | ss => exact .inr (.inr (by decide +kernel))
  | _ => exact .inl (by decide +kernel)

end Hypervi.Cpu
