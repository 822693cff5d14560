import Hypervi.Bits.Run
import Hypervi.Mtrr.Region

/-!
# The memory type the SDM computes from the registers

`sdmMemoryType` states the rule of the Intel SDM (vol. 3A, "Memory Type Range
Registers") on the registers themselves: a page of the first megabyte takes its
byte of a fixed-range register, every other page is compared with the variable
ranges under their masks.  There is no interval and no table in it.

`eptGetMemoryType_eq_sdmMemoryType` says that the table of `ept_init_mtrr` gives
the same type to every page, for registers that are `Programmed` as the SDM asks.
The two halves are `covers_fixedRange_iff`, the tiling of the first megabyte by the
88 fixed ranges, and `covers_variableRange_iff`, which turns the comparison under
a mask into the interval that starts at the base.
-/

namespace Hypervi.Mtrr

open Bits Ia32

/-! ## The rule on the registers -/

/-- The processor uses the `i`-th variable range. -/
def variableEnabled (msrs : Msrs) (i : Nat) : Bool :=
  MtrrDefType.mtrrEnable.test (msrs ia32MtrrDefType) &&
    MtrrPhysmask.valid.test (msrs (physmask i))

/-- The processor uses the fixed ranges. -/
def fixedEnabled (msrs : Msrs) : Bool :=
  MtrrDefType.mtrrEnable.test (msrs ia32MtrrDefType) &&
    MtrrDefType.fixedRangeMtrrEnable.test (msrs ia32MtrrDefType) &&
      MtrrCapabilities.fixedRangeSupported.test (msrs ia32MtrrCapabilities)

/-- The `i`-th mask, in place as a mask of addresses. -/
def maskAddress (msrs : Msrs) (i : Nat) : BitVec 64 :=
  MtrrPhysmask.pageFrameNumber.get (msrs (physmask i)) <<< 12

/-- The `i`-th base address. -/
def baseAddress (msrs : Msrs) (i : Nat) : BitVec 64 :=
  MtrrPhysbase.pageFrameNumber.get (msrs (physbase i)) <<< 12

/-- The `i`-th variable range contains the address. -/
def Matches (msrs : Msrs) (p : BitVec 64) (i : Nat) : Prop :=
  variableEnabled msrs i = true ∧ p &&& maskAddress msrs i = baseAddress msrs i &&& maskAddress msrs i

instance (msrs : Msrs) (p : BitVec 64) (i : Nat) : Decidable (Matches msrs p i) :=
  inferInstanceAs (Decidable (_ ∧ _))

/-- The type of the `i`-th variable range. -/
def variableType (msrs : Msrs) (i : Nat) : MemoryType :=
  (MtrrPhysbase.type.get (msrs (physbase i))).setWidth 8

/-- The types of the variable ranges that contain the address. -/
def sdmVariableTypes (msrs : Msrs) (p : BitVec 64) : List MemoryType :=
  (List.range (variableRangeCount msrs)).filterMap fun i ↦
    if Matches msrs p i then some (variableType msrs i) else none

/-- The fixed-range register, and the byte of it, for an address of the first
megabyte. -/
def fixedRegisterAt (p : Nat) : BitVec 32 × Nat :=
  if p < 0x80000 then (ia32MtrrFix64k00000, p / 0x10000)
  else if p < 0xC0000 then
    (ia32MtrrFix16k80000 + BitVec.ofNat 32 ((p - 0x80000) / 0x20000), (p - 0x80000) / 0x4000 % 8)
  else
    (ia32MtrrFix4kC0000 + BitVec.ofNat 32 ((p - 0xC0000) / 0x8000), (p - 0xC0000) / 0x1000 % 8)

/-- The byte of the fixed-range registers for an address of the first megabyte. -/
def sdmFixedType (msrs : Msrs) (p : Nat) : MemoryType :=
  (msrs (fixedRegisterAt p).1).extractLsb' (8 * (fixedRegisterAt p).2) 8

/-- The memory type of the page at `p`. -/
def sdmMemoryType (msrs : Msrs) (p : BitVec 64) : MemoryType :=
  if !MtrrDefType.mtrrEnable.test (msrs ia32MtrrDefType) then memoryTypeUncacheable
  else if p.toNat < 0x100000 ∧ fixedEnabled msrs = true then sdmFixedType msrs p.toNat
  else precedence ((MtrrDefType.defaultMemoryType.get (msrs ia32MtrrDefType)).setWidth 8)
    (sdmVariableTypes msrs p)

/-- Registers that are programmed as the SDM asks, on a processor with
`maxPhyAddr` physical address bits. -/
structure Programmed (maxPhyAddr : Nat) (msrs : Msrs) : Prop where
  maxPhyAddr_le : maxPhyAddr ≤ 48
  enabled : MtrrDefType.mtrrEnable.test (msrs ia32MtrrDefType) = true
  count_le : variableRangeCount msrs ≤ 254
  legal : LegalTypes msrs
  /-- A valid mask is a run of ones from some bit up to the last address bit, and
  the base is aligned to it. -/
  mask : ∀ i < variableRangeCount msrs, variableEnabled msrs i = true →
    ∃ k, 12 ≤ k ∧ k < maxPhyAddr ∧ IsRun (maskAddress msrs i) k maxPhyAddr ∧
      2 ^ k ∣ (baseAddress msrs i).toNat
  /-- The bits of `PHYSBASE` from `maxPhyAddr` on are reserved: a write that sets
  one faults, and they read zero. -/
  reserved : ∀ i < variableRangeCount msrs, variableEnabled msrs i = true →
    (baseAddress msrs i).toNat < 2 ^ maxPhyAddr
  overlap : ∀ p : BitVec 64, p.toNat < 2 ^ maxPhyAddr → DefinedOverlap (sdmVariableTypes msrs p)

/-! ## The first megabyte -/

theorem fixedRegisterAt_64k {p : Nat} (hlt : p < 0x80000) :
    fixedRegisterAt p = (ia32MtrrFix64k00000, p / 0x10000) := if_pos hlt

theorem fixedRegisterAt_16k {p q : Nat} (hq : q < 2) (hle : 0x80000 + 0x20000 * q ≤ p)
    (hlt : p < 0x80000 + 0x20000 * q + 8 * 0x4000) :
    fixedRegisterAt p =
      (ia32MtrrFix16k80000 + BitVec.ofNat 32 q, (p - (0x80000 + 0x20000 * q)) / 0x4000) := by
  have h₀ : ¬ p < 0x80000 ∧ p < 0xC0000 := by omega
  have h₁ : (p - 0x80000) / 0x20000 = q := by omega
  have h₂ : (p - 0x80000) / 0x4000 % 8 = (p - (0x80000 + 0x20000 * q)) / 0x4000 := by omega
  rw [fixedRegisterAt, if_neg h₀.1, if_pos h₀.2, h₁, h₂]

theorem fixedRegisterAt_4k {p q : Nat} (hq : q < 8) (hle : 0xC0000 + 0x8000 * q ≤ p)
    (hlt : p < 0xC0000 + 0x8000 * q + 8 * 0x1000) :
    fixedRegisterAt p =
      (ia32MtrrFix4kC0000 + BitVec.ofNat 32 q, (p - (0xC0000 + 0x8000 * q)) / 0x1000) := by
  have h₀ : ¬ p < 0x80000 ∧ ¬ p < 0xC0000 := by omega
  have h₁ : (p - 0xC0000) / 0x8000 = q := by omega
  have h₂ : (p - 0xC0000) / 0x1000 % 8 = (p - (0xC0000 + 0x8000 * q)) / 0x1000 := by omega
  rw [fixedRegisterAt, if_neg h₀.1, if_neg h₀.2, h₁, h₂]

/-- The registers of a granularity follow one another. -/
theorem mem_fixedRangeRegisters : ∀ r ∈ fixedRangeRegisters,
    r = (ia32MtrrFix64k00000, 0, 0x10000) ∨
    (∃ q < 2, r = (ia32MtrrFix16k80000 + BitVec.ofNat 32 q,
      BitVec.ofNat 64 (0x80000 + 0x20000 * q), 0x4000)) ∨
    ∃ q < 8, r = (ia32MtrrFix4kC0000 + BitVec.ofNat 32 q,
      BitVec.ofNat 64 (0xC0000 + 0x8000 * q), 0x1000) :=
  List.all_iff_forall_prop.mp (by decide)

theorem toNat_ofNat_of_lt {n : Nat} (h : n < 2 ^ 64) : (BitVec.ofNat 64 n).toNat = n :=
  (BitVec.toNat_ofNat _ _).trans (Nat.mod_eq_of_lt h)

theorem fixedRegisterAt_of_mem {r : BitVec 32 × BitVec 64 × BitVec 64}
    (hr : r ∈ fixedRangeRegisters) {p : Nat} :
    r.2.1.toNat ≤ p → p < r.2.1.toNat + 8 * r.2.2.toNat →
    fixedRegisterAt p = (r.1, (p - r.2.1.toNat) / r.2.2.toNat) := by
  rcases mem_fixedRangeRegisters r hr with rfl | ⟨q, hq, rfl⟩ | ⟨q, hq, rfl⟩
  · exact fun _ hlt ↦ fixedRegisterAt_64k hlt
  · rw [toNat_ofNat_of_lt (by omega)]
    exact fixedRegisterAt_16k hq
  · rw [toNat_ofNat_of_lt (by omega)]
    exact fixedRegisterAt_4k hq

/-- The `i`-th range of a register, as an interval of numbers. -/
theorem covers_fixedRange_iff {r : BitVec 32 × BitVec 64 × BitVec 64}
    (hr : r ∈ fixedRangeRegisters) {i : Nat} (hi : i < 8) {contents p : BitVec 64} :
    (fixedRange contents r.2.1 r.2.2 i).Covers p ↔
      r.2.1.toNat + i * r.2.2.toNat ≤ p.toNat ∧ p.toNat < r.2.1.toNat + (i + 1) * r.2.2.toNat := by
  have key : ∀ r ∈ fixedRangeRegisters, ∀ i < 8,
      (r.2.1 + r.2.2 * BitVec.ofNat 64 i).toNat = r.2.1.toNat + i * r.2.2.toNat ∧
      (r.2.1 + r.2.2 * BitVec.ofNat 64 i + r.2.2).toNat =
        r.2.1.toNat + (i + 1) * r.2.2.toNat :=
    List.all_iff_forall_prop.mp (by decide)
  obtain ⟨hb, he⟩ := key r hr i hi
  rw [MtrrData.covers_iff, fixedRange, hb, he]

/-- A fixed range has the type of its byte at every address it contains. -/
theorem type_of_covers_fixed {msrs : Msrs} {d : MtrrData} (hd : d ∈ fixedRanges msrs)
    {p : BitVec 64} (hc : d.Covers p) : d.type = sdmFixedType msrs p.toNat := by
  obtain ⟨r, hr, hd⟩ := List.mem_flatMap.mp hd
  obtain ⟨i, hi, rfl⟩ := List.mem_map.mp hd
  have hi := List.mem_range.mp hi
  obtain ⟨hle, hlt⟩ := (covers_fixedRange_iff hr hi).mp hc
  have hend : (i + 1) * r.2.2.toNat ≤ 8 * r.2.2.toNat := Nat.mul_le_mul_right _ hi
  have hdiv : (p.toNat - r.2.1.toNat) / r.2.2.toNat = i :=
    Nat.div_eq_of_lt_le (by omega) (by omega)
  rw [sdmFixedType, fixedRegisterAt_of_mem hr (by omega) (by omega), hdiv]
  rfl

/-- The fixed ranges tile the first megabyte. -/
theorem exists_fixed_covers_of_lt (msrs : Msrs) {p : BitVec 64} (hp : p.toNat < 0x100000) :
    ∃ d ∈ fixedRanges msrs, d.Covers p := by
  obtain ⟨r, hr, hpos, hle, hlt⟩ : ∃ r ∈ fixedRangeRegisters, 0 < r.2.2.toNat ∧
      r.2.1.toNat ≤ p.toNat ∧ p.toNat < r.2.1.toNat + 8 * r.2.2.toNat := by
    simp [fixedRangeRegisters]
    omega
  have hi : (p.toNat - r.2.1.toNat) / r.2.2.toNat < 8 := by
    rw [Nat.div_lt_iff_lt_mul hpos]
    omega
  refine ⟨_, List.mem_flatMap.mpr ⟨r, hr, List.mem_map.mpr ⟨_, List.mem_range.mpr hi, rfl⟩⟩,
    (covers_fixedRange_iff hr hi).mpr ?_⟩
  have hmod := Nat.div_add_mod' (p.toNat - r.2.1.toNat) r.2.2.toNat
  have hrem := Nat.mod_lt (p.toNat - r.2.1.toNat) hpos
  rw [Nat.add_mul]
  omega

theorem toNat_lt_of_covers_fixed {msrs : Msrs} {d : MtrrData} (hd : d ∈ activeFixedRanges msrs)
    {p : BitVec 64} (hc : d.Covers p) : p.toNat < 0x100000 := by
  obtain ⟨hwf, hf⟩ := mem_activeFixedRanges hd
  exact Nat.lt_of_lt_of_le (MtrrData.covers_iff.mp hc).2 (hwf.fixed_end_le hf)

/-! ## Masks and intervals -/

theorem Programmed.variableEnabled_eq {maxPhyAddr : Nat} {msrs : Msrs}
    (h : Programmed maxPhyAddr msrs) (i : Nat) :
    variableEnabled msrs i = MtrrPhysmask.valid.test (msrs (physmask i)) := by
  rw [variableEnabled, h.enabled, Bool.true_and]

theorem toNat_baseAddress (msrs : Msrs) (i : Nat) :
    (baseAddress msrs i).toNat = (msrs (physbase i)).toNat / 2 ^ 12 % 2 ^ 36 * 0x1000 := by
  have h := Field.toNat_get MtrrPhysbase.pageFrameNumber (msrs (physbase i))
  have hlt := Nat.mod_lt ((msrs (physbase i)).toNat / 2 ^ 12) (Nat.two_pow_pos 36)
  rw [baseAddress, BitVec.toNat_shiftLeft, h, Nat.shiftLeft_eq]
  simp only [MtrrPhysbase.pageFrameNumber]
  omega

/-- `bsf` finds the size of the range back from the frame numbers of the mask. -/
theorem variableSize_of_isRun {msrs : Msrs} {i k n : Nat} (h : IsRun (maskAddress msrs i) k n)
    (hk : 12 ≤ k) (hkn : k < n) (hn : n ≤ 48) (rax : BitVec 64) :
    variableSize rax (msrs (physmask i)) = 2 ^ k := by
  have hrun : IsRun (MtrrPhysmask.pageFrameNumber.get (msrs (physmask i))) (k - 12) (n - 12) := by
    intro j
    by_cases hj : j < 52
    · have hb := h (j + 12)
      rw [maskAddress, BitVec.getLsbD_shiftLeft] at hb
      have h₁ : (decide (j + 12 < 64) && !decide (j + 12 < 12)) = true := by simp; omega
      rw [h₁, Bool.true_and, Nat.add_sub_cancel] at hb
      rw [hb, decide_eq_decide]
      omega
    · rw [Field.getLsbD_get, decide_eq_false (by simp [MtrrPhysmask.pageFrameNumber]; omega),
        Bool.false_and, eq_comm, decide_eq_false_iff_not]
      omega
  have hlt : k - 12 < n - 12 := by omega
  rw [variableSize, callBsf, if_neg (hrun.ne_zero hlt), hrun.ctz hlt,
    Nat.mod_eq_of_lt (by omega : k - 12 < 64), ← Nat.pow_add, Nat.sub_add_cancel hk]
  exact Nat.mod_eq_of_lt (Nat.pow_lt_pow_right (by decide) (by omega))

/-- An address is in the decoded interval of a variable range exactly when it
matches the base under the mask. -/
theorem covers_variableRange_iff {maxPhyAddr : Nat} {msrs : Msrs} (h : Programmed maxPhyAddr msrs)
    {i : Nat} (hi : i < variableRangeCount msrs) (hv : variableEnabled msrs i = true)
    (rax : BitVec 64) {p : BitVec 64} (hp : p.toNat < 2 ^ maxPhyAddr) :
    (variableRange rax (msrs (physbase i)) (msrs (physmask i))).Covers p ↔
      p &&& maskAddress msrs i = baseAddress msrs i &&& maskAddress msrs i := by
  obtain ⟨k, hk, hkn, hrun, hdvd⟩ := h.mask i hi hv
  rw [hrun.and_eq_and_iff_mem hp (h.reserved i hi hv) hdvd, MtrrData.covers_iff,
    toNat_rangeEnd_variableRange, toNat_rangeBegin_variableRange,
    variableSize_of_isRun hrun hk hkn h.maxPhyAddr_le, toNat_baseAddress]

/-- The ranges of the table that contain a page are the variable ranges that the
page matches. -/
theorem typesAt_variableRanges {maxPhyAddr : Nat} {msrs : Msrs} (h : Programmed maxPhyAddr msrs)
    (rax : Nat → BitVec 64) {p : BitVec 64} (hp : p.toNat < 2 ^ maxPhyAddr) :
    typesAt (variableRanges rax msrs) p = sdmVariableTypes msrs p := by
  rw [typesAt, variableRanges, List.filter_filterMap, List.map_filterMap, sdmVariableTypes]
  refine List.filterMap_congr fun i hi ↦ ?_
  have hi := List.mem_range.mp hi
  by_cases hv : variableEnabled msrs i = true
  · have hvalid := hv
    rw [h.variableEnabled_eq] at hvalid
    rw [variableRangeAt, if_pos hvalid]
    by_cases hc : p &&& maskAddress msrs i = baseAddress msrs i &&& maskAddress msrs i
    · have hcov := (covers_variableRange_iff h hi hv (rax i) hp).mpr hc
      rw [if_pos ⟨hv, hc⟩]
      simp [hcov]
      rfl
    · have hcov := mt (covers_variableRange_iff h hi hv (rax i) hp).mp hc
      rw [if_neg fun hm ↦ hc hm.2]
      simp [hcov]
  · have hvalid := hv
    rw [h.variableEnabled_eq] at hvalid
    rw [variableRangeAt, if_neg hvalid, if_neg fun hm ↦ hv hm.1]
    rfl

theorem legal_of_mem_sdmVariableTypes {maxPhyAddr : Nat} {msrs : Msrs}
    (h : Programmed maxPhyAddr msrs) {p : BitVec 64} {t : MemoryType}
    (ht : t ∈ sdmVariableTypes msrs p) : t.Legal := by
  obtain ⟨i, hi, ht⟩ := List.mem_filterMap.mp ht
  split at ht
  · next hm =>
    cases ht
    exact h.legal.variable_legal i (List.mem_range.mp hi) (h.variableEnabled_eq i ▸ hm.1)
  · cases ht

/-! ## The table against the registers -/

/-- For registers that are programmed as the SDM asks, a page lookup gives the
memory type of the SDM. -/
theorem eptGetMemoryType_eq_sdmMemoryType {maxPhyAddr : Nat} {msrs : Msrs}
    (h : Programmed maxPhyAddr msrs) (rax : Nat → BitVec 64) {p : BitVec 64}
    (hp : 0x1000 ∣ p.toNat) (hlt : p.toNat < 2 ^ maxPhyAddr) :
    eptGetMemoryType (eptInitMtrr rax msrs) p 0x1000 = sdmMemoryType msrs p := by
  have hread : fixedRangesRead msrs = fixedEnabled msrs := by
    rw [fixedRangesRead, fixedEnabled, h.enabled, Bool.true_and, Bool.and_comm]
  rw [eptGetMemoryType_eptInitMtrr_page hp, sdmMemoryType, if_neg (by simp [h.enabled])]
  cases hfind : (activeFixedRanges msrs).find? (·.Covers p) with
  | some d =>
      have hmem := List.mem_of_find?_eq_some hfind
      have hc : d.Covers p := by simpa using List.find?_some hfind
      have hlow := toNat_lt_of_covers_fixed hmem hc
      unfold activeFixedRanges at hmem
      split at hmem
      · next hr =>
        rw [if_pos ⟨hlow, hread ▸ hr⟩]
        exact type_of_covers_fixed hmem hc
      · cases hmem
  | none =>
      have hnone : ¬ (p.toNat < 0x100000 ∧ fixedEnabled msrs = true) := by
        rintro ⟨hlow, hf⟩
        obtain ⟨d, hd, hc⟩ := exists_fixed_covers_of_lt msrs hlow
        have hmem : d ∈ activeFixedRanges msrs := by rwa [activeFixedRanges, if_pos (hread ▸ hf)]
        exact List.find?_eq_none.mp hfind d hmem (decide_eq_true hc)
      rw [if_neg hnone, typesAt_variableRanges h rax hlt]
      exact resolve_eq_precedence (h.overlap p hlt) fun t ht ↦ legal_of_mem_sdmVariableTypes h ht

/-- 36 address bits; write-back at `[2 GiB, 4 GiB)`, and write-through at its
first megabyte. -/
def nestedRanges : Msrs := fun id ↦
  if id = ia32MtrrCapabilities then 0x102
  else if id = ia32MtrrDefType then 0xC00
  else if id = ia32MtrrPhysbase0 then 0x80000006
  else if id = ia32MtrrPhysmask0 then 0xF80000800
  else if id = physbase 1 then 0x80000004
  else if id = physmask 1 then 0xFFFF00800
  else 0x0606060606060606

theorem programmed_nestedRanges : Programmed 36 nestedRanges where
  maxPhyAddr_le := by decide
  enabled := by decide
  count_le := by decide
  legal := ⟨by decide, fun _ ↦ List.all_iff_forall_prop.mp (by decide), by decide⟩
  mask := by
    have h : ∀ i < 2, ∃ k, 12 ≤ k ∧ k < 36 ∧
        (∀ j < 64, (maskAddress nestedRanges i).getLsbD j = decide (k ≤ j ∧ j < 36)) ∧
        2 ^ k ∣ (baseAddress nestedRanges i).toNat := by
      intro i hi
      match i, hi with
      | 0, _ => exact ⟨31, by decide +kernel⟩
      | 1, _ => exact ⟨20, by decide +kernel⟩
    intro i hi _
    obtain ⟨k, hk, hkn, hrun, hdvd⟩ := h i hi
    exact ⟨k, hk, hkn, isRun_of_forall_lt (by decide) hrun, hdvd⟩
  reserved := by decide
  overlap := by
    have h : ∀ i < 2, variableType nestedRanges i = memoryTypeWriteThrough ∨
        variableType nestedRanges i = memoryTypeWriteBack := by decide
    refine fun p _ ↦ Or.inr (Or.inr fun t ht ↦ ?_)
    obtain ⟨i, hi, ht⟩ := List.mem_filterMap.mp ht
    split at ht
    · cases ht
      exact h i (List.mem_range.mp hi)
    · cases ht

/-- Both ranges contain the page at 2 GiB, which is write-through. -/
theorem eptGetMemoryType_nestedRanges :
    eptGetMemoryType (eptInitMtrr (fun _ ↦ 0) nestedRanges) 0x80000000 0x1000 =
      memoryTypeWriteThrough :=
  (eptGetMemoryType_eq_sdmMemoryType programmed_nestedRanges (fun _ ↦ 0) (by decide)
    (by decide)).trans (by decide +kernel)

end Hypervi.Mtrr
