import Hypervi.Mtrr.Sdm

/-!
# Ranges the processor has disabled

The processor ignores a variable range whose valid bit is clear, the fixed ranges
when they are not supported or not enabled, and every range when
`IA32_MTRR_DEF_TYPE.E` is clear.  `ept_init_mtrr` tests all of these except `E`.
`disabled_ranges_ignored_iff` says when the memory types nevertheless do not
depend on ranges the processor ignores: when `E` is set, or when no range is read
at all.
-/

namespace Hypervi.Mtrr

open Bits Ia32

/-- Two register contents that agree on the capabilities, on the default type and
on every range that the processor uses in one of them. -/
structure AgreeOnEnabled (msrs msrs' : Msrs) : Prop where
  capabilities : msrs ia32MtrrCapabilities = msrs' ia32MtrrCapabilities
  defType : msrs ia32MtrrDefType = msrs' ia32MtrrDefType
  pairs : ∀ i < variableRangeCount msrs,
    variableEnabled msrs i = true ∨ variableEnabled msrs' i = true →
      msrs (physbase i) = msrs' (physbase i) ∧ msrs (physmask i) = msrs' (physmask i)
  bytes : fixedEnabled msrs = true → ∀ r ∈ fixedRangeRegisters, msrs r.1 = msrs' r.1

/-- The lookups depend on the decoded ranges and the default type only. -/
theorem eptGetMemoryType_congr {g g' : Globals} (h : ranges g = ranges g')
    (hd : g.defaultMemoryType = g'.defaultMemoryType) (start size : BitVec 64) :
    eptGetMemoryType g start size = eptGetMemoryType g' start size := by
  rw [eptGetMemoryType_eq, eptGetMemoryType_eq, h, hd]

theorem variableRangeCount_congr {msrs msrs' : Msrs}
    (h : msrs ia32MtrrCapabilities = msrs' ia32MtrrCapabilities) :
    variableRangeCount msrs = variableRangeCount msrs' := by
  rw [variableRangeCount, variableRangeCount, h]

theorem fixedRangesRead_congr {msrs msrs' : Msrs}
    (h : msrs ia32MtrrCapabilities = msrs' ia32MtrrCapabilities)
    (hd : msrs ia32MtrrDefType = msrs' ia32MtrrDefType) :
    fixedRangesRead msrs = fixedRangesRead msrs' := by
  rw [fixedRangesRead, fixedRangesRead, h, hd]

theorem activeFixedRanges_congr {msrs msrs' : Msrs}
    (hread : fixedRangesRead msrs = fixedRangesRead msrs')
    (h : fixedRangesRead msrs = true → ∀ r ∈ fixedRangeRegisters, msrs r.1 = msrs' r.1) :
    activeFixedRanges msrs = activeFixedRanges msrs' := by
  unfold activeFixedRanges
  rw [← hread]
  split
  · next hr =>
    refine List.flatMap_congr fun r hmem ↦ ?_
    rw [rangesOfRegister, rangesOfRegister, h hr r hmem]
  · rfl

/-- With `E` set, contents that agree on the enabled ranges decode alike. -/
theorem decodedRanges_congr {msrs msrs' : Msrs} (h : AgreeOnEnabled msrs msrs')
    (he : MtrrDefType.mtrrEnable.test (msrs ia32MtrrDefType) = true) (rax : Nat → BitVec 64) :
    decodedRanges rax msrs = decodedRanges rax msrs' := by
  have he' : MtrrDefType.mtrrEnable.test (msrs' ia32MtrrDefType) = true := h.defType ▸ he
  have hfix := activeFixedRanges_congr (fixedRangesRead_congr h.capabilities h.defType) fun hr ↦ by
    obtain ⟨hs, hf⟩ := Bool.and_eq_true_iff.mp hr
    exact h.bytes (by rw [fixedEnabled, he, hf, hs]; rfl)
  have hvar : variableRanges rax msrs = variableRanges rax msrs' := by
    rw [variableRanges, variableRanges, ← variableRangeCount_congr h.capabilities]
    refine List.filterMap_congr fun i hi ↦ ?_
    have key := h.pairs i (List.mem_range.mp hi)
    rw [variableEnabled, variableEnabled, he, he', Bool.true_and, Bool.true_and] at key
    unfold variableRangeAt
    by_cases hv : MtrrPhysmask.valid.test (msrs (physmask i)) = true
    · obtain ⟨hb, hm⟩ := key (Or.inl hv)
      rw [hb, hm]
    · by_cases hv' : MtrrPhysmask.valid.test (msrs' (physmask i)) = true
      · obtain ⟨hb, hm⟩ := key (Or.inr hv')
        rw [hb, hm]
      · rw [if_neg hv, if_neg hv']
  rw [decodedRanges, decodedRanges, hfix, hvar]

/-- Lookups agree where the decoded ranges do. -/
theorem AgreeOnEnabled.lookup_congr {rax : Nat → BitVec 64} {msrs msrs' : Msrs}
    (h : AgreeOnEnabled msrs msrs') (hd : decodedRanges rax msrs = decodedRanges rax msrs')
    (start size : BitVec 64) : eptGetMemoryType (eptInitMtrr rax msrs) start size =
      eptGetMemoryType (eptInitMtrr rax msrs') start size := by
  refine eptGetMemoryType_congr ?_ ?_ start size
  · rw [ranges_eptInitMtrr, ranges_eptInitMtrr, hd]
  · simp only [eptInitMtrr, h.defType]

/-- When no range is read, the table stays empty. -/
theorem decodedRanges_eq_nil {msrs : Msrs} (hc : variableRangeCount msrs = 0)
    (hf : fixedRangesRead msrs = false) (rax : Nat → BitVec 64) : decodedRanges rax msrs = [] := by
  simp [decodedRanges, activeFixedRanges, variableRanges, hc, hf]

/-! ## What leaks when `E` is clear -/

/-- Registers with the given capabilities and default type, a first variable pair
and a first fixed-range register; all others are zero. -/
def registers (cap defType base mask fix : BitVec 64) : Msrs := fun id ↦
  if id = ia32MtrrCapabilities then cap
  else if id = ia32MtrrDefType then defType
  else if id = ia32MtrrPhysbase0 then base
  else if id = ia32MtrrPhysmask0 then mask
  else if id = ia32MtrrFix64k00000 then fix
  else 0

section registers

variable {cap defType base mask fix base' mask' fix' : BitVec 64}

/-- Without `E` the processor uses no range, so that everything agrees. -/
theorem agreeOnEnabled_registers (he : MtrrDefType.mtrrEnable.test defType = false) :
    AgreeOnEnabled (registers cap defType base mask fix)
      (registers cap defType base' mask' fix') where
  capabilities := rfl
  defType := rfl
  pairs i _ h := by
    have hd : ∀ b m f, registers cap defType b m f ia32MtrrDefType = defType := fun _ _ _ ↦ rfl
    simp [variableEnabled, hd, he] at h
  bytes h := by
    have hd : registers cap defType base mask fix ia32MtrrDefType = defType := rfl
    simp [fixedEnabled, hd, he] at h

/-- The registers of a pair other than the first are zero, but for pair 127: its
mask is `IA32_MTRR_DEF_TYPE`, and the bit for valid is `E` there. -/
theorem variableRangeAt_registers (he : MtrrDefType.mtrrEnable.test defType = false)
    (rax : Nat → BitVec 64) {i : Nat} (h₀ : i ≠ 0) (hi : i < 256) :
    variableRangeAt rax (registers cap defType base mask fix) i = none := by
  have hnat : (physmask i).toNat = 0x201 + i * 2 := by
    rw [physmask, BitVec.toNat_add, BitVec.toNat_ofNat]
    simp only [ia32MtrrPhysmask0]
    simp
    omega
  have hne : ∀ id : BitVec 32, id.toNat ≠ 0x201 + i * 2 → physmask i ≠ id := fun id h heq ↦
    h (heq ▸ hnat)
  have hv : MtrrPhysmask.valid.test (registers cap defType base mask fix (physmask i)) = false := by
    unfold registers
    rw [if_neg (hne ia32MtrrCapabilities (by simp [ia32MtrrCapabilities]; omega))]
    split
    · exact he
    · rw [if_neg (hne ia32MtrrPhysbase0 (by simp [ia32MtrrPhysbase0]; omega)),
        if_neg (hne ia32MtrrPhysmask0 (by simp [ia32MtrrPhysmask0]; omega)),
        if_neg (hne ia32MtrrFix64k00000 (by simp [ia32MtrrFix64k00000]; omega))]
      decide
  exact if_neg (by simp [hv])

theorem variableRangeAt_zero_registers (rax : Nat → BitVec 64) :
    variableRangeAt rax (registers cap defType base mask fix) 0 =
      if MtrrPhysmask.valid.test mask then some (variableRange (rax 0) base mask) else none := rfl

/-- At most the first pair gives a variable range. -/
theorem variableRanges_registers (he : MtrrDefType.mtrrEnable.test defType = false)
    (hc : (MtrrCapabilities.variableRangeCount.get cap).toNat ≠ 0) (rax : Nat → BitVec 64) :
    variableRanges rax (registers cap defType base mask fix) =
      (variableRangeAt rax (registers cap defType base mask fix) 0).toList := by
  obtain ⟨n, hn⟩ : ∃ n, variableRangeCount (registers cap defType base mask fix) = n + 1 :=
    Nat.exists_eq_succ_of_ne_zero hc
  have hlt := variableRangeCount_le (registers cap defType base mask fix)
  have hrest : (List.map Nat.succ (List.range n)).filterMap
      (variableRangeAt rax (registers cap defType base mask fix)) = [] := by
    rw [List.filterMap_eq_nil_iff]
    intro i hi
    obtain ⟨j, hj, rfl⟩ := List.mem_map.mp hi
    have := List.mem_range.mp hj
    have hmax : maxVariableRangeMtrrs = 255 := rfl
    exact variableRangeAt_registers he rax (Nat.succ_ne_zero j) (by omega)
  rw [variableRanges, hn, List.range_succ_eq_map, List.filterMap_cons]
  cases variableRangeAt rax (registers cap defType base mask fix) 0 <;> simp [hrest]

/-- The first fixed range shows the first byte of its register. -/
theorem eptGetMemoryType_registers_fixed
    (hf : fixedRangesRead (registers cap defType base mask fix) = true) (rax : Nat → BitVec 64) :
    eptGetMemoryType (eptInitMtrr rax (registers cap defType base mask fix)) 0 0x1000 =
      fix.extractLsb' 0 8 := by
  obtain ⟨rest, hrest⟩ : ∃ rest, fixedRanges (registers cap defType base mask fix) =
      fixedRange fix 0 0x10000 0 :: rest := ⟨_, rfl⟩
  have hcov : (fixedRange fix 0 0x10000 0).Covers 0 := by simp [fixedRange, MtrrData.Covers]
  rw [eptGetMemoryType_eptInitMtrr_page (by simp), activeFixedRanges, if_pos hf, hrest,
    List.find?_cons_of_pos (by simpa using hcov)]
  rfl

/-- A first variable range of one page shows its type at address `0`, and without
it the default type is found. -/
theorem eptGetMemoryType_registers_variable
    (he : MtrrDefType.mtrrEnable.test defType = false)
    (hc : (MtrrCapabilities.variableRangeCount.get cap).toNat ≠ 0)
    (hf : fixedRangesRead (registers cap defType base mask fix) = false) (rax : Nat → BitVec 64) :
    eptGetMemoryType (eptInitMtrr rax (registers cap defType base mask fix)) 0 0x1000 =
      resolve ((MtrrDefType.defaultMemoryType.get defType).setWidth 8)
        (typesAt (variableRangeAt rax (registers cap defType base mask fix) 0).toList 0) := by
  rw [eptGetMemoryType_eptInitMtrr_page (by simp), activeFixedRanges, hf,
    variableRanges_registers he hc]
  rfl

/-- Two contents of the first fixed-range register are told apart. -/
theorem registers_fixed_ne
    (hf : (MtrrCapabilities.fixedRangeSupported.test cap &&
      MtrrDefType.fixedRangeMtrrEnable.test defType) = true) (rax : Nat → BitVec 64) :
    eptGetMemoryType (eptInitMtrr rax (registers cap defType 0 0 0)) 0 0x1000 ≠
      eptGetMemoryType (eptInitMtrr rax (registers cap defType 0 0 1)) 0 0x1000 := by
  have hread : ∀ fix, fixedRangesRead (registers cap defType 0 0 fix) = true := fun fix ↦ hf
  rw [eptGetMemoryType_registers_fixed (hread 0), eptGetMemoryType_registers_fixed (hread 1)]
  decide

/-- A variable range whose type is not the default one is told apart from no range. -/
theorem exists_registers_variable_ne (he : MtrrDefType.mtrrEnable.test defType = false)
    (hc : (MtrrCapabilities.variableRangeCount.get cap).toNat ≠ 0)
    (hf : (MtrrCapabilities.fixedRangeSupported.test cap &&
      MtrrDefType.fixedRangeMtrrEnable.test defType) = false) :
    ∃ base : BitVec 64,
      eptGetMemoryType (eptInitMtrr (fun _ ↦ 0) (registers cap defType base 0x1800 0)) 0 0x1000 ≠
        eptGetMemoryType (eptInitMtrr (fun _ ↦ 0) (registers cap defType base 0 0)) 0 0x1000 := by
  by_contra! h
  have hread : ∀ b m, fixedRangesRead (registers cap defType b m 0) = false := fun b m ↦ hf
  have key : ∀ (base : BitVec 64) (t : MemoryType),
      variableRange 0 base 0x1800 = ⟨true, false, t, 0, 0x1000⟩ →
      resolve ((MtrrDefType.defaultMemoryType.get defType).setWidth 8) [t] =
        resolve ((MtrrDefType.defaultMemoryType.get defType).setWidth 8) [] := by
    intro base t ht
    have heq := h base
    rw [eptGetMemoryType_registers_variable he hc (hread _ _),
      eptGetMemoryType_registers_variable he hc (hread _ _), variableRangeAt_zero_registers,
      variableRangeAt_zero_registers, if_pos (by decide), if_neg (by decide), ht] at heq
    exact heq
  -- the default type cannot be both of these
  have h₀ := key 0 memoryTypeUncacheable (by decide +kernel)
  have h₆ := key 6 memoryTypeWriteBack (by decide +kernel)
  rw [← h₀] at h₆
  exact absurd (show memoryTypeWriteBack = memoryTypeUncacheable from h₆) (by decide)

end registers

/-- The memory types do not depend on ranges the processor ignores exactly when
`E` is set, or when neither variable nor fixed ranges are read. -/
theorem disabled_ranges_ignored_iff (cap defType : BitVec 64) :
    (∀ (rax : Nat → BitVec 64) (msrs msrs' : Msrs), msrs ia32MtrrCapabilities = cap →
      msrs ia32MtrrDefType = defType → AgreeOnEnabled msrs msrs' → ∀ start size,
        eptGetMemoryType (eptInitMtrr rax msrs) start size =
          eptGetMemoryType (eptInitMtrr rax msrs') start size) ↔
    (MtrrDefType.mtrrEnable.test defType = true ∨
      (MtrrCapabilities.variableRangeCount.get cap = 0 ∧
        (MtrrCapabilities.fixedRangeSupported.test cap &&
          MtrrDefType.fixedRangeMtrrEnable.test defType) = false)) := by
  constructor
  · intro h
    by_contra hcon
    rw [not_or, Bool.not_eq_true] at hcon
    obtain ⟨he, hcon⟩ := hcon
    have hall := fun base mask fix base' mask' fix' ↦ h (fun _ ↦ 0)
      (registers cap defType base mask fix) (registers cap defType base' mask' fix') rfl rfl
      (agreeOnEnabled_registers he) 0 0x1000
    by_cases hf : (MtrrCapabilities.fixedRangeSupported.test cap &&
        MtrrDefType.fixedRangeMtrrEnable.test defType) = true
    · exact registers_fixed_ne hf _ (hall 0 0 0 0 0 1)
    · rw [Bool.not_eq_true] at hf
      have hc : (MtrrCapabilities.variableRangeCount.get cap).toNat ≠ 0 := fun h0 ↦
        hcon ⟨BitVec.eq_of_toNat_eq h0, hf⟩
      obtain ⟨base, hne⟩ := exists_registers_variable_ne he hc hf
      exact hne (hall base 0x1800 0 base 0 0)
  · rintro (he | ⟨hc, hf⟩) rax msrs msrs' rfl rfl hagree start size
    · exact hagree.lookup_congr (decodedRanges_congr hagree he rax) start size
    · have hc₀ : variableRangeCount msrs = 0 := by rw [variableRangeCount, hc]; rfl
      have hf' : fixedRangesRead msrs' = false :=
        (fixedRangesRead_congr hagree.capabilities hagree.defType).symm.trans hf
      refine hagree.lookup_congr ?_ start size
      rw [decodedRanges_eq_nil hc₀ hf,
        decodedRanges_eq_nil (variableRangeCount_congr hagree.capabilities ▸ hc₀) hf']

/-- With `E` clear, a write-through page that the processor ignores changes the
type of address `0` from the default, write-back. -/
theorem disabled_range_leaks :
    AgreeOnEnabled (registers 1 6 4 0x1800 0) (registers 1 6 4 0 0) ∧
      eptGetMemoryType (eptInitMtrr (fun _ ↦ 0) (registers 1 6 4 0x1800 0)) 0 0x1000 ≠
        eptGetMemoryType (eptInitMtrr (fun _ ↦ 0) (registers 1 6 4 0 0)) 0 0x1000 :=
  ⟨agreeOnEnabled_registers (by decide), by decide +kernel⟩

end Hypervi.Mtrr
