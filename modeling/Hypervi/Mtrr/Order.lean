import Mathlib.Data.List.FinRange
import Hypervi.Mtrr.Noninterference

/-!
# The order of the variable registers

The type of a leaf of the EPT is the type of its 2 MiB region, or, where the
region has none, that of its page (`leafType`).  Which of the two it is depends on
the order of the variable registers: a lookup of the region returns at the first
range that decides it, whether that one ends inside the region or is uncacheable.
`leafType_congr` says that the type itself does not depend on the order, as long as
the ranges overlap only where the SDM defines an outcome.

The four cases are those of the lookup of the region, each told by a condition
that does not mention the order:

* a fixed range contains its start, and the region is split;
* an uncacheable range contains all of it, and every leaf is uncacheable, split
  or not;
* a range ends inside it, and it is split;
* none of these, and it is mapped by one large page.
-/

namespace Hypervi.Mtrr

open Bits Ia32

/-- The type of the leaf for the `k`-th page of the region at `a`. -/
def leafType (g : Globals) (a : BitVec 64) (k : Nat) : MemoryType :=
  if eptGetMemoryType g a 0x200000 = memoryTypeInvalid then eptGetMemoryType g (pageAt a k) 0x1000
  else eptGetMemoryType g a 0x200000

/-! ## The type of a leaf, whatever the order -/

section cases

variable {rax : Nat → BitVec 64} {msrs : Msrs} {a : BitVec 64} {k : Nat}

/-- A region whose start a fixed range contains is split. -/
theorem leafType_of_fixed (ha : a.toNat < 2 ^ 39) {d : MtrrData}
    (hd : d ∈ activeFixedRanges msrs) (hc : d.Covers a) (hp : 0x1000 ∣ (pageAt a k).toNat) :
    leafType (eptInitMtrr rax msrs) a k =
      match (activeFixedRanges msrs).find? (·.Covers (pageAt a k)) with
      | some d => d.type
      | none => resolve (eptInitMtrr rax msrs).defaultMemoryType
          (typesAt (variableRanges rax msrs) (pageAt a k)) := by
  rw [leafType, if_pos (eptGetMemoryType_of_fixed ha hd hc)]
  exact eptGetMemoryType_eptInitMtrr_page hp

variable (ha : a.toNat < 2 ^ 39) (hal : 0x200000 ∣ a.toNat) (hk : k < 512)
  (hfix : ∀ d ∈ activeFixedRanges msrs, ¬ d.Covers a)

include ha hal hk hfix

/-- Where no fixed range reaches, a page resolves the variable ranges. -/
theorem page_of_not_fixed : eptGetMemoryType (eptInitMtrr rax msrs) (pageAt a k) 0x1000 =
    resolve (eptInitMtrr rax msrs).defaultMemoryType
      (typesAt (variableRanges rax msrs) (pageAt a k)) := by
  rw [eptGetMemoryType_pageAt ha hal hfix hk,
    typesAt_ranges_of_not_fixed (not_covers_pageAt ha hal hfix hk)]

/-- An uncacheable range that contains the whole region makes every leaf of it
uncacheable. -/
theorem leafType_of_uncacheable {d : MtrrData} (hd : d ∈ variableRanges rax msrs)
    (hc : d.Covers a) (huc : d.type = memoryTypeUncacheable) (he : ¬ d.EndsInside a 0x200000) :
    leafType (eptInitMtrr rax msrs) a k = memoryTypeUncacheable := by
  obtain ⟨e, hfind⟩ :=
    exists_decider (mem_ranges_of_mem_variableRanges hd) ⟨hc, Or.inr (Or.inr huc)⟩
  rcases decider_cases ha hfind with ⟨-, hinv⟩ | ⟨-, -, -, -, hlookup⟩
  · rw [leafType, if_pos hinv, page_of_not_fixed ha hal hk hfix]
    exact resolve_of_mem (mem_typesAt.mpr ⟨d, hd, hc.pageAt he ha hk, huc⟩)
  · rw [leafType, hlookup]
    exact if_neg (by decide)

/-- A range that ends inside the region splits it, when no uncacheable range
contains all of it. -/
theorem leafType_of_endsInside {d : MtrrData} (hd : d ∈ variableRanges rax msrs)
    (hc : d.Covers a) (he : d.EndsInside a 0x200000)
    (huc : ∀ d ∈ variableRanges rax msrs, d.Covers a → d.type = memoryTypeUncacheable →
      d.EndsInside a 0x200000) :
    leafType (eptInitMtrr rax msrs) a k = resolve (eptInitMtrr rax msrs).defaultMemoryType
      (typesAt (variableRanges rax msrs) (pageAt a k)) := by
  obtain ⟨e, hfind⟩ := exists_decider (mem_ranges_of_mem_variableRanges hd) ⟨hc, Or.inl he⟩
  rcases decider_cases ha hfind with ⟨-, hinv⟩ | ⟨hmem, hce, hne, htype, -⟩
  · rw [leafType, if_pos hinv, page_of_not_fixed ha hal hk hfix]
  · exact absurd (huc e hmem hce htype) hne

omit hal hk in
/-- Otherwise the region is mapped by one large page. -/
theorem leafType_of_large (hl : LegalTypes msrs)
    (hend : ∀ d ∈ variableRanges rax msrs, d.Covers a → ¬ d.EndsInside a 0x200000)
    (huc : ∀ d ∈ variableRanges rax msrs, d.Covers a → d.type ≠ memoryTypeUncacheable) :
    leafType (eptInitMtrr rax msrs) a k = resolve (eptInitMtrr rax msrs).defaultMemoryType
      (typesAt (variableRanges rax msrs) a) := by
  have hfind : (ranges (eptInitMtrr rax msrs)).find? (·.Decides a 0x200000) = none := by
    cases hd : (ranges (eptInitMtrr rax msrs)).find? (·.Decides a 0x200000) with
    | none => rfl
    | some d =>
        have hmem := List.mem_of_find?_eq_some hd
        obtain ⟨hc, -⟩ : d.Decides a 0x200000 := by simpa using List.find?_some hd
        rcases decider_cases ha hd with ⟨he, -⟩ | ⟨hv, -, -, htype, -⟩
        · rw [ranges_eptInitMtrr] at hmem
          rcases List.mem_append.mp hmem with hf | hv
          · exact absurd hc (hfix d hf)
          · exact absurd he (hend d hv hc)
        · exact absurd htype (huc d hv hc)
  have hlookup : eptGetMemoryType (eptInitMtrr rax msrs) a 0x200000 =
      resolve (eptInitMtrr rax msrs).defaultMemoryType (typesAt (variableRanges rax msrs) a) := by
    rw [eptGetMemoryType_of_not_decided hfind, typesAt_ranges_of_not_fixed hfix]
  have hlegal : (resolve (eptInitMtrr rax msrs).defaultMemoryType
      (typesAt (variableRanges rax msrs) a)).Legal :=
    resolve_legal hl.default_legal (hl.typesAt_variableRanges rax a)
  rw [leafType, hlookup, if_neg]
  intro h
  rw [h] at hlegal
  exact absurd hlegal (by decide)

end cases

/-! ## Two orders of the same registers -/

/-- Two register contents that differ by a permutation of the variable pairs. -/
structure PermutedPairs (msrs msrs' : Msrs) : Prop where
  capabilities : msrs ia32MtrrCapabilities = msrs' ia32MtrrCapabilities
  defType : msrs ia32MtrrDefType = msrs' ia32MtrrDefType
  fixedRegisters : ∀ r ∈ fixedRangeRegisters, msrs r.1 = msrs' r.1
  pairs : ∃ σ : Equiv.Perm (Fin (variableRangeCount msrs)), ∀ i : Fin (variableRangeCount msrs),
    msrs' (physbase i) = msrs (physbase (σ i)) ∧ msrs' (physmask i) = msrs (physmask (σ i))

/-- Every valid pair has a mask that is not zero. -/
def MasksNonzero (msrs : Msrs) : Prop :=
  ∀ i < variableRangeCount msrs, MtrrPhysmask.valid.test (msrs (physmask i)) = true →
    MtrrPhysmask.pageFrameNumber.get (msrs (physmask i)) ≠ 0

instance (msrs : Msrs) : Decidable (MasksNonzero msrs) :=
  inferInstanceAs (Decidable (∀ i < variableRangeCount msrs, _ → _))

/-- `bsf` leaves its destination alone for a zero operand only. -/
theorem variableRange_congr {mask : BitVec 64} (h : MtrrPhysmask.pageFrameNumber.get mask ≠ 0)
    (rax rax' base : BitVec 64) : variableRange rax base mask = variableRange rax' base mask := by
  simp only [variableRange, callBsf, if_neg h]

theorem variableRanges_eq_finRange (rax : Nat → BitVec 64) (msrs : Msrs) :
    variableRanges rax msrs = (List.finRange (variableRangeCount msrs)).filterMap
      fun i : Fin (variableRangeCount msrs) ↦ variableRangeAt rax msrs i := by
  rw [variableRanges, ← List.map_coe_finRange_eq_range, List.filterMap_map]
  rfl

variable {rax rax' : Nat → BitVec 64} {msrs msrs' : Msrs} {a : BitVec 64} {k : Nat}

/-- Permuted registers decode to permuted ranges. -/
theorem PermutedPairs.variableRanges (h : PermutedPairs msrs msrs') (hm : MasksNonzero msrs) :
    (variableRanges rax msrs).Perm (Mtrr.variableRanges rax' msrs') := by
  obtain ⟨σ, hσ⟩ := h.pairs
  have hat : ∀ i : Fin (variableRangeCount msrs),
      variableRangeAt rax' msrs' i = variableRangeAt rax msrs (σ i) := by
    intro i
    obtain ⟨hb, hmask⟩ := hσ i
    rw [variableRangeAt, variableRangeAt, hb, hmask]
    split
    · next hv => rw [variableRange_congr (hm (σ i) (σ i).isLt hv) (rax' i) (rax (σ i))]
    · rfl
  have hcount := variableRangeCount_congr h.capabilities
  rw [variableRanges_eq_finRange rax msrs, Mtrr.variableRanges, ← hcount,
    ← List.map_coe_finRange_eq_range, List.filterMap_map]
  have hperm := (σ.map_finRange_perm.filterMap
    fun i : Fin (variableRangeCount msrs) ↦ variableRangeAt rax msrs i).symm
  rw [List.filterMap_map] at hperm
  refine hperm.trans (List.Perm.of_eq ?_)
  exact List.filterMap_congr fun i _ ↦ (hat i).symm

theorem PermutedPairs.legalTypes (h : PermutedPairs msrs msrs') (hl : LegalTypes msrs) :
    LegalTypes msrs' := by
  obtain ⟨σ, hσ⟩ := h.pairs
  refine ⟨h.defType ▸ hl.default_legal, fun hr r hmem i hi ↦ ?_, fun i hi hv ↦ ?_⟩
  · rw [← h.fixedRegisters r hmem]
    exact hl.fixed_legal ((fixedRangesRead_congr h.capabilities h.defType).trans hr) r hmem i hi
  · rw [← variableRangeCount_congr h.capabilities] at hi
    obtain ⟨hb, hmask⟩ := hσ ⟨i, hi⟩
    change msrs' (physbase i) = _ at hb
    change msrs' (physmask i) = _ at hmask
    rw [hb]
    exact hl.variable_legal _ (σ ⟨i, hi⟩).isLt (hmask ▸ hv)

theorem typesAt_perm {rs rs' : List MtrrData} (h : rs.Perm rs') (x : BitVec 64) :
    (typesAt rs x).Perm (typesAt rs' x) := (h.filter _).map _

theorem DefinedOverlap.perm {types types' : List MemoryType} (h : DefinedOverlap types)
    (hp : types.Perm types') : DefinedOverlap types' := by
  rcases h with ⟨t, ht⟩ | h | h
  · exact Or.inl ⟨t, fun s hs ↦ ht s (hp.mem_iff.mpr hs)⟩
  · exact Or.inr (Or.inl (hp.mem_iff.mp h))
  · exact Or.inr (Or.inr fun s hs ↦ h s (hp.mem_iff.mpr hs))

/-- The fold over permuted ranges, where they overlap as the SDM allows. -/
theorem resolve_perm {default : MemoryType} {types types' : List MemoryType}
    (hp : types.Perm types') (hd : DefinedOverlap types) (hl : ∀ t ∈ types, t.Legal) :
    resolve default types = resolve default types' := by
  rw [resolve_eq_precedence hd hl, precedence_perm hp hd,
    resolve_eq_precedence (hd.perm hp) fun t ht ↦ hl t (hp.mem_iff.mpr ht)]

theorem PermutedPairs.resolve_typesAt (h : PermutedPairs msrs msrs') (rax' : Nat → BitVec 64)
    (hl : LegalTypes msrs) (hm : MasksNonzero msrs)
    (ho : ∀ x, DefinedOverlap (typesAt (Mtrr.variableRanges rax msrs) x)) (x : BitVec 64) :
    resolve (eptInitMtrr rax msrs).defaultMemoryType (typesAt (Mtrr.variableRanges rax msrs) x) =
      resolve (eptInitMtrr rax' msrs').defaultMemoryType
        (typesAt (Mtrr.variableRanges rax' msrs') x) := by
  have hdef : (eptInitMtrr rax msrs).defaultMemoryType =
      (eptInitMtrr rax' msrs').defaultMemoryType := by simp only [eptInitMtrr, h.defType]
  rw [← hdef]
  exact resolve_perm (typesAt_perm (h.variableRanges hm) x) (ho x)
    (hl.typesAt_variableRanges rax x)

/-- The type of a leaf does not depend on the order of the variable registers. -/
theorem leafType_congr (h : PermutedPairs msrs msrs') (hl : LegalTypes msrs)
    (hm : MasksNonzero msrs)
    (ho : ∀ x, DefinedOverlap (typesAt (variableRanges rax msrs) x)) (ha : a.toNat < 2 ^ 39)
    (hal : 0x200000 ∣ a.toNat) (hk : k < 512) :
    leafType (eptInitMtrr rax msrs) a k = leafType (eptInitMtrr rax' msrs') a k := by
  have hperm : (variableRanges rax msrs).Perm (variableRanges rax' msrs') := h.variableRanges hm
  have hfixed : activeFixedRanges msrs = activeFixedRanges msrs' :=
    activeFixedRanges_congr (fixedRangesRead_congr h.capabilities h.defType)
      fun _ ↦ h.fixedRegisters
  have hres := h.resolve_typesAt rax' hl hm ho
  have hp : 0x1000 ∣ (pageAt a k).toNat := by rw [toNat_pageAt ha hk]; omega
  by_cases hfix : ∃ d ∈ activeFixedRanges msrs, d.Covers a
  · obtain ⟨d, hd, hc⟩ := hfix
    rw [leafType_of_fixed ha hd hc hp, leafType_of_fixed ha (hfixed ▸ hd) hc hp, ← hfixed, hres]
  · have hfix : ∀ d ∈ activeFixedRanges msrs, ¬ d.Covers a := fun d hd hc ↦ hfix ⟨d, hd, hc⟩
    have hfix' := hfix
    rw [hfixed] at hfix'
    by_cases huc : ∃ d ∈ variableRanges rax msrs, d.Covers a ∧ d.type = memoryTypeUncacheable ∧
        ¬ d.EndsInside a 0x200000
    · obtain ⟨d, hd, hc, htype, he⟩ := huc
      rw [leafType_of_uncacheable ha hal hk hfix hd hc htype he,
        leafType_of_uncacheable ha hal hk hfix' (hperm.mem_iff.mp hd) hc htype he]
    · have huc : ∀ d ∈ variableRanges rax msrs, d.Covers a → d.type = memoryTypeUncacheable →
          d.EndsInside a 0x200000 := fun d hd hc ht ↦ by
        by_contra he
        exact huc ⟨d, hd, hc, ht, he⟩
      by_cases hend : ∃ d ∈ variableRanges rax msrs, d.Covers a ∧ d.EndsInside a 0x200000
      · obtain ⟨d, hd, hc, he⟩ := hend
        rw [leafType_of_endsInside ha hal hk hfix hd hc he huc,
          leafType_of_endsInside ha hal hk hfix' (hperm.mem_iff.mp hd) hc he
            fun d hd ↦ huc d (hperm.mem_iff.mpr hd), hres]
      · have hend : ∀ d ∈ variableRanges rax msrs, d.Covers a → ¬ d.EndsInside a 0x200000 :=
          fun d hd hc he ↦ hend ⟨d, hd, hc, he⟩
        have huc : ∀ d ∈ variableRanges rax msrs, d.Covers a → d.type ≠ memoryTypeUncacheable :=
          fun d hd hc ht ↦ hend d hd hc (huc d hd hc ht)
        rw [leafType_of_large ha hfix hl hend huc,
          leafType_of_large ha hfix' (h.legalTypes hl)
            (fun d hd ↦ hend d (hperm.mem_iff.mpr hd))
            (fun d hd ↦ huc d (hperm.mem_iff.mpr hd)), hres]

end Hypervi.Mtrr
