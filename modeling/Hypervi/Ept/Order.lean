import Hypervi.Ept.Walk
import Hypervi.Mtrr.Order

/-!
# Leaves do not depend on the order of the variable registers

The memory type the processor reads from the leaf for an address is the
`leafType` of its region and page (`eptWalk_memoryType`), and that type does not
depend on the order of the variable registers, although which regions are mapped
by a large page does.
-/

namespace Hypervi.Ept

open Bits Ia32 Memory Mtrr

variable {rax rax' : Nat → BitVec 64} {msrs msrs' : Msrs} {alloc alloc' : Nat → BitVec 64}
  {mem mem' : Mem} {a : BitVec 64}

theorem pageAt_regionStart (ha : a.toNat < 2 ^ 39) :
    pageAt (regionStart a) (ptIndex a) = pageStart a := by
  apply BitVec.eq_of_toNat_eq
  rw [toNat_pageAt (by rw [toNat_regionStart]; omega) (ptIndex_lt a), toNat_regionStart,
    toNat_pageStart, ptIndex]
  omega

/-- The walk of the tables finds a leaf with the `leafType` of the address. -/
theorem eptWalk_memoryType (hl : LegalTypes msrs) (ha : a.toNat < 2 ^ 39)
    (hp : Pages alloc (eptInitCore alloc (eptInitMtrr rax msrs) mem).calls) :
    (eptWalk (eptInitCore alloc (eptInitMtrr rax msrs) mem).mem
      (eptInitCore alloc (eptInitMtrr rax msrs) mem).ptr a).map (·.memoryType) =
        some (leafType (eptInitMtrr rax msrs) (regionStart a) (ptIndex a)) := by
  have hb := built_eptInitCore mem hp
  rw [leafType, pageAt_regionStart ha]
  by_cases hs : Split (eptInitMtrr rax msrs) (pdptIndex a) (pdIndex a)
  · rw [hb.eptWalk_of_split hp ha hs (legal_pageStart hl rax a), if_pos ((split_iff ha).mp hs)]
    rfl
  · have hne := fun h ↦ hs ((split_iff ha).mpr h)
    rw [hb.eptWalk_of_not_split hp ha hs
      ((hl.lookup rax (regionStart a) 0x200000).resolve_left hne), if_neg hne]
    rfl

/-- The memory type in the leaf for an address is the same for two register
contents that differ by a permutation of the variable pairs. -/
theorem leaf_memoryType_permuted (h : PermutedPairs msrs msrs') (hl : LegalTypes msrs)
    (hm : MasksNonzero msrs) (ho : ∀ x, DefinedOverlap (typesAt (variableRanges rax msrs) x))
    (hp : Pages alloc (eptInitCore alloc (eptInitMtrr rax msrs) mem).calls)
    (hp' : Pages alloc' (eptInitCore alloc' (eptInitMtrr rax' msrs') mem').calls)
    (ha : a.toNat < 2 ^ 39) :
    ∃ t t', eptWalk (eptInitCore alloc (eptInitMtrr rax msrs) mem).mem
        (eptInitCore alloc (eptInitMtrr rax msrs) mem).ptr a = some t ∧
      eptWalk (eptInitCore alloc' (eptInitMtrr rax' msrs') mem').mem
        (eptInitCore alloc' (eptInitMtrr rax' msrs') mem').ptr a = some t' ∧
      t.memoryType = t'.memoryType := by
  have hal : 0x200000 ∣ (regionStart a).toNat := by
    rw [toNat_regionStart]
    exact Nat.dvd_mul_left _ _
  have hlt : (regionStart a).toNat < 2 ^ 39 := by rw [toNat_regionStart]; omega
  obtain ⟨t, ht, htype⟩ := Option.map_eq_some_iff.mp (eptWalk_memoryType hl ha hp)
  obtain ⟨t', ht', htype'⟩ := Option.map_eq_some_iff.mp
    (eptWalk_memoryType (h.legalTypes hl) ha hp')
  refine ⟨t, t', ht, ht', ?_⟩
  rw [htype, htype', leafType_congr h hl hm ho hlt hal (ptIndex_lt a)]

/-! ## A region that one order splits and the other does not -/

/-- Two variable pairs over write-back memory. -/
def twoPairs (base mask base' mask' : BitVec 64) : Msrs := fun id ↦
  if id = ia32MtrrCapabilities then 2
  else if id = ia32MtrrDefType then 0x806
  else if id = physbase 0 then base
  else if id = physmask 0 then mask
  else if id = physbase 1 then base'
  else if id = physmask 1 then mask'
  else 0

/-- A write-through range `[0, 1 MiB)`, which splits the first region, before an
uncacheable range `[0, 4 MiB)`. -/
def shortFirst : Msrs := twoPairs 4 0xFFFF00800 0 0xFFFC00800

/-- The uncacheable range first: the region is mapped by a large page. -/
def longFirst : Msrs := twoPairs 0 0xFFFC00800 4 0xFFFF00800

theorem permutedPairs_shortFirst : PermutedPairs shortFirst longFirst where
  capabilities := rfl
  defType := rfl
  fixedRegisters := List.all_iff_forall_prop.mp (by decide)
  pairs := ⟨Equiv.swap ⟨0, by decide⟩ ⟨1, by decide⟩, by decide⟩

theorem legalTypes_shortFirst : LegalTypes shortFirst :=
  ⟨by decide, fun h ↦ absurd h (by decide), by decide⟩

theorem definedOverlap_shortFirst (x : BitVec 64) :
    DefinedOverlap (typesAt (variableRanges rax shortFirst) x) := by
  have htypes : ∀ i < 2, ∀ d, variableRangeAt rax shortFirst i = some d →
      d.type = memoryTypeWriteThrough ∨ d.type = memoryTypeUncacheable := by
    intro i hi d hd
    match i, hi with
    | 0, _ => cases hd; exact Or.inl rfl
    | 1, _ => cases hd; exact Or.inr rfl
  have hall : ∀ t ∈ typesAt (variableRanges rax shortFirst) x,
      t = memoryTypeWriteThrough ∨ t = memoryTypeUncacheable := by
    intro t ht
    obtain ⟨d, hd, -, rfl⟩ := mem_typesAt.mp ht
    obtain ⟨i, hi, hd⟩ := List.mem_filterMap.mp hd
    exact htypes i (List.mem_range.mp hi) d hd
  by_cases huc : memoryTypeUncacheable ∈ typesAt (variableRanges rax shortFirst) x
  · exact Or.inr (Or.inl huc)
  · refine Or.inl ⟨memoryTypeWriteThrough, fun t ht ↦ (hall t ht).resolve_right ?_⟩
    rintro rfl
    exact huc ht

/-- The page at 0 has the same type in both orders. -/
theorem leaf_memoryType_shortFirst :
    ∃ t t', eptWalk (eptInitCore consecutivePages (eptInitMtrr (fun _ ↦ 0) shortFirst)
          fun _ ↦ 0).mem (eptInitCore consecutivePages (eptInitMtrr (fun _ ↦ 0) shortFirst)
          fun _ ↦ 0).ptr 0 = some t ∧
      eptWalk (eptInitCore consecutivePages (eptInitMtrr (fun _ ↦ 0) longFirst)
          fun _ ↦ 0).mem (eptInitCore consecutivePages (eptInitMtrr (fun _ ↦ 0) longFirst)
          fun _ ↦ 0).ptr 0 = some t' ∧
      t.memoryType = t'.memoryType :=
  leaf_memoryType_permuted permutedPairs_shortFirst legalTypes_shortFirst (by decide)
    definedOverlap_shortFirst (pages_eptInitCore _ _) (pages_eptInitCore _ _) (by decide)

end Hypervi.Ept
