import Mathlib.Data.Bool.AllAny
import Mathlib.Data.List.TakeWhile
import Hypervi.Mtrr.Model

/-!
# What `ept_init_mtrr` leaves in the table

`ept_get_memory_type` reads the table up to the first entry that is not enabled;
these entries are the `ranges` of the globals.  `ranges_eptInitMtrr` says that
after `ept_init_mtrr` they are the decoded fixed ranges followed by the decoded
valid variable ranges, and `WellFormed` collects what holds of every decoded
range whatever the registers contain.

The table is filled from the front: the invariant `Filled s rs` says that the
entries before `index` are `rs` and that the others are still zero.
-/

namespace Hypervi.Mtrr

open Bits Ia32

/-- The part of the table that a lookup reads. -/
def ranges (g : Globals) : List MtrrData := g.mtrrs.takeWhile (·.enabled)

theorem enabled_of_mem_ranges {g : Globals} {d : MtrrData} (h : d ∈ ranges g) :
    d.enabled = true := List.mem_takeWhile_imp h

/-! ## The decoded ranges -/

/-- The range a fixed-range register gives to its `i`-th byte. -/
def fixedRange (contents base size : BitVec 64) (i : Nat) : MtrrData :=
  { enabled := true, fixed := true, type := contents.extractLsb' (8 * i) 8,
    rangeBegin := base + size * BitVec.ofNat 64 i,
    rangeEnd := base + size * BitVec.ofNat 64 i + size }

/-- The eight ranges of one fixed-range register. -/
def rangesOfRegister (msrs : Msrs) (r : BitVec 32 × BitVec 64 × BitVec 64) : List MtrrData :=
  (List.range 8).map (fixedRange (msrs r.1) r.2.1 r.2.2)

/-- The 88 fixed ranges. -/
def fixedRanges (msrs : Msrs) : List MtrrData :=
  fixedRangeRegisters.flatMap (rangesOfRegister msrs)

/-- The range of the `i`-th variable register pair, if it is valid. -/
def variableRangeAt (rax : Nat → BitVec 64) (msrs : Msrs) (i : Nat) : Option MtrrData :=
  if MtrrPhysmask.valid.test (msrs (physmask i)) then
    some (variableRange (rax i) (msrs (physbase i)) (msrs (physmask i)))
  else none

/-- The valid variable ranges, in register order. -/
def variableRanges (rax : Nat → BitVec 64) (msrs : Msrs) : List MtrrData :=
  (List.range (variableRangeCount msrs)).filterMap (variableRangeAt rax msrs)

/-- The fixed ranges, when they are read at all. -/
def activeFixedRanges (msrs : Msrs) : List MtrrData :=
  if fixedRangesRead msrs then fixedRanges msrs else []

/-- Everything `ept_init_mtrr` decodes. -/
def decodedRanges (rax : Nat → BitVec 64) (msrs : Msrs) : List MtrrData :=
  activeFixedRanges msrs ++ variableRanges rax msrs

/-! ## Filling the table from the front -/

/-- The table holds `rs` before `index` and zeroes from there on. -/
structure Filled (s : InitState) (rs : List MtrrData) : Prop where
  index : s.index = rs.length
  mtrrs : s.mtrrs = rs ++ List.replicate (maxMtrrs - rs.length) MtrrData.zero

theorem Filled.push {s : InitState} {rs : List MtrrData} (h : Filled s rs) (d : MtrrData)
    (hlt : rs.length < maxMtrrs) : Filled (s.push d) (rs ++ [d]) where
  index := by simp [InitState.push, h.index]
  mtrrs := by
    obtain ⟨k, hk⟩ : ∃ k, maxMtrrs - rs.length = k + 1 := ⟨maxMtrrs - rs.length - 1, by omega⟩
    have hk' : maxMtrrs - (rs.length + 1) = k := by omega
    simp [InitState.push, h.mtrrs, h.index, hk, hk', List.replicate_succ]

theorem Filled.eptReadFixedMtrrs {msrs : Msrs} {s : InitState} {rs : List MtrrData}
    (h : Filled s rs) (r : BitVec 32 × BitVec 64 × BitVec 64) (hlt : rs.length + 8 ≤ maxMtrrs) :
    Filled (eptReadFixedMtrrs msrs r.1 r.2.1 r.2.2 s) (rs ++ rangesOfRegister msrs r) := by
  refine forRange_induction
    (P := fun i s ↦ Filled s (rs ++ (List.range i).map (fixedRange (msrs r.1) r.2.1 r.2.2)))
    (by simpa using h) ?_
  intro i hi s hs
  rw [List.range_succ, List.map_append, ← List.append_assoc]
  have hs' : Filled { s with offset := s.offset + r.2.2 } _ := ⟨hs.index, hs.mtrrs⟩
  exact hs'.push _ (by simp; omega)

theorem Filled.foldl_eptReadFixedMtrrs {msrs : Msrs} {l : List (BitVec 32 × BitVec 64 × BitVec 64)}
    {s : InitState} {rs : List MtrrData} (h : Filled s rs)
    (hlt : rs.length + 8 * l.length ≤ maxMtrrs) :
    Filled (l.foldl (fun s r ↦ Mtrr.eptReadFixedMtrrs msrs r.1 r.2.1 r.2.2 s) s)
      (rs ++ l.flatMap (rangesOfRegister msrs)) := by
  induction l generalizing s rs with
  | nil => simpa using h
  | cons r l ih =>
      rw [List.length_cons] at hlt
      rw [List.foldl_cons, List.flatMap_cons, ← List.append_assoc]
      refine ih (h.eptReadFixedMtrrs r (by omega)) ?_
      simp [rangesOfRegister]
      omega

theorem Filled.readVariableMtrrs {s : InitState} {rs : List MtrrData} (h : Filled s rs)
    (rax : Nat → BitVec 64) (msrs : Msrs) (n : Nat) (hlt : rs.length + n ≤ maxMtrrs) :
    Filled (forRange n (readVariableMtrr rax msrs) s)
      (rs ++ (List.range n).filterMap (variableRangeAt rax msrs)) := by
  refine forRange_induction
    (P := fun i s ↦ Filled s (rs ++ (List.range i).filterMap (variableRangeAt rax msrs)))
    (by simpa using h) ?_
  intro i hi s hs
  have hlen := List.length_filterMap_le (variableRangeAt rax msrs) (List.range i)
  rw [List.length_range] at hlen
  rw [List.range_succ, List.filterMap_append, ← List.append_assoc]
  by_cases hv : MtrrPhysmask.valid.test (msrs (physmask i)) = true
  · simp only [readVariableMtrr, variableRangeAt, hv, List.filterMap_cons, List.filterMap_nil]
    exact hs.push _ (by simp; omega)
  · simpa [readVariableMtrr, variableRangeAt, hv] using hs

theorem variableRangeCount_le (msrs : Msrs) :
    variableRangeCount msrs ≤ maxVariableRangeMtrrs := by
  have h := Nat.mod_lt ((msrs ia32MtrrCapabilities).toNat / 2 ^ 0) (Nat.two_pow_pos 8)
  rw [variableRangeCount, Field.toNat_get]
  exact Nat.le_of_lt_succ h

theorem length_activeFixedRanges_le (msrs : Msrs) :
    (activeFixedRanges msrs).length ≤ maxFixedRangeMtrrs := by
  unfold activeFixedRanges
  split
  · simp [fixedRanges, fixedRangeRegisters, rangesOfRegister, maxFixedRangeMtrrs]
  · simp

/-- The state after the fixed-range registers. -/
theorem filled_activeFixedRanges (msrs : Msrs) :
    Filled (if fixedRangesRead msrs = true then
        fixedRangeRegisters.foldl (fun s r ↦ Mtrr.eptReadFixedMtrrs msrs r.1 r.2.1 r.2.2 s)
          ⟨List.replicate maxMtrrs MtrrData.zero, [], 0, 0⟩
      else ⟨List.replicate maxMtrrs MtrrData.zero, [], 0, 0⟩) (activeFixedRanges msrs) := by
  have h₀ : Filled ⟨List.replicate maxMtrrs MtrrData.zero, [], 0, 0⟩ [] := ⟨rfl, by simp⟩
  unfold activeFixedRanges
  split
  · exact h₀.foldl_eptReadFixedMtrrs (by decide)
  · exact h₀

/-- Clearing `enabled` in an entry where it is clear already changes nothing. -/
theorem modify_enabled_eq_self {l : List MtrrData} {i : Nat}
    (h : ∀ d, l[i]? = some d → d.enabled = false) :
    l.modify i (fun d ↦ { d with enabled := false }) = l := by
  apply List.ext_getElem?
  intro j
  rw [List.getElem?_modify]
  by_cases hij : i = j
  · subst hij
    cases hd : l[i]? with
    | none => rfl
    | some d => simp [← h d hd]
  · simp [hij]

/-- `ept_init_mtrr` leaves the decoded ranges in the table, and zeroes behind
them.  The terminator it writes last falls on an entry that is still zero, or
behind the table when the table is full. -/
theorem mtrrs_eptInitMtrr (rax : Nat → BitVec 64) (msrs : Msrs) :
    (eptInitMtrr rax msrs).mtrrs = decodedRanges rax msrs ++
      List.replicate (maxMtrrs - (decodedRanges rax msrs).length) MtrrData.zero := by
  have hlen : (activeFixedRanges msrs).length + variableRangeCount msrs ≤ maxMtrrs :=
    Nat.add_le_add (length_activeFixedRanges_le msrs) (variableRangeCount_le msrs)
  have h := (filled_activeFixedRanges msrs).readVariableMtrrs rax msrs _ hlen
  change List.modify _ _ _ = _
  rw [h.mtrrs, h.index, modify_enabled_eq_self]
  · rfl
  · intro d hd
    rw [List.getElem?_append_right (Nat.le_refl _), List.getElem?_replicate] at hd
    split at hd
    · cases hd; rfl
    · cases hd

/-! ## What holds of every decoded range -/

/-- Both ends of a decoded range are page boundaries, the range does not wrap
around, and a fixed range is no longer than 64 KiB and lies in the first
megabyte. -/
structure MtrrData.WellFormed (d : MtrrData) : Prop where
  enabled : d.enabled = true
  dvd_begin : 0x1000 ∣ d.rangeBegin.toNat
  dvd_end : 0x1000 ∣ d.rangeEnd.toNat
  begin_le : d.rangeBegin.toNat ≤ d.rangeEnd.toNat
  end_le : d.rangeEnd.toNat ≤ 2 ^ 63 + 2 ^ 48
  fixed_le : d.fixed = true → d.rangeEnd.toNat ≤ d.rangeBegin.toNat + 0x10000
  fixed_end_le : d.fixed = true → d.rangeEnd.toNat ≤ 0x100000

theorem wellFormed_fixedRange {r : BitVec 32 × BitVec 64 × BitVec 64}
    (hr : r ∈ fixedRangeRegisters) {i : Nat} (hi : i < 8) (contents : BitVec 64) :
    (fixedRange contents r.2.1 r.2.2 i).WellFormed := by
  have key : ∀ r ∈ fixedRangeRegisters, ∀ i < 8,
      0x1000 ∣ (r.2.1 + r.2.2 * BitVec.ofNat 64 i).toNat ∧
      0x1000 ∣ (r.2.1 + r.2.2 * BitVec.ofNat 64 i + r.2.2).toNat ∧
      (r.2.1 + r.2.2 * BitVec.ofNat 64 i).toNat ≤
        (r.2.1 + r.2.2 * BitVec.ofNat 64 i + r.2.2).toNat ∧
      (r.2.1 + r.2.2 * BitVec.ofNat 64 i + r.2.2).toNat ≤ 0x100000 ∧
      (r.2.1 + r.2.2 * BitVec.ofNat 64 i + r.2.2).toNat ≤
        (r.2.1 + r.2.2 * BitVec.ofNat 64 i).toNat + 0x10000 :=
    List.all_iff_forall_prop.mp (by decide)
  obtain ⟨h₁, h₂, h₃, h₄, h₅⟩ := key r hr i hi
  exact ⟨rfl, h₁, h₂, h₃, Nat.le_trans h₄ (by decide), fun _ ↦ h₅, fun _ ↦ h₄⟩

theorem toNat_rangeBegin_variableRange (rax phyBase phyMask : BitVec 64) :
    (variableRange rax phyBase phyMask).rangeBegin.toNat =
      phyBase.toNat / 2 ^ 12 % 2 ^ 36 * 0x1000 := by
  have h := Field.toNat_get MtrrPhysbase.pageFrameNumber phyBase
  change (MtrrPhysbase.pageFrameNumber.get phyBase * 0x1000).toNat = _
  rw [BitVec.toNat_mul, h]
  simp only [MtrrPhysbase.pageFrameNumber]
  exact Nat.mod_eq_of_lt (by simp; omega)

/-- The number of bytes of a variable range: a power of two, or zero when the
shift count is so large that the bit is lost. -/
def variableSize (rax phyMask : BitVec 64) : Nat :=
  2 ^ ((callBsf rax (MtrrPhysmask.pageFrameNumber.get phyMask)).toNat % 64) * 2 ^ 12 % 2 ^ 64

theorem dvd_variableSize (rax phyMask : BitVec 64) : 0x1000 ∣ variableSize rax phyMask :=
  (Nat.dvd_mod_iff (by decide)).mpr (Nat.dvd_mul_left _ _)

theorem variableSize_le (rax phyMask : BitVec 64) : variableSize rax phyMask ≤ 2 ^ 63 := by
  unfold variableSize
  generalize hn : (callBsf rax (MtrrPhysmask.pageFrameNumber.get phyMask)).toNat % 64 = n
  have hlt : n < 64 := hn ▸ Nat.mod_lt _ (by decide)
  rw [← Nat.pow_add]
  by_cases h : n < 52
  · exact Nat.le_trans (Nat.mod_le _ _) (Nat.pow_le_pow_right (by decide) (by omega))
  · rw [Nat.mod_eq_zero_of_dvd (Nat.pow_dvd_pow 2 (by omega))]
    exact Nat.zero_le _

theorem toNat_rangeEnd_variableRange (rax phyBase phyMask : BitVec 64) :
    (variableRange rax phyBase phyMask).rangeEnd.toNat =
      (variableRange rax phyBase phyMask).rangeBegin.toNat + variableSize rax phyMask := by
  have hb := toNat_rangeBegin_variableRange rax phyBase phyMask
  have hle := variableSize_le rax phyMask
  have hs : ((1 : BitVec 64) <<<
      ((callBsf rax (MtrrPhysmask.pageFrameNumber.get phyMask)).toNat % 64) <<< 12).toNat =
      variableSize rax phyMask := by
    rw [BitVec.toNat_shiftLeft, BitVec.toNat_shiftLeft, Nat.shiftLeft_eq, Nat.shiftLeft_eq,
      show (1 : BitVec 64).toNat = 1 from rfl, Nat.one_mul, variableSize,
      Nat.mod_eq_of_lt (Nat.pow_lt_pow_right (by decide) (Nat.mod_lt _ (by decide)))]
  change ((variableRange rax phyBase phyMask).rangeBegin + _).toNat = _
  rw [BitVec.toNat_add, hs]
  exact Nat.mod_eq_of_lt (by omega)

theorem wellFormed_variableRange (rax phyBase phyMask : BitVec 64) :
    (variableRange rax phyBase phyMask).WellFormed := by
  have hb := toNat_rangeBegin_variableRange rax phyBase phyMask
  have he := toNat_rangeEnd_variableRange rax phyBase phyMask
  have hle := variableSize_le rax phyMask
  have hdvd : 0x1000 ∣ (variableRange rax phyBase phyMask).rangeBegin.toNat :=
    hb ▸ Nat.dvd_mul_left _ _
  refine ⟨rfl, hdvd, ?_, by omega, by omega, (fun h ↦ nomatch h),
    (fun h ↦ nomatch h)⟩
  rw [he]
  exact Nat.dvd_add hdvd (dvd_variableSize rax phyMask)

theorem mem_activeFixedRanges {msrs : Msrs} {d : MtrrData} (h : d ∈ activeFixedRanges msrs) :
    d.WellFormed ∧ d.fixed = true := by
  unfold activeFixedRanges at h
  split at h
  · obtain ⟨r, hr, hd⟩ := List.mem_flatMap.mp h
    obtain ⟨i, hi, rfl⟩ := List.mem_map.mp hd
    exact ⟨wellFormed_fixedRange hr (List.mem_range.mp hi) _, rfl⟩
  · cases h

theorem mem_variableRanges {rax : Nat → BitVec 64} {msrs : Msrs} {d : MtrrData}
    (h : d ∈ variableRanges rax msrs) : d.WellFormed ∧ d.fixed = false := by
  obtain ⟨i, -, hi⟩ := List.mem_filterMap.mp h
  unfold variableRangeAt at hi
  split at hi
  · cases hi
    exact ⟨wellFormed_variableRange _ _ _, rfl⟩
  · cases hi

theorem wellFormed_of_mem_decodedRanges {rax : Nat → BitVec 64} {msrs : Msrs} {d : MtrrData}
    (h : d ∈ decodedRanges rax msrs) : d.WellFormed := by
  rcases List.mem_append.mp h with h | h
  · exact (mem_activeFixedRanges h).1
  · exact (mem_variableRanges h).1

/-- A lookup after `ept_init_mtrr` reads exactly the decoded ranges. -/
theorem ranges_eptInitMtrr (rax : Nat → BitVec 64) (msrs : Msrs) :
    ranges (eptInitMtrr rax msrs) = decodedRanges rax msrs := by
  rw [ranges, mtrrs_eptInitMtrr, List.takeWhile_append_of_pos]
  · rw [List.takeWhile_replicate]
    simp [MtrrData.zero]
  · exact fun d hd ↦ (wellFormed_of_mem_decodedRanges hd).enabled

/-! ## Legal types -/

/-- The registers that are read hold memory types that the processor defines. -/
structure LegalTypes (msrs : Msrs) : Prop where
  default_legal :
    MemoryType.Legal ((MtrrDefType.defaultMemoryType.get (msrs ia32MtrrDefType)).setWidth 8)
  fixed_legal : fixedRangesRead msrs = true → ∀ r ∈ fixedRangeRegisters, ∀ i < 8,
    MemoryType.Legal ((msrs r.1).extractLsb' (8 * i) 8)
  variable_legal : ∀ i < variableRangeCount msrs,
    MtrrPhysmask.valid.test (msrs (physmask i)) = true →
      MemoryType.Legal ((MtrrPhysbase.type.get (msrs (physbase i))).setWidth 8)

/-- The types of the decoded ranges are those the registers hold. -/
theorem LegalTypes.of_mem {msrs : Msrs} (h : LegalTypes msrs) (rax : Nat → BitVec 64)
    {d : MtrrData} (hd : d ∈ decodedRanges rax msrs) : d.type.Legal := by
  rcases List.mem_append.mp hd with hd | hd
  · unfold activeFixedRanges at hd
    split at hd
    · next hread =>
      obtain ⟨r, hr, hd⟩ := List.mem_flatMap.mp hd
      obtain ⟨i, hi, rfl⟩ := List.mem_map.mp hd
      exact h.fixed_legal hread r hr i (List.mem_range.mp hi)
    · cases hd
  · obtain ⟨i, hi, hd⟩ := List.mem_filterMap.mp hd
    unfold variableRangeAt at hd
    split at hd
    · next hvalid =>
      cases hd
      exact h.variable_legal i (List.mem_range.mp hi) hvalid
    · cases hd

end Hypervi.Mtrr
