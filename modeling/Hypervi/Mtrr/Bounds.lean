import Mathlib.Data.List.Infix
import Hypervi.Mtrr.Table

/-!
# The indices of the table that `ept_init_mtrr` writes

The table is written from the front, one entry after the other, and the last
write is that of the terminator (`written_eptInitMtrr`).  With `n` decoded ranges
the terminator is entry `n`, so the table is overrun exactly when its
`max_mtrrs` entries are all decoded ranges: `max_mtrrs` counts the fixed and the
variable ranges and leaves no room for a terminator behind them.
-/

namespace Hypervi.Mtrr

open Bits Ia32

/-! ## The order of the writes -/

/-- The entries before `index` have been written in order, and no others. -/
def InitState.InOrder (s : InitState) : Prop := s.written = (List.range s.index).reverse

theorem InitState.InOrder.push {s : InitState} (h : s.InOrder) (d : MtrrData) :
    (s.push d).InOrder := by
  change s.index :: s.written = (List.range (s.index + 1)).reverse
  rw [List.range_succ, List.reverse_append, h]
  rfl

theorem InitState.InOrder.eptReadFixedMtrrs {s : InitState} (h : s.InOrder) (msrs : Msrs)
    (msr : BitVec 32) (base size : BitVec 64) :
    (eptReadFixedMtrrs msrs msr base size s).InOrder := by
  refine forRange_induction (P := fun _ (s : InitState) ↦ s.InOrder) h ?_
  intro i _ s hs
  have hs' : InitState.InOrder { s with offset := s.offset + size } := hs
  exact hs'.push _

theorem InitState.InOrder.foldl_eptReadFixedMtrrs {s : InitState} (h : s.InOrder) (msrs : Msrs)
    (l : List (BitVec 32 × BitVec 64 × BitVec 64)) :
    (l.foldl (fun s r ↦ Mtrr.eptReadFixedMtrrs msrs r.1 r.2.1 r.2.2 s) s).InOrder := by
  induction l generalizing s with
  | nil => exact h
  | cons r l ih => exact ih (h.eptReadFixedMtrrs msrs r.1 r.2.1 r.2.2)

theorem InitState.InOrder.readVariableMtrr {s : InitState} (h : s.InOrder)
    (rax : Nat → BitVec 64) (msrs : Msrs) (i : Nat) : (readVariableMtrr rax msrs i s).InOrder := by
  unfold Mtrr.readVariableMtrr
  simp only
  split
  · exact h
  · exact h.push _

/-- Every entry up to the one behind the last decoded range is written, in order
and once. -/
theorem written_eptInitMtrr (rax : Nat → BitVec 64) (msrs : Msrs) :
    (eptInitMtrr rax msrs).written =
      (List.range ((decodedRanges rax msrs).length + 1)).reverse := by
  have hlen : (activeFixedRanges msrs).length + variableRangeCount msrs ≤ maxMtrrs :=
    Nat.add_le_add (length_activeFixedRanges_le msrs) (variableRangeCount_le msrs)
  have hindex := ((filled_activeFixedRanges msrs).readVariableMtrrs rax msrs _ hlen).index
  have h₀ : InitState.InOrder ⟨List.replicate maxMtrrs MtrrData.zero, [], 0, 0⟩ := rfl
  have hfixed : InitState.InOrder (if fixedRangesRead msrs = true then
      fixedRangeRegisters.foldl (fun s r ↦ Mtrr.eptReadFixedMtrrs msrs r.1 r.2.1 r.2.2 s)
        ⟨List.replicate maxMtrrs MtrrData.zero, [], 0, 0⟩
      else ⟨List.replicate maxMtrrs MtrrData.zero, [], 0, 0⟩) := by
    split
    · exact h₀.foldl_eptReadFixedMtrrs msrs _
    · exact h₀
  have hall : InitState.InOrder
      (forRange (variableRangeCount msrs) (readVariableMtrr rax msrs) _) :=
    forRange_induction (P := fun _ (s : InitState) ↦ s.InOrder) hfixed fun i _ s hs ↦
      hs.readVariableMtrr rax msrs i
  change _ :: _ = _
  rw [hall, hindex, List.range_succ, List.reverse_append]
  rfl

/-! ## The number of decoded ranges -/

theorem length_fixedRanges (msrs : Msrs) : (fixedRanges msrs).length = maxFixedRangeMtrrs := by
  simp [fixedRanges, fixedRangeRegisters, rangesOfRegister, maxFixedRangeMtrrs]

/-- All the variable registers are decoded exactly when each of them is valid. -/
theorem length_variableRanges_eq_iff (rax : Nat → BitVec 64) (msrs : Msrs) :
    (variableRanges rax msrs).length = variableRangeCount msrs ↔
      ∀ i < variableRangeCount msrs, MtrrPhysmask.valid.test (msrs (physmask i)) = true := by
  have hcount := List.filterMap_length_eq_length (f := variableRangeAt rax msrs)
    (l := List.range (variableRangeCount msrs))
  rw [List.length_range] at hcount
  have hsome (i : Nat) : (variableRangeAt rax msrs i).isSome =
      MtrrPhysmask.valid.test (msrs (physmask i)) := by
    unfold variableRangeAt
    split <;> simp_all
  rw [variableRanges, hcount]
  simp only [hsome, List.mem_range]

theorem length_variableRanges_le (rax : Nat → BitVec 64) (msrs : Msrs) :
    (variableRanges rax msrs).length ≤ variableRangeCount msrs := by
  have h := List.length_filterMap_le (variableRangeAt rax msrs)
    (List.range (variableRangeCount msrs))
  rwa [List.length_range] at h

/-- The registers fill the table: the fixed ranges are read, and there are 255
variable ranges, all of them valid. -/
def FillsTable (msrs : Msrs) : Prop :=
  fixedRangesRead msrs = true ∧ variableRangeCount msrs = maxVariableRangeMtrrs ∧
    ∀ i < maxVariableRangeMtrrs, MtrrPhysmask.valid.test (msrs (physmask i)) = true

theorem length_decodedRanges_lt_iff (rax : Nat → BitVec 64) (msrs : Msrs) :
    (decodedRanges rax msrs).length < maxMtrrs ↔ ¬ FillsTable msrs := by
  have hle := length_variableRanges_le rax msrs
  have hcount := variableRangeCount_le msrs
  have hvalid := length_variableRanges_eq_iff rax msrs
  rw [decodedRanges, List.length_append, activeFixedRanges, maxMtrrs, FillsTable]
  by_cases hread : fixedRangesRead msrs = true
  · rw [if_pos hread, length_fixedRanges]
    constructor
    · rintro hlt ⟨-, hc, hall⟩
      rw [hc] at hvalid
      have := hvalid.mpr hall
      omega
    · intro hnot
      by_contra hge
      have hc : variableRangeCount msrs = maxVariableRangeMtrrs := by omega
      rw [hc] at hvalid
      exact hnot ⟨hread, hc, hvalid.mp (by omega)⟩
  · rw [if_neg hread]
    have hpos : 0 < maxFixedRangeMtrrs := by decide
    refine iff_of_true ?_ fun h ↦ hread h.1
    rw [List.length_nil]
    omega

/-! ## The bound -/

/-- `ept_init_mtrr` stays inside `g_mtrrs` exactly when the registers do not fill
the table. -/
theorem written_lt_maxMtrrs_iff (rax : Nat → BitVec 64) (msrs : Msrs) :
    (∀ i ∈ (eptInitMtrr rax msrs).written, i < maxMtrrs) ↔ ¬ FillsTable msrs := by
  rw [← length_decodedRanges_lt_iff rax msrs, written_eptInitMtrr]
  simp only [List.mem_reverse, List.mem_range]
  constructor
  · exact fun h ↦ h _ (Nat.lt_succ_self _)
  · exact fun h i hi ↦ Nat.lt_of_le_of_lt (Nat.le_of_lt_succ hi) h

/-- Registers of a processor with fixed ranges and 255 variable ranges, all of
them in use. -/
def everyRange : Msrs := fun id ↦
  if id = ia32MtrrCapabilities then 0x1FF
  else if id = ia32MtrrDefType then 0xC06
  else 0xFFFE00806

/-- The terminator behind the 343 ranges is written behind the table. -/
theorem not_written_lt_everyRange :
    ¬ ∀ i ∈ (eptInitMtrr (fun _ ↦ 0) everyRange).written, i < maxMtrrs := by
  decide +kernel

end Hypervi.Mtrr
