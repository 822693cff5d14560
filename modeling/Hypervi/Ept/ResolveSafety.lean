import Hypervi.Ept.Resolve

/-!
# What `ept_resolve_entries` reads and writes

Two ways in which a call can go wrong on tables that `ept_init_core` has built.

* No entry is tested for presence.  Only the first of the 512 entries of the PML4
  is present, so an address with another PML4 index leads to frame 0, and the
  next entry is read from there (`reads_inTables_iff`).
* The pointers may be null, but for `pt` when the entry of the page directory
  maps a large page: that exit assigns without a test (`outParamsOptional_iff`).
-/

namespace Hypervi.Ept

open Bits Ia32 Memory Mtrr Freestanding

variable {alloc : Nat → BitVec 64} {g : Globals} {s : EptState} {a : BitVec 64} {n : Nat}

/-! ## Entries outside the tables -/

/-- The entry at `e` lies in one of the first `n` pages. -/
def InTables (alloc : Nat → BitVec 64) (n : Nat) (e : BitVec 64) : Prop :=
  ∃ i < n, (alloc i).toNat ≤ e.toNat ∧ e.toNat + 8 ≤ (alloc i).toNat + 0x1000

/-- With the tables of `s`, every entry that is read for the address lies in one of the
pages that have been allocated for them. -/
def ReadsInTables (alloc : Nat → BitVec 64) (s : EptState) (address : BitVec 64)
    (supplied : EntryPointers Bool) : Prop :=
  ∀ e ∈ (eptResolveEntries s.mem s.ptr address supplied).reads, InTables alloc s.calls e

theorem inTables_entryAt (hp : Pages alloc n) {i k : Nat} (hi : i < n) (hk : k < 512) :
    InTables alloc n (entryAt (alloc i) k) := by
  refine ⟨i, hi, ?_⟩
  rw [toNat_entryAt (hp.lt i hi) hk]
  omega

/-- No table lies in page 0. -/
theorem not_inTables_entryAt_zero (hp : Pages alloc n) {k : Nat} (hk : k < 512) :
    ¬ InTables alloc n (entryAt 0 k) := by
  rintro ⟨i, hi, hle, -⟩
  have he : (entryAt 0 k).toNat = 8 * k := by
    rw [toNat_entryAt (by decide) hk]
    exact Nat.zero_add _
  have hpage := hp.le_toNat hi
  omega

/-- Through an empty entry of the PML4 the walk goes on in page 0. -/
theorem entryAt_zero_mem_reads (g : Globals) (mem : Mem)
    (hp : Pages alloc (eptInitCore alloc g mem).calls) (ha : a.toNat / 2 ^ 39 % 512 ≠ 0)
    (supplied : EntryPointers Bool) :
    entryAt 0 (pdptIndex a) ∈ (eptResolveEntries (eptInitCore alloc g mem).mem
      (eptInitCore alloc g mem).ptr a supplied).reads := by
  have hb := built_eptInitCore (g := g) mem hp
  have hempty := entry_pml4_eptInitCore mem hp (Nat.mod_lt (a.toNat / 2 ^ 39) (by decide)) ha
  have h0 := Nat.lt_of_lt_of_le Nat.two_pos hb.calls
  have hptr := tableOf_eptPointer (hp.aligned 0 h0) (hp.lt 0 h0)
  rw [← hb.ptr] at hptr
  have hnull : tableOf (load64 (eptInitCore alloc g mem).mem
      (entryAt (EptPointer.pageFrameNumber.get (eptInitCore alloc g mem).ptr <<< 12)
        (addressToPt a).pml4.toNat)) = 0 := by
    rw [hptr, toNat_addressToPt_pml4]
    exact (congrArg tableOf hempty).trans (by decide)
  have hmem : entryAt (tableOf (load64 (eptInitCore alloc g mem).mem
      (entryAt (EptPointer.pageFrameNumber.get (eptInitCore alloc g mem).ptr <<< 12)
        (addressToPt a).pml4.toNat))) (addressToPt a).pdpt.toNat ∈
      (eptResolveEntries (eptInitCore alloc g mem).mem (eptInitCore alloc g mem).ptr a
        supplied).reads := by
    generalize (eptInitCore alloc g mem).mem = m
    generalize (eptInitCore alloc g mem).ptr = p
    unfold Ept.eptResolveEntries
    simp only
    split <;> exact List.mem_cons_of_mem _ List.mem_cons_self
  rw [hnull, toNat_addressToPt_pdpt] at hmem
  exact hmem

/-- `ept_resolve_entries` reads inside the tables exactly for the addresses whose
bits 39 to 47 are zero. -/
theorem reads_inTables_iff (g : Globals) (alloc : Nat → BitVec 64) (mem : Mem)
    (hp : Pages alloc (eptInitCore alloc g mem).calls) (a : BitVec 64)
    (supplied : EntryPointers Bool) :
    ReadsInTables alloc (eptInitCore alloc g mem) a supplied ↔ a.toNat / 2 ^ 39 % 512 = 0 := by
  have hb := built_eptInitCore (g := g) mem hp
  constructor
  · intro h
    by_contra ha
    exact not_inTables_entryAt_zero hp (pdptIndex_lt a)
      (h _ (entryAt_zero_mem_reads g mem hp ha supplied))
  · intro ha e he
    have hpd := hb.pdpt (pdptIndex a) (pdptIndex_lt a)
    rw [hb.eptResolveEntries hp ha] at he
    simp only [List.mem_cons, List.not_mem_nil, or_false] at he
    rcases he with rfl | rfl | rfl
    · exact inTables_entryAt hp (Nat.lt_of_lt_of_le Nat.two_pos hb.calls) (by decide)
    · exact inTables_entryAt hp hb.calls (pdptIndex_lt a)
    · exact inTables_entryAt hp hpd.allocated (pdIndex_lt a)

/-- An address far above the tables, with the indices of a low one. -/
theorem reads_inTables_writeBackOnly :
    ReadsInTables consecutivePages
      (eptInitCore consecutivePages (eptInitMtrr (fun _ ↦ 0) writeBackOnly) fun _ ↦ 0)
      0xFFFF000000200000 ⟨true, true, true, true⟩ :=
  (reads_inTables_iff (eptInitMtrr (fun _ ↦ 0) writeBackOnly) consecutivePages (fun _ ↦ 0)
    (pages_eptInitCore _ _) 0xFFFF000000200000 ⟨true, true, true, true⟩).mpr (by decide)

/-- The first address of the upper half has PML4 index 256. -/
theorem not_reads_inTables_upperHalf :
    ¬ ReadsInTables consecutivePages
      (eptInitCore consecutivePages (eptInitMtrr (fun _ ↦ 0) writeBackOnly) fun _ ↦ 0)
      0xFFFF800000000000 ⟨true, true, true, true⟩ :=
  fun h ↦ not_inTables_entryAt_zero (pages_eptInitCore _ _) (pdptIndex_lt 0xFFFF800000000000)
    (h _ (entryAt_zero_mem_reads _ _ (pages_eptInitCore _ _) (by decide) _))

/-! ## Null pointers -/

/-- Every pointer that is supplied receives the same value from both calls. -/
structure SameOuts (supplied : EntryPointers Bool) (r r' : Resolved) : Prop where
  pml4 : supplied.pml4 = true → r.outs.pml4 = r'.outs.pml4
  pdpt : supplied.pdpt = true → r.outs.pdpt = r'.outs.pdpt
  pd : supplied.pd = true → r.outs.pd = r'.outs.pd
  pt : supplied.pt = true → r.outs.pt = r'.outs.pt

/-- A call with some of the pointers null does not write through them, and
returns through the others what a call with all four returns. -/
def OutParamsOptional (m : Mem) (eptPtr address : BitVec 64) (supplied : EntryPointers Bool) :
    Prop :=
  (eptResolveEntries m eptPtr address supplied).writesNull = false ∧
    SameOuts supplied (eptResolveEntries m eptPtr address supplied)
      (eptResolveEntries m eptPtr address ⟨true, true, true, true⟩)

/-- The pointers that are supplied receive their values whichever others are null. -/
theorem sameOuts_eptResolveEntries (m : Mem) (eptPtr address : BitVec 64)
    (supplied : EntryPointers Bool) :
    SameOuts supplied (eptResolveEntries m eptPtr address supplied)
      (eptResolveEntries m eptPtr address ⟨true, true, true, true⟩) := by
  constructor <;> intro h <;> simp only [Ept.eptResolveEntries, h] <;> split <;> rfl

/-- `*pt = nullptr` is written through a null pointer where the region of the
address is mapped by a large page and `pt` is not supplied. -/
theorem writesNull_eptInitCore (g : Globals) (alloc : Nat → BitVec 64) (mem : Mem)
    (hp : Pages alloc (eptInitCore alloc g mem).calls) (ha : a.toNat < 2 ^ 39)
    (supplied : EntryPointers Bool) :
    (eptResolveEntries (eptInitCore alloc g mem).mem (eptInitCore alloc g mem).ptr a
      supplied).writesNull = true ↔
      ¬ Split g (pdptIndex a) (pdIndex a) ∧ supplied.pt = false := by
  have hb := built_eptInitCore (g := g) mem hp
  rw [hb.eptResolveEntries hp (by omega)]
  simp

/-- The pointers are optional, but for `pt` at an address mapped by a large page. -/
theorem outParamsOptional_iff (g : Globals) (alloc : Nat → BitVec 64) (mem : Mem)
    (hp : Pages alloc (eptInitCore alloc g mem).calls) (ha : a.toNat < 2 ^ 39)
    (supplied : EntryPointers Bool) :
    OutParamsOptional (eptInitCore alloc g mem).mem (eptInitCore alloc g mem).ptr a supplied ↔
      supplied.pt = true ∨ Split g (pdptIndex a) (pdIndex a) := by
  rw [OutParamsOptional, and_iff_left (sameOuts_eptResolveEntries _ _ _ _), Bool.eq_false_iff,
    ne_eq, writesNull_eptInitCore g alloc mem hp ha supplied]
  cases supplied.pt <;> simp

/-- With `pt` alone supplied. -/
theorem outParamsOptional_writeBackOnly :
    OutParamsOptional
      (eptInitCore consecutivePages (eptInitMtrr (fun _ ↦ 0) writeBackOnly) fun _ ↦ 0).mem
      (eptInitCore consecutivePages (eptInitMtrr (fun _ ↦ 0) writeBackOnly) fun _ ↦ 0).ptr
      0x400000 ⟨false, false, false, true⟩ :=
  (outParamsOptional_iff (eptInitMtrr (fun _ ↦ 0) writeBackOnly) consecutivePages (fun _ ↦ 0)
    (pages_eptInitCore _ _) (by decide) ⟨false, false, false, true⟩).mpr (.inl rfl)

/-- The third region of memory without ranges is mapped by a large page; a caller
that only wants its PD entry makes `*pt = nullptr` write to address 0. -/
theorem not_outParamsOptional_writeBackOnly :
    ¬ OutParamsOptional
      (eptInitCore consecutivePages (eptInitMtrr (fun _ ↦ 0) writeBackOnly) fun _ ↦ 0).mem
      (eptInitCore consecutivePages (eptInitMtrr (fun _ ↦ 0) writeBackOnly) fun _ ↦ 0).ptr
      0x400000 ⟨false, false, true, false⟩ := by
  rintro ⟨hnull, -⟩
  have h := (writesNull_eptInitCore (eptInitMtrr (fun _ ↦ 0) writeBackOnly) consecutivePages
    (fun _ ↦ 0) (pages_eptInitCore _ _) (a := 0x400000) (by decide)
    ⟨false, false, true, false⟩).mpr ⟨by decide +kernel, rfl⟩
  rw [hnull] at h
  exact Bool.false_ne_true h

end Hypervi.Ept
