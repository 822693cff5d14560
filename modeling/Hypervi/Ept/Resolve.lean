import Hypervi.Ept.Walk

/-!
# The resolver finds what the builder wrote

`ept_resolve_entries` follows the same tables as the processor, with
`address_to_pt` in place of the processor's indices.
`Built.eptResolveEntries` computes its result on the tables of `ept_init_core`
for every address whose PML4 index is zero and for every choice of null pointers;
`eptResolveEntries_eptInitCore` reads it for a call that supplies all four.
-/

namespace Hypervi.Ept

open Bits Ia32 Memory Mtrr Freestanding

variable {alloc : Nat → BitVec 64} {g : Globals} {s : EptState} {a : BitVec 64}

/-- The page directory that was allocated for the PDPT entry of an address. -/
def directoryFor (alloc : Nat → BitVec 64) (s : EptState) (a : BitVec 64) : BitVec 64 :=
  alloc (s.pd (pdptIndex a))

/-- The page table that was allocated for the PD entry of an address. -/
def tableFor (alloc : Nat → BitVec 64) (s : EptState) (a : BitVec 64) : BitVec 64 :=
  alloc (s.pt (pdptIndex a) (pdIndex a))

/-- What a call of `ept_resolve_entries` does on the tables of `ept_init_core`. -/
theorem Built.eptResolveEntries (h : Built alloc g s) (hp : Pages alloc s.calls)
    (ha : a.toNat / 2 ^ 39 % 512 = 0) (supplied : EntryPointers Bool) :
    eptResolveEntries s.mem s.ptr a supplied =
      { outs :=
          { pml4 := writeIf supplied.pml4 (entryAt (alloc 0) 0)
            pdpt := writeIf supplied.pdpt (entryAt (alloc 1) (pdptIndex a))
            pd := writeIf supplied.pd (entryAt (directoryFor alloc s a) (pdIndex a))
            pt := writeIf supplied.pt
              (if Split g (pdptIndex a) (pdIndex a) then entryAt (tableFor alloc s a) (ptIndex a)
              else 0) }
        writesNull := !decide (Split g (pdptIndex a) (pdIndex a)) && !supplied.pt
        reads := [entryAt (alloc 0) 0, entryAt (alloc 1) (pdptIndex a),
          entryAt (directoryFor alloc s a) (pdIndex a)] } := by
  have hpd := h.pdpt (pdptIndex a) (pdptIndex_lt a)
  have hpde := hpd.directory (pdIndex a) (pdIndex_lt a)
  have h0 : 0 < s.calls := Nat.lt_of_lt_of_le Nat.two_pos h.calls
  have hi4 : (addressToPt a).pml4.toNat = 0 := (toNat_addressToPt_pml4 a).trans ha
  have hi3 : (addressToPt a).pdpt.toNat = pdptIndex a := toNat_addressToPt_pdpt a
  have hi2 : (addressToPt a).pd.toNat = pdIndex a := toNat_addressToPt_pd a
  have hi1 : (addressToPt a).pt.toNat = ptIndex a := toNat_addressToPt_pt a
  have hpml4 : load64 s.mem (entryAt (alloc 0) 0) = tableEntry (alloc 1) := h.pml4
  have hlink : load64 s.mem (entryAt (alloc 1) (pdptIndex a)) =
      tableEntry (directoryFor alloc s a) := hpd.link
  simp only [Ept.eptResolveEntries, h.ptr, hi4, hi3, hi2, hi1,
    tableOf_eptPointer (hp.aligned 0 h0) (hp.lt 0 h0), hpml4,
    tableOf_tableEntry (hp.aligned 1 h.calls) (hp.lt 1 h.calls), hlink,
    directoryFor, tableOf_tableEntry (hp.aligned _ hpd.allocated) (hp.lt _ hpd.allocated)]
  by_cases hs : Split g (pdptIndex a) (pdIndex a)
  · have hentry : load64 s.mem (entryAt (alloc (s.pd (pdptIndex a))) (pdIndex a)) =
        tableEntry (tableFor alloc s a) := hpde.split hs
    simp only [hentry, not_largePage_tableEntry, if_pos hs, tableFor,
      tableOf_tableEntry (hp.aligned _ (hpde.allocated hs)) (hp.lt _ (hpde.allocated hs))]
    simp [hs]
  · have hentry : largePage.test (load64 s.mem
        (entryAt (alloc (s.pd (pdptIndex a))) (pdIndex a))) = true := by
      rw [show load64 s.mem _ = _ from hpde.large hs]
      exact largePage_largeEntry _ _
    simp [hentry, hs]

/-- The entry of a page table is not the null pointer. -/
theorem Built.entryAt_tableFor_ne_zero (h : Built alloc g s) (hp : Pages alloc s.calls)
    (hs : Split g (pdptIndex a) (pdIndex a)) : entryAt (tableFor alloc s a) (ptIndex a) ≠ 0 := by
  have hpde := (h.pdpt (pdptIndex a) (pdptIndex_lt a)).directory (pdIndex a) (pdIndex_lt a)
  have hlt := hp.lt _ (hpde.allocated hs)
  have hne : (tableFor alloc s a).toNat ≠ 0 := fun h0 ↦
    hp.ne_null _ (hpde.allocated hs) (BitVec.eq_of_toNat_eq h0)
  intro h0
  have htoNat := toNat_entryAt hlt (ptIndex_lt a)
  change (entryAt (tableFor alloc s a) (ptIndex a)).toNat = _ at htoNat
  rw [h0] at htoNat
  change 0 = (tableFor alloc s a).toNat + _ at htoNat
  omega

/-- The frame number in the entry of a page is the number of the page. -/
theorem pageFrameNumber_pageEntry (ha : a.toNat < 2 ^ 39) (t : MemoryType) :
    pageFrameNumber.get (pageEntry (pageStart a) t) = a >>> 12 := by
  rw [pageEntry, Field.get_set_self _ _ _ (by decide)]
  apply BitVec.eq_of_toNat_eq
  rw [Field.toNat_trunc, BitVec.toNat_ushiftRight, BitVec.toNat_ushiftRight, toNat_pageStart,
    Nat.shiftRight_eq_div_pow, Nat.shiftRight_eq_div_pow]
  simp only [pageFrameNumber]
  omega

/-- On the tables that `ept_init_core` builds, `ept_resolve_entries` finds the
entries the builder wrote: in the PML4, in the PDPT, in the page directory
allocated for the PDPT entry, and in the page table allocated for the PD entry.
The last one is null exactly where the builder used a large page. -/
theorem eptResolveEntries_eptInitCore (g : Globals) (alloc : Nat → BitVec 64) (mem : Mem)
    (hp : Pages alloc (eptInitCore alloc g mem).calls) (ha : a.toNat < 2 ^ 39) :
    let s := eptInitCore alloc g mem
    let outs := (eptResolveEntries s.mem s.ptr a ⟨true, true, true, true⟩).outs
    outs.pml4 = some (entryAt (alloc 0) (a.toNat / 2 ^ 39)) ∧
    outs.pdpt = some (entryAt (alloc 1) (a.toNat / 2 ^ 30 % 512)) ∧
    outs.pd = some (entryAt (directoryFor alloc s a) (a.toNat / 2 ^ 21 % 512)) ∧
    (outs.pt = some 0 ↔ ¬ Split g (pdptIndex a) (pdIndex a)) ∧
    (outs.pt ≠ some 0 → ∃ pte, outs.pt = some pte ∧
      pte = entryAt (tableFor alloc s a) (a.toNat / 2 ^ 12 % 512) ∧
      pageFrameNumber.get (load64 s.mem pte) = a >>> 12) := by
  have hb := built_eptInitCore mem hp
  have hpde := (hb.pdpt (pdptIndex a) (pdptIndex_lt a)).directory (pdIndex a) (pdIndex_lt a)
  have h4 : a.toNat / 2 ^ 39 = 0 := by omega
  intro s outs
  have hout : outs = _ :=
    congrArg Resolved.outs (hb.eptResolveEntries hp (by omega) ⟨true, true, true, true⟩)
  have hpml4 : outs.pml4 = some (entryAt (alloc 0) 0) := congrArg EntryPointers.pml4 hout
  have hpt : outs.pt = some (if Split g (pdptIndex a) (pdIndex a) then
      entryAt (tableFor alloc s a) (ptIndex a) else 0) := congrArg EntryPointers.pt hout
  refine ⟨h4 ▸ hpml4, congrArg EntryPointers.pdpt hout, congrArg EntryPointers.pd hout, ?_⟩
  by_cases hs : Split g (pdptIndex a) (pdIndex a)
  · rw [if_pos hs] at hpt
    refine ⟨?_, fun _ ↦ ⟨_, hpt, rfl, ?_⟩⟩
    · rw [hpt, Option.some.injEq]
      exact iff_of_false (hb.entryAt_tableFor_ne_zero hp hs) (not_not_intro hs)
    · have hentry : load64 s.mem (entryAt (tableFor alloc s a) (ptIndex a)) = pageEntry _ _ :=
        hpde.pages hs (ptIndex a) (ptIndex_lt a)
      rw [hentry, show addressOf (pdptIndex a) (pdIndex a) (ptIndex a) = pageStart a from
        addressOf_page ha]
      exact pageFrameNumber_pageEntry ha _
  · rw [if_neg hs] at hpt
    exact ⟨iff_of_true hpt hs, fun hne ↦ absurd hpt hne⟩

/-- The third region of memory without ranges is mapped by a large page. -/
theorem eptResolveEntries_writeBackOnly :
    (eptResolveEntries
      (eptInitCore consecutivePages (eptInitMtrr (fun _ ↦ 0) writeBackOnly) fun _ ↦ 0).mem
      (eptInitCore consecutivePages (eptInitMtrr (fun _ ↦ 0) writeBackOnly) fun _ ↦ 0).ptr
      0x400000 ⟨true, true, true, true⟩).outs.pt = some 0 :=
  (eptResolveEntries_eptInitCore (eptInitMtrr (fun _ ↦ 0) writeBackOnly) consecutivePages
    (fun _ ↦ 0) (pages_eptInitCore _ _) (by decide)).2.2.2.1.mpr (by decide +kernel)

end Hypervi.Ept
