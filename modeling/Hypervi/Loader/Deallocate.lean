import Hypervi.Loader.Allocator

/-!
# `efi_deallocate` on what is not a live block

A run here may make any calls, with any sizes, answers and pointers (`Reached`).  The
entries in use then still hold live blocks (`Reached.tracked`), so that a pointer to none
of them is in no entry in use.

The free entries hold null, and the loop of `efi_deallocate` compares with them too.  So it
does nothing for such a pointer exactly when the pointer is not null or no entry is free
(`doesNothing_iff`).
-/

namespace Hypervi.Loader

open Slots

/-- The states that a run of any calls reaches. -/
inductive Reached : State → Prop
  | initial : Reached State.initial
  | step {s : State} (call : Call) (h : Reached s) : Reached (s.step call)

/-- `efi_deallocate` calls `free_pages` for nothing and leaves the table as it is. -/
structure DoesNothing (table : EfiAllocations) (address : BitVec 64) : Prop where
  calls : (efiDeallocate table address).2 = []
  table : (efiDeallocate table address).1 = table

/-- It does nothing when no entry has the address. -/
theorem doesNothing_iff_forall_ne {table : EfiAllocations} {address : BitVec 64} :
    DoesNothing table address ↔ ∀ i < allocationsMax, (table i).address ≠ address := by
  constructor
  · intro h i hi heq
    have hmem : table i ∈ (efiDeallocate table address).2 :=
      mem_calls_efiDeallocate.mpr ⟨i, hi, rfl, heq⟩
    rw [h.calls] at hmem
    exact List.not_mem_nil hmem
  · intro h
    constructor
    · rw [List.eq_nil_iff_forall_not_mem]
      intro e he
      obtain ⟨i, hi, rfl, heq⟩ := mem_calls_efiDeallocate.mp he
      exact h i hi heq
    · rw [(efiDeallocate_eq table address).1]
      funext i
      exact if_neg fun hhas ↦ h i hhas.1 (beq_iff_eq.mp hhas.2)

/-! ## Runs of any calls -/

theorem Reached.tracked {s : State} (h : Reached s) : Tracked s := by
  induction h with
  | initial => exact Tracked.initial
  | @step s call _ ih =>
      cases call with
      | allocate size answer => exact ih.allocate size answer
      | deallocate address => exact ih.deallocate address

/-- **Deallocation.**  In every state that is reached, a pointer that is to no live block
is passed over exactly when it is not null or no entry is free. -/
theorem doesNothing_iff {s : State} (h : Reached s) (address : BitVec 64)
    (hdead : ∀ b ∈ s.live, b.address ≠ address) :
    DoesNothing s.table address ↔
      address ≠ 0 ∨ ∀ i < allocationsMax, (s.table i).address ≠ 0 := by
  rw [doesNothing_iff_forall_ne]
  by_cases hzero : address = 0
  · subst hzero
    rw [or_iff_right (not_not_intro rfl)]
  · refine iff_of_true ?_ (.inl hzero)
    intro i hi heq
    obtain ⟨b, hb, hentry⟩ := h.tracked.block_of_used hi (heq ▸ hzero)
    refine hdead b hb ?_
    rw [← heq, ← hentry, Block.entry]

/-- A pointer into the middle of the block, which was never returned. -/
theorem doesNothing_oneBlock :
    DoesNothing oneBlock.table 0x100800 ∧ oneBlock.live = [⟨0x100000, 5000⟩] := by
  refine ⟨(doesNothing_iff (.step _ .initial) 0x100800 fun b hb ↦ ?_).mpr (.inl (by decide)),
    live_oneBlock⟩
  have hlive : b ∈ oneBlock.live := hb
  rw [live_oneBlock, List.mem_singleton] at hlive
  rw [hlive]
  decide

/-- Null is in each of the 4096 entries of an empty table, and is freed for each. -/
theorem not_doesNothing_null :
    Reached State.initial ∧ (∀ b ∈ State.initial.live, b.address ≠ 0) ∧
      ¬ DoesNothing State.initial.table 0 := by
  refine ⟨Reached.initial, fun _ hb ↦ absurd hb List.not_mem_nil, fun h ↦ ?_⟩
  have hpos : 0 < allocationsMax := by
    unfold allocationsMax
    decide
  exact doesNothing_iff_forall_ne.mp h 0 hpos rfl

end Hypervi.Loader
