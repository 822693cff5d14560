import Hypervi.Loader.Allocator
import Hypervi.Memory.Byte

/-!
# The table of a fresh allocator

`efi_allocator_init` gets the pages of the table from the firmware and clears as many
bytes as the table has entries.  An entry has sixteen bytes, so that 256 of the 4096 are
cleared and the others keep what the pages held.

`Fresh` says what is expected of the table afterwards: every entry is free, as many calls
of `efi_allocate` as there are entries succeed, and `free_pages` is called for nothing that
`efi_allocate` did not return.  The last two hold of any table whose entries are free
(`fresh_iff`), by invariants of the run: no more entries are in use than calls have been
made, and the entries in use hold addresses that were returned.  The entries not in use hold
null, so that null must not be given back (`NullKept`).
-/

namespace Hypervi.Loader

open Freestanding Memory Slots

/-! ## `efi_allocator_init` -/

/-- `efi_status::success` -/
def efiStatusSuccess : BitVec 64 := 0

/-- `sizeof(efi_allocation_entry)` -/
def allocationEntrySize : Nat := 16

/-- `efi_allocations[i]`, for each `i`. -/
def efiAllocationsAt (m : Mem) (efiAllocations : BitVec 64) : EfiAllocations := fun i ↦
  let entry := efiAllocations + BitVec.ofNat 64 (allocationEntrySize * i)
  ⟨member 8 m entry 0, member 8 m entry 8⟩

/-- `efi_allocator_init`, for the status and the pointer that the firmware returns: memory,
and whether the allocator can be used. -/
def efiAllocatorInit (status efiAllocations : BitVec 64) (m : Mem) : Mem × Bool :=
  if efiAllocations = 0 ∨ status ≠ efiStatusSuccess then (m, false)
  else (memset m efiAllocations 0 allocationsMax, true)

/-! ## Runs -/

/-- The table, and the pointers that `efi_allocate` has returned, the last one first. -/
structure Session where
  table : EfiAllocations
  returned : List (BitVec 64)

namespace Session

def start (table : EfiAllocations) : Session := ⟨table, []⟩

/-- The state after a request: the table, and the pointer that is returned. -/
def allocated (s : Session) (result : EfiAllocations × BitVec 64) : Session :=
  ⟨result.1, result.2 :: s.returned⟩

/-- The state after pages are given back. -/
def freed (s : Session) (result : EfiAllocations × List EfiAllocationEntry) : Session :=
  { s with table := result.1 }

theorem table_freed (s : Session) (result : EfiAllocations × List EfiAllocationEntry) :
    (s.freed result).table = result.1 := rfl

theorem returned_freed (s : Session) (result : EfiAllocations × List EfiAllocationEntry) :
    (s.freed result).returned = s.returned := rfl

def step (s : Session) : Call → Session
  | .allocate size answer => s.allocated (efiAllocate s.table size answer)
  | .deallocate address => s.freed (efiDeallocate s.table address)

/-- The calls in order, with the answers that the firmware gives. -/
def run (s : Session) (calls : List Call) : Session := calls.foldl step s

/-- What holds at the start and is kept by each call holds in every later state. -/
theorem run_induction {P : Session → Prop} {s : Session} (h₀ : P s)
    (hstep : ∀ s call, P s → P (s.step call)) (calls : List Call) : P (s.run calls) := by
  induction calls generalizing s with
  | nil => exact h₀
  | cons call calls ih => exact ih (hstep s call h₀)

end Session

/-- What is expected of the table of a fresh allocator, over the run of the calls. -/
structure Fresh (table : EfiAllocations) (calls : List Call) : Prop where
  free : ∀ i < allocationsMax, (table i).address = 0
  /-- After fewer than 4096 calls of `efi_allocate`, a request that is granted succeeds. -/
  succeeds : ∀ before, before <+: calls →
    ((Session.start table).run before).returned.length < allocationsMax →
    ∀ size address, address ≠ 0 →
      (efiAllocate ((Session.start table).run before).table size (some address)).2 = address
  /-- Only pointers that were returned are freed. -/
  returned : ∀ before address, before ++ [.deallocate address] <+: calls →
    ∀ e ∈ (efiDeallocate ((Session.start table).run before).table address).2,
      e.address ∈ ((Session.start table).run before).returned

/-- `efi_deallocate` is called with null only when no entry is free, or after
`efi_allocate` has returned null. -/
def NullKept (table : EfiAllocations) (calls : List Call) : Prop :=
  ∀ before, before ++ [.deallocate 0] <+: calls →
    (∀ i < allocationsMax, (((Session.start table).run before).table i).address ≠ 0) ∨
      0 ∈ ((Session.start table).run before).returned

theorem nullKept_of_not_mem {table : EfiAllocations} {calls : List Call}
    (h : .deallocate 0 ∉ calls) : NullKept table calls :=
  fun _ hpre ↦ absurd (hpre.subset (List.mem_append_right _ List.mem_cons_self)) h

/-! ## Two invariants -/

section invariants

variable {s : Session} {table : EfiAllocations}

/-- At most as many entries are in use as calls have been made. -/
def Session.Counted (s : Session) : Prop := (entries s.table).length ≤ s.returned.length

/-- The entries in use hold pointers that were returned. -/
def Session.Known (s : Session) : Prop :=
  ∀ i < allocationsMax, (s.table i).address ≠ 0 → (s.table i).address ∈ s.returned

theorem length_entries_efiAllocate_le (table : EfiAllocations) (size : BitVec 64)
    (answer : Option (BitVec 64)) :
    (entries (efiAllocate table size answer).1).length ≤ (entries table).length + 1 := by
  cases hfree : freeEntry table with
  | none =>
      rw [efiAllocate_full hfree]
      exact Nat.le_succ _
  | some i =>
      obtain ⟨hi, hunused⟩ := firstFree_eq_some hfree
      unfold efiAllocate
      simp only [hfree]
      by_cases haddress : answer.getD (table i).address = 0
      · rw [entries, occupied_of_unused hi hunused (bne_eq_false_iff_eq.mpr haddress)]
        exact Nat.le_succ _
      · exact Nat.le_of_eq (occupied_fill hi hunused (bne_iff_ne.mpr haddress)).length_eq

theorem Session.Counted.step (h : s.Counted) (call : Call) : (s.step call).Counted := by
  cases call with
  | allocate size answer =>
      exact Nat.le_trans (length_entries_efiAllocate_le s.table size answer) (Nat.succ_le_succ h)
  | deallocate address =>
      rw [Session.step, Session.Counted, table_freed, returned_freed, entries_efiDeallocate]
      exact Nat.le_trans (List.length_filter_le _ _) h

/-- The table after a request: the entry that was free holds what is returned. -/
theorem efiAllocate_apply (table : EfiAllocations) (size : BitVec 64)
    (answer : Option (BitVec 64)) (j : Nat) :
    (efiAllocate table size answer).1 j = table j ∨
      ((efiAllocate table size answer).1 j).address = (efiAllocate table size answer).2 := by
  unfold efiAllocate
  cases hfree : freeEntry table with
  | none => exact .inl rfl
  | some i =>
      dsimp only
      by_cases hj : j = i
      · right
        rw [hj, Function.update_self]
      · left
        rw [Function.update_of_ne hj]

theorem Session.Known.step (h : s.Known) (call : Call) : (s.step call).Known := by
  intro i hi hused
  cases call with
  | allocate size answer =>
      rcases efiAllocate_apply s.table size answer i with heq | heq
      · have hold : (s.step (.allocate size answer)).table i = s.table i := heq
        rw [hold] at hused ⊢
        exact List.mem_cons_of_mem _ (h i hi hused)
      · exact List.mem_cons.mpr (.inl heq)
  | deallocate address =>
      have happly : (s.step (.deallocate address)).table i =
          if i < allocationsMax ∧ (s.table i).hasAddress address then ⟨0, 0⟩ else s.table i := by
        rw [Session.step, table_freed, (efiDeallocate_eq s.table address).1]
      rw [happly] at hused ⊢
      rw [Session.step, returned_freed]
      split at hused
      · exact absurd rfl hused
      · next hkeep =>
        rw [if_neg hkeep]
        exact h i hi hused

theorem Session.counted_start (hfree : ∀ i < allocationsMax, (table i).address = 0) :
    (Session.start table).Counted := by
  have hnone : entries table = [] := by
    rw [entries, occupied, List.filter_eq_nil_iff]
    intro e he
    obtain ⟨i, hi, rfl⟩ := List.mem_map.mp he
    rw [EfiAllocationEntry.used, hfree i (List.mem_range.mp hi)]
    exact Bool.false_ne_true
  exact Nat.le_of_eq (congrArg List.length hnone)

theorem Session.known_start (hfree : ∀ i < allocationsMax, (table i).address = 0) :
    (Session.start table).Known := fun i hi hused ↦ absurd (hfree i hi) hused

/-- An entry is free as long as fewer calls have been made than there are entries. -/
theorem Session.Counted.efiAllocate_snd (h : s.Counted) (hlt : s.returned.length < allocationsMax)
    (size : BitVec 64) {address : BitVec 64} (hne : address ≠ 0) :
    (efiAllocate s.table size (some address)).2 = address := by
  have hsome : freeEntry s.table ≠ none := by
    rw [ne_eq, freeEntry, firstFree_eq_none_iff]
    exact Nat.ne_of_lt (Nat.lt_of_le_of_lt h hlt)
  obtain ⟨i, hi⟩ := Option.ne_none_iff_exists'.mp hsome
  exact (efiAllocate_some hi hne).2

end invariants

/-- A table is that of a fresh allocator when its entries are free.  Free entries hold null,
and are freed when `efi_deallocate` is called with that. -/
theorem fresh_iff (table : EfiAllocations) (calls : List Call) :
    Fresh table calls ↔ (∀ i < allocationsMax, (table i).address = 0) ∧ NullKept table calls := by
  constructor
  · intro h
    refine ⟨h.free, fun before hpre ↦ or_iff_not_imp_left.mpr fun hsome ↦ ?_⟩
    push Not at hsome
    obtain ⟨i, hi, hnull⟩ := hsome
    have hfreed := h.returned before 0 hpre _ (mem_calls_efiDeallocate.mpr ⟨i, hi, rfl, hnull⟩)
    rwa [hnull] at hfreed
  · rintro ⟨hfree, hnull⟩
    refine ⟨hfree, fun before _ hlt size address hne ↦ ?_, fun before address hpre e he ↦ ?_⟩
    · have hcounted := Session.run_induction (Session.counted_start hfree)
        (fun s call h ↦ h.step call) before
      exact hcounted.efiAllocate_snd hlt size hne
    · obtain ⟨i, hi, rfl, haddress⟩ := mem_calls_efiDeallocate.mp he
      by_cases hzero : address = 0
      · subst hzero
        rw [haddress]
        rcases hnull before hpre with hfull | hreturned
        · exact absurd haddress (hfull i hi)
        · exact hreturned
      · have hknown := Session.run_induction (Session.known_start hfree)
          (fun s call h ↦ h.step call) before
        exact hknown i hi (by rwa [haddress])

/-! ## The table that `efi_allocator_init` leaves -/

section init

variable {status efiAllocations : BitVec 64} {m : Mem}

theorem address_efiAllocationsAt (m : Mem) (efiAllocations : BitVec 64) (i : Nat) :
    (efiAllocationsAt m efiAllocations i).address = member 8 m efiAllocations (16 * i) := by
  change load 8 m _ = load 8 m _
  rw [BitVec.add_assoc, ← BitVec.ofNat_add]
  rfl

theorem efiAllocatorInit_of_ok (hok : (efiAllocatorInit status efiAllocations m).2 = true) :
    (efiAllocatorInit status efiAllocations m).1 = memset m efiAllocations 0 0x1000 := by
  unfold efiAllocatorInit at hok ⊢
  split at hok
  · exact absurd hok Bool.false_ne_true
  · next hsuccess =>
    rw [if_neg hsuccess]
    unfold allocationsMax
    rfl

/-- The entry is in the part of the table that is cleared, or keeps its address. -/
theorem address_efiAllocatorInit (hok : (efiAllocatorInit status efiAllocations m).2 = true)
    {i : Nat} (hi : i < allocationsMax) :
    (efiAllocationsAt (efiAllocatorInit status efiAllocations m).1 efiAllocations i).address =
      if i < 256 then 0 else (efiAllocationsAt m efiAllocations i).address := by
  unfold allocationsMax at hi
  rw [address_efiAllocationsAt, address_efiAllocationsAt, efiAllocatorInit_of_ok hok]
  split
  · exact member_memset_zero (by omega) (by decide)
  · have hbase := efiAllocations.isLt
    refine load_memset_of_apart ⟨?_, ?_⟩
    · rw [toNat_add_sub_self efiAllocations (by omega)]
      omega
    · rw [BitVec.toNat_sub, BitVec.toNat_add, BitVec.toNat_ofNat]
      omega

end init

/-- **A fresh allocator.**  Its table is empty exactly when the entries from the 256th on
held null in the pages that the firmware returned; what it frees was then returned, unless
null is given back. -/
theorem fresh_efiAllocatorInit_iff (status efiAllocations : BitVec 64) (m : Mem)
    (calls : List Call) (hok : (efiAllocatorInit status efiAllocations m).2 = true) :
    Fresh (efiAllocationsAt (efiAllocatorInit status efiAllocations m).1 efiAllocations) calls ↔
      (∀ i < allocationsMax, 256 ≤ i → (efiAllocationsAt m efiAllocations i).address = 0) ∧
        NullKept (efiAllocationsAt (efiAllocatorInit status efiAllocations m).1 efiAllocations)
          calls := by
  rw [fresh_iff]
  refine and_congr_left fun _ ↦ ⟨fun h i hi hle ↦ ?_, fun h i hi ↦ ?_⟩
  · have hfree := h i hi
    rwa [address_efiAllocatorInit hok hi, if_neg (Nat.not_lt.mpr hle)] at hfree
  · rw [address_efiAllocatorInit hok hi]
    split
    · rfl
    · next hle => exact h i hi (Nat.not_lt.mp hle)

/-- Pages that hold zeros are a fresh table, when a page is asked for and given back. -/
theorem fresh_efiAllocatorInit_zeros :
    Fresh (efiAllocationsAt (efiAllocatorInit efiStatusSuccess 0x100000 fun _ ↦ 0).1 0x100000)
      [.allocate 0x1000 (some 0x200000), .deallocate 0x200000] :=
  (fresh_efiAllocatorInit_iff efiStatusSuccess 0x100000 (fun _ ↦ 0) _ (by decide)).mpr
    ⟨fun _ _ _ ↦ load_of_bytes fun _ _ ↦ by simp, nullKept_of_not_mem (by simp)⟩

/-- Pages that hold ones are not: the 257th entry is in use before any call. -/
theorem not_fresh_efiAllocatorInit_ones :
    (efiAllocatorInit efiStatusSuccess 0x100000 fun _ ↦ 0xFF).2 = true ∧
      ¬ Fresh (efiAllocationsAt (efiAllocatorInit efiStatusSuccess 0x100000 fun _ ↦ 0xFF).1
        0x100000) [] := by
  have hlt : 256 < allocationsMax := by
    unfold allocationsMax
    decide
  refine ⟨by decide, fun h ↦ ?_⟩
  have hfree := h.free 256 hlt
  rw [address_efiAllocatorInit (by decide) hlt] at hfree
  revert hfree
  decide +kernel

end Hypervi.Loader
