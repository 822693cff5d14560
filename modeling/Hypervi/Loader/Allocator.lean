import Hypervi.Freestanding.Efi
import Hypervi.Slots
import Mathlib.Data.List.Nodup

/-!
# The allocator of the loader

`efi_allocate` asks the firmware for pages and notes the block in the first free entry of a
table of 4096; `efi_deallocate` frees the block of every entry with the address, as the
loop does not stop at the first.

The firmware hands out blocks and takes them back (`State.live`).  `Inv` ties the table to
these blocks: what the entries in use hold is a permutation of them.  It holds in every
state that is reached (`Reachable.inv`), and `bookkeeping` reads off what follows.
-/

namespace Hypervi.Loader

open Freestanding Slots

/-! ## The table -/

/-- `efi_allocation_entry` -/
structure EfiAllocationEntry where
  address : BitVec 64
  pages : BitVec 64
deriving DecidableEq, Repr

namespace EfiAllocationEntry

/-- The address is not null. -/
def used (e : EfiAllocationEntry) : Bool := e.address != 0

/-- The address is the one given. -/
def hasAddress (address : BitVec 64) (e : EfiAllocationEntry) : Bool := e.address == address

theorem used_of_hasAddress {address : BitVec 64} (hne : address ≠ 0) {e : EfiAllocationEntry}
    (h : e.hasAddress address = true) : e.used = true := by
  rw [hasAddress, beq_iff_eq] at h
  rw [used, bne_iff_ne, h]
  exact hne

end EfiAllocationEntry

/-- `efi_allocations` -/
abbrev EfiAllocations := Nat → EfiAllocationEntry

/-- `ALLOCATIONS_MAX` -/
@[irreducible] def allocationsMax : Nat := 4096

/-- The entry that `efi_allocate` uses. -/
abbrev freeEntry (table : EfiAllocations) : Option Nat :=
  firstFree EfiAllocationEntry.used allocationsMax table

/-- What the entries in use hold. -/
abbrev entries (table : EfiAllocations) : List EfiAllocationEntry :=
  occupied EfiAllocationEntry.used allocationsMax table

/-- `efi_allocate`, and the pointer it returns.  `answer` is the block that the firmware
returns; it has none when it fails, and then leaves the entry's address as it is. -/
def efiAllocate (table : EfiAllocations) (size : BitVec 64) (answer : Option (BitVec 64)) :
    EfiAllocations × BitVec 64 :=
  let pages := numPages size
  match freeEntry table with
  | some i =>
      let address := answer.getD (table i).address
      (Function.update table i ⟨address, pages⟩, address)
  | none => (table, 0)

/-- `efi_deallocate`, and the arguments of the calls of `free_pages` it makes, in order. -/
def efiDeallocate (table : EfiAllocations) (address : BitVec 64) :
    EfiAllocations × List EfiAllocationEntry :=
  forRange allocationsMax (fun i s ↦
    let entry := s.1 i
    if entry.address = address then (Function.update s.1 i ⟨0, 0⟩, s.2 ++ [entry]) else s)
    (table, [])

/-! ## Runs -/

/-- A block of the firmware: its address, and the size of the request it was handed out
for. -/
structure Block where
  address : BitVec 64
  size : BitVec 64
deriving DecidableEq, Repr

namespace Block

/-- The entry that describes the block. -/
def entry (b : Block) : EfiAllocationEntry := ⟨b.address, numPages b.size⟩

/-- The entry has the block's address, and the pages that the request was rounded up
to. -/
structure DescribedBy (b : Block) (e : EfiAllocationEntry) : Prop where
  address : e.address = b.address
  pages : e.pages.toNat = (b.size.toNat + 4095) / 4096

/-- `x` is in the pages of the block. -/
def Covers (b : Block) (x : BitVec 64) : Prop :=
  (x - b.address).toNat < pageBytes (numPages b.size)

/-- The blocks have no byte in common, and are not at one address, as blocks of no pages
could be otherwise. -/
structure Disjoint (b c : Block) : Prop where
  address_ne : b.address ≠ c.address
  bytes : ∀ x, b.Covers x → ¬ c.Covers x

theorem entry_describes {b : Block} (h : b.size.toNat ≤ 2 ^ 64 - 4096) : b.DescribedBy b.entry :=
  ⟨rfl, toNat_numPages_of_le h⟩

end Block

/-- The table, and the blocks that the firmware has handed out and not had freed. -/
structure State where
  table : EfiAllocations
  live : List Block

/-- A call, with the firmware's answer. -/
inductive Call where
  | allocate (size : BitVec 64) (answer : Option (BitVec 64))
  | deallocate (address : BitVec 64)

namespace State

/-- The table that the run starts from: 4096 entries of zeros. -/
def initial : State where
  table _ := ⟨0, 0⟩
  live := []

/-- The firmware has had the entries freed that `free_pages` was called for. -/
def freed (s : State) (result : EfiAllocations × List EfiAllocationEntry) : State where
  table := result.1
  live := s.live.filter fun b ↦ !result.2.contains b.entry

theorem table_freed (s : State) (result : EfiAllocations × List EfiAllocationEntry) :
    (s.freed result).table = result.1 := rfl

/-- One call.  The firmware hands out a block when it is asked for one and does not
refuse. -/
def step (s : State) : Call → State
  | .allocate size answer =>
      { table := (efiAllocate s.table size answer).1
        live :=
          if (freeEntry s.table).isSome then (answer.map (Block.mk · size)).toList ++ s.live
          else s.live }
  | .deallocate address => s.freed (efiDeallocate s.table address)

/-- The calls that a run may make: sizes that do not wrap, answers that are blocks disjoint
from the live ones, and pointers to live blocks. -/
def Legal (s : State) : Call → Prop
  | .allocate size answer => size.toNat ≤ 2 ^ 64 - 4096 ∧
      ∀ address, answer = some address →
        address ≠ 0 ∧ ∀ b ∈ s.live, Block.Disjoint ⟨address, size⟩ b
  | .deallocate address => address ≠ 0 ∧ ∃ b ∈ s.live, b.address = address

end State

/-- The states that a run may reach. -/
inductive Reachable : State → Prop
  | initial : Reachable State.initial
  | step {s : State} {call : Call} (h : Reachable s) (hcall : s.Legal call) :
      Reachable (s.step call)

/-! ## One call -/

section calls

variable {table : EfiAllocations} {size address : BitVec 64}

/-- The loop of `efi_deallocate` clears the entries with the address, and frees each. -/
theorem efiDeallocate_eq (table : EfiAllocations) (address : BitVec 64) :
    (efiDeallocate table address).1 = (fun i ↦
        if i < allocationsMax ∧ (table i).hasAddress address then ⟨0, 0⟩ else table i) ∧
      (efiDeallocate table address).2 =
        ((List.range allocationsMax).map table).filter (·.hasAddress address) := by
  refine forRange_induction (P := fun k (s : EfiAllocations × List EfiAllocationEntry) ↦
    s.1 = (fun i ↦ if i < k ∧ (table i).hasAddress address then ⟨0, 0⟩ else table i) ∧
      s.2 = ((List.range k).map table).filter (·.hasAddress address)) ⟨?_, rfl⟩ ?_
  · funext i
    simp
  · rintro k - ⟨t, calls⟩ ⟨rfl, rfl⟩
    have hentry : (if k < k ∧ (table k).hasAddress address then (⟨0, 0⟩ : EfiAllocationEntry)
        else table k) = table k := if_neg fun h ↦ Nat.lt_irrefl k h.1
    simp only [hentry, List.range_succ, List.map_append, List.map_singleton, List.filter_append]
    by_cases haddress : (table k).address = address
    · have hhas : (table k).hasAddress address = true := beq_iff_eq.mpr haddress
      rw [if_pos haddress, List.filter_singleton, hhas]
      refine ⟨?_, rfl⟩
      funext i
      by_cases hik : i = k
      · subst hik
        simp [hhas]
      · simp only [Function.update_of_ne hik, Nat.lt_succ_iff_lt_or_eq, hik, or_false]
    · have hhas : (table k).hasAddress address = false := by
        rw [EfiAllocationEntry.hasAddress, beq_eq_false_iff_ne]
        exact haddress
      rw [if_neg haddress, List.filter_singleton, hhas]
      refine ⟨?_, (List.append_nil _).symm⟩
      funext i
      by_cases hik : i = k
      · subst hik
        simp [hhas]
      · simp only [Nat.lt_succ_iff_lt_or_eq, hik, or_false]

theorem entries_efiDeallocate (table : EfiAllocations) (address : BitVec 64) :
    entries (efiDeallocate table address).1 =
      (entries table).filter fun e ↦ !e.hasAddress address := by
  have hunused : EfiAllocationEntry.used ⟨0, 0⟩ = false := rfl
  rw [← occupied_clear allocationsMax table (·.hasAddress address) hunused,
    (efiDeallocate_eq table address).1]
  apply occupied_congr
  intro i hi
  simp only [hi, true_and]

/-- The entries that are freed are those with the address given. -/
theorem mem_calls_efiDeallocate {address : BitVec 64} {e : EfiAllocationEntry} :
    e ∈ (efiDeallocate table address).2 ↔
      ∃ i < allocationsMax, table i = e ∧ e.address = address := by
  rw [(efiDeallocate_eq table address).2, List.mem_filter, List.mem_map]
  constructor
  · rintro ⟨⟨i, hi, rfl⟩, haddress⟩
    exact ⟨i, List.mem_range.mp hi, rfl, beq_iff_eq.mp haddress⟩
  · rintro ⟨i, hi, rfl, haddress⟩
    exact ⟨⟨i, List.mem_range.mpr hi, rfl⟩, beq_iff_eq.mpr haddress⟩

/-- An entry in use is freed when it has the address. -/
theorem contains_calls (address : BitVec 64) {e : EfiAllocationEntry} (he : e ∈ entries table) :
    (efiDeallocate table address).2.contains e = e.hasAddress address := by
  rw [Bool.eq_iff_iff, List.contains_iff_mem, mem_calls_efiDeallocate,
    EfiAllocationEntry.hasAddress, beq_iff_eq]
  constructor
  · rintro ⟨i, -, -, heq⟩
    exact heq
  · intro heq
    obtain ⟨i, hi, hentry, -⟩ := mem_occupied.mp he
    exact ⟨i, hi, hentry, heq⟩

/-- The calls of `free_pages`, for a pointer that is not null. -/
theorem calls_efiDeallocate (hne : address ≠ 0) :
    (efiDeallocate table address).2 = (entries table).filter (·.hasAddress address) := by
  rw [(efiDeallocate_eq table address).2, entries, occupied, List.filter_filter]
  apply List.filter_congr
  intro e _
  cases hhas : e.hasAddress address with
  | true => rw [EfiAllocationEntry.used_of_hasAddress hne hhas]; rfl
  | false => rfl

/-- What `efi_allocate` makes of the entries in use. -/
theorem efiAllocate_some {i : Nat} (hfree : freeEntry table = some i) (haddress : address ≠ 0) :
    (entries (efiAllocate table size (some address)).1).Perm
        (⟨address, numPages size⟩ :: entries table) ∧
      (efiAllocate table size (some address)).2 = address := by
  obtain ⟨hi, hunused⟩ := firstFree_eq_some hfree
  unfold efiAllocate
  simp only [hfree, Option.getD_some, and_true]
  exact occupied_fill hi hunused (bne_iff_ne.mpr haddress)

/-- A request that is refused leaves them as they are. -/
theorem efiAllocate_none (table : EfiAllocations) (size : BitVec 64) :
    entries (efiAllocate table size none).1 = entries table ∧
      (efiAllocate table size none).2 = 0 := by
  unfold efiAllocate
  cases hfree : freeEntry table with
  | none => exact ⟨rfl, rfl⟩
  | some i =>
      obtain ⟨hi, hunused⟩ := firstFree_eq_some hfree
      have hnull : (table i).address = 0 := by
        rwa [EfiAllocationEntry.used, bne_eq_false_iff_eq] at hunused
      exact ⟨occupied_of_unused hi hunused hunused, hnull⟩

/-- A request that is answered with null, too. -/
theorem efiAllocate_null (table : EfiAllocations) (size : BitVec 64) :
    efiAllocate table size (some 0) = efiAllocate table size none := by
  unfold efiAllocate
  cases hfree : freeEntry table with
  | none => rfl
  | some i =>
      obtain ⟨-, hunused⟩ := firstFree_eq_some hfree
      have hnull : (table i).address = 0 := by
        rwa [EfiAllocationEntry.used, bne_eq_false_iff_eq] at hunused
      simp only [Option.getD_some, Option.getD_none, hnull]

theorem efiAllocate_full (hfull : freeEntry table = none) (answer : Option (BitVec 64)) :
    efiAllocate table size answer = (table, 0) := by
  unfold efiAllocate
  simp only [hfull]

end calls

section live

variable {s : State} {size address : BitVec 64} {answer : Option (BitVec 64)}

/-- A request that finds no free entry changes nothing. -/
theorem State.step_allocate_full (hfull : freeEntry s.table = none) :
    s.step (.allocate size answer) = s := by
  rw [State.step, efiAllocate_full hfull, hfull]
  rfl

theorem State.live_allocate_none (s : State) (size : BitVec 64) :
    (s.step (.allocate size none)).live = s.live := ite_self _

theorem State.live_allocate_some {i : Nat} (hfree : freeEntry s.table = some i) :
    (s.step (.allocate size (some address))).live = ⟨address, size⟩ :: s.live := by
  rw [State.step]
  simp only [hfree]
  rfl

/-- A request adds the block that it is answered with, if any. -/
theorem State.live_allocate (s : State) (size : BitVec 64) (answer : Option (BitVec 64)) :
    (s.step (.allocate size answer)).live = s.live ∨
      ∃ address, answer = some address ∧
        (s.step (.allocate size answer)).live = ⟨address, size⟩ :: s.live := by
  cases hfree : freeEntry s.table with
  | none => exact .inl (congrArg State.live (step_allocate_full hfree))
  | some i =>
      cases answer with
      | none => exact .inl (live_allocate_none s size)
      | some address => exact .inr ⟨address, rfl, live_allocate_some hfree⟩

end live

/-! ## The invariant -/

/-- What the entries in use hold is the live blocks that are not at null, in some order.
Any calls keep this. -/
def Tracked (s : State) : Prop :=
  (entries s.table).Perm ((s.live.map Block.entry).filter EfiAllocationEntry.used)

namespace Tracked

variable {s : State} {size address : BitVec 64}

theorem initial : Tracked State.initial := by
  have hnone : entries State.initial.table = [] := by
    rw [entries, occupied, List.filter_eq_nil_iff]
    intro e he
    obtain ⟨i, -, rfl⟩ := List.mem_map.mp he
    exact Bool.false_ne_true
  rw [Tracked, hnone]
  exact List.Perm.refl []

theorem allocate (h : Tracked s) (size : BitVec 64) (answer : Option (BitVec 64)) :
    Tracked (s.step (.allocate size answer)) := by
  cases hfree : freeEntry s.table with
  | none =>
      rw [State.step_allocate_full hfree]
      exact h
  | some i =>
      cases answer with
      | none =>
          rw [Tracked, s.live_allocate_none size, State.step, (efiAllocate_none s.table size).1]
          exact h
      | some address =>
          rw [Tracked, State.live_allocate_some hfree, List.map_cons]
          by_cases hne : address = 0
          · have hunused : ¬ (Block.entry ⟨address, size⟩).used = true := by
              rw [hne]
              exact Bool.false_ne_true
            rw [List.filter_cons_of_neg hunused, State.step, hne, efiAllocate_null,
              (efiAllocate_none s.table size).1]
            exact h
          · have hused : (Block.entry ⟨address, size⟩).used = true := bne_iff_ne.mpr hne
            rw [List.filter_cons_of_pos hused]
            exact (efiAllocate_some hfree hne).1.trans (List.Perm.cons _ h)

theorem deallocate (h : Tracked s) (address : BitVec 64) :
    Tracked (s.step (.deallocate address)) := by
  have hlive : (s.step (.deallocate address)).live.map Block.entry =
      (s.live.map Block.entry).filter
        fun e ↦ !(efiDeallocate s.table address).2.contains e := by
    rw [List.filter_map]
    rfl
  rw [Tracked, hlive, State.step, State.table_freed, entries_efiDeallocate, List.filter_comm]
  refine (h.filter _).trans (List.Perm.of_eq (List.filter_congr fun e he ↦ ?_))
  rw [contains_calls address (h.mem_iff.mpr he)]

/-- An entry in use is that of a live block. -/
theorem block_of_used (h : Tracked s) {i : Nat} (hi : i < allocationsMax)
    (hused : (s.table i).address ≠ 0) : ∃ b ∈ s.live, b.entry = s.table i := by
  have hmem : s.table i ∈ entries s.table :=
    mem_occupied.mpr ⟨i, hi, rfl, bne_iff_ne.mpr hused⟩
  exact List.mem_map.mp (List.mem_of_mem_filter (h.mem_iff.mp hmem))

end Tracked

/-- What the entries in use hold is the live blocks, in some order; no two live blocks are
at one address, none is at null, and the sizes that were asked for do not wrap. -/
structure Inv (s : State) : Prop where
  entries_perm : (entries s.table).Perm (s.live.map Block.entry)
  nodup : (s.live.map Block.address).Nodup
  ne_null : ∀ b ∈ s.live, b.address ≠ 0
  size_le : ∀ b ∈ s.live, b.size.toNat ≤ 2 ^ 64 - 4096

namespace Inv

variable {s : State} {size address : BitVec 64}

/-- No live block is at null. -/
theorem filter_used {s : State} (hne : ∀ b ∈ s.live, b.address ≠ 0) :
    (s.live.map Block.entry).filter EfiAllocationEntry.used = s.live.map Block.entry := by
  rw [List.filter_eq_self]
  intro e he
  obtain ⟨b, hb, rfl⟩ := List.mem_map.mp he
  exact bne_iff_ne.mpr (hne b hb)

theorem tracked (h : Inv s) : Tracked s := by
  rw [Tracked, filter_used h.ne_null]
  exact h.entries_perm

theorem of_tracked (h : Tracked s) (hnodup : (s.live.map Block.address).Nodup)
    (hne : ∀ b ∈ s.live, b.address ≠ 0) (hsize : ∀ b ∈ s.live, b.size.toNat ≤ 2 ^ 64 - 4096) :
    Inv s where
  entries_perm := by
    rw [← filter_used hne]
    exact h
  nodup := hnodup
  ne_null := hne
  size_le := hsize

theorem initial : Inv State.initial :=
  of_tracked Tracked.initial List.nodup_nil (fun _ hb ↦ absurd hb List.not_mem_nil)
    fun _ hb ↦ absurd hb List.not_mem_nil

theorem eq_of_address (h : Inv s) {b c : Block} (hb : b ∈ s.live) (hc : c ∈ s.live)
    (heq : b.address = c.address) : b = c := List.inj_on_of_nodup_map h.nodup hb hc heq

/-- A free entry is left exactly when fewer than 4096 blocks are live. -/
theorem freeEntry_eq_none_iff (h : Inv s) :
    freeEntry s.table = none ↔ s.live.length = allocationsMax := by
  have hlength := h.entries_perm.length_eq
  rw [List.length_map] at hlength
  rw [freeEntry, firstFree_eq_none_iff, ← hlength]

theorem filter_address_perm (h : Inv s) {b : Block} (hb : b ∈ s.live) :
    (s.live.filter fun c ↦ c.entry.hasAddress b.address).Perm [b] := by
  have hnodup : s.live.Nodup := List.Nodup.of_map Block.address h.nodup
  rw [List.perm_ext_iff_of_nodup (hnodup.filter _) (List.nodup_singleton b)]
  intro c
  rw [List.mem_filter, List.mem_singleton, EfiAllocationEntry.hasAddress, beq_iff_eq]
  constructor
  · rintro ⟨hc, heq⟩
    exact h.eq_of_address hc hb heq
  · rintro rfl
    exact ⟨hb, rfl⟩

/-- Deallocating a live block frees it, and nothing else. -/
theorem calls_eq (h : Inv s) {b : Block} (hb : b ∈ s.live) :
    (efiDeallocate s.table b.address).2 = [b.entry] := by
  rw [calls_efiDeallocate (h.ne_null b hb), ← List.perm_singleton]
  refine (h.entries_perm.filter _).trans ?_
  rw [List.filter_map]
  exact (h.filter_address_perm hb).map Block.entry

theorem allocate (h : Inv s) {answer : Option (BitVec 64)}
    (hlegal : s.Legal (.allocate size answer)) : Inv (s.step (.allocate size answer)) := by
  have htracked := h.tracked.allocate size answer
  rcases s.live_allocate size answer with hlive | ⟨address, rfl, hlive⟩
  · apply of_tracked htracked
    · rw [hlive]
      exact h.nodup
    · rw [hlive]
      exact h.ne_null
    · rw [hlive]
      exact h.size_le
  · obtain ⟨hne, hdisjoint⟩ := hlegal.2 address rfl
    apply of_tracked htracked
    · rw [hlive, List.map_cons, List.nodup_cons]
      refine ⟨fun hmem ↦ ?_, h.nodup⟩
      obtain ⟨c, hc, heq⟩ := List.mem_map.mp hmem
      exact (hdisjoint c hc).address_ne heq.symm
    · rw [hlive]
      exact List.forall_mem_cons.mpr ⟨hne, h.ne_null⟩
    · rw [hlive]
      exact List.forall_mem_cons.mpr ⟨hlegal.1, h.size_le⟩

theorem deallocate (h : Inv s) (address : BitVec 64) : Inv (s.step (.deallocate address)) := by
  have hsub : (s.step (.deallocate address)).live.Sublist s.live := List.filter_sublist
  exact of_tracked (h.tracked.deallocate address) (h.nodup.sublist (hsub.map Block.address))
    (fun b hb ↦ h.ne_null b (hsub.mem hb)) fun b hb ↦ h.size_le b (hsub.mem hb)

/-- A live block is in one entry. -/
theorem existsUnique_entry (h : Inv s) {b : Block} (hb : b ∈ s.live) :
    ∃! i, i < allocationsMax ∧ (s.table i).address = b.address := by
  have hmem : b.entry ∈ entries s.table :=
    h.entries_perm.mem_iff.mpr (List.mem_map_of_mem hb)
  have hnodup : ((entries s.table).map EfiAllocationEntry.address).Nodup := by
    rw [(h.entries_perm.map _).nodup_iff, List.map_map]
    exact h.nodup
  have hused {j : Nat} (hj : (s.table j).address = b.address) : (s.table j).used = true :=
    EfiAllocationEntry.used_of_hasAddress (h.ne_null b hb) (beq_iff_eq.mpr hj)
  obtain ⟨i, hi, hentry, -⟩ := mem_occupied.mp hmem
  have haddress : (s.table i).address = b.address := by rw [hentry, Block.entry]
  refine ⟨i, ⟨hi, haddress⟩, ?_⟩
  rintro j ⟨hj, hj'⟩
  exact eq_of_key hnodup hj hi (hused hj') (hused haddress) (hj'.trans haddress.symm)

/-- `efi_allocate` returns null when the firmware refuses or no entry is free. -/
theorem efiAllocate_eq_null_iff (h : Inv s) {answer : Option (BitVec 64)}
    (hlegal : s.Legal (.allocate size answer)) :
    (efiAllocate s.table size answer).2 = 0 ↔
      answer = none ∨ s.live.length = allocationsMax := by
  rw [← h.freeEntry_eq_none_iff]
  cases hfree : freeEntry s.table with
  | none => rw [efiAllocate_full hfree]; simp
  | some i =>
      cases answer with
      | none => simp [(efiAllocate_none s.table size).2]
      | some address =>
          obtain ⟨hne, -⟩ := hlegal.2 address rfl
          rw [(efiAllocate_some hfree hne).2]
          exact iff_of_false hne (by simp)

end Inv

theorem Reachable.inv {s : State} (h : Reachable s) : Inv s := by
  induction h with
  | initial => exact Inv.initial
  | @step s call _ hcall ih =>
      cases call with
      | allocate size answer => exact ih.allocate hcall
      | deallocate address => exact ih.deallocate address

/-- In every state that a run reaches: the entries in use are the live blocks, each in one
entry, with the pages of its request; deallocating one makes one call, with the block's
address and pages; and a request gets null exactly when it is refused or 4096 blocks are
live. -/
theorem bookkeeping {s : State} (h : Reachable s) :
    (∀ i < allocationsMax, (s.table i).address ≠ 0 →
      ∃ b ∈ s.live, b.DescribedBy (s.table i)) ∧
    (∀ b ∈ s.live, ∃! i, i < allocationsMax ∧ (s.table i).address = b.address) ∧
    (∀ b ∈ s.live, ∃ e, (efiDeallocate s.table b.address).2 = [e] ∧ b.DescribedBy e) ∧
    ∀ size answer, s.Legal (.allocate size answer) →
      ((efiAllocate s.table size answer).2 = 0 ↔
        answer = none ∨ s.live.length = allocationsMax) := by
  have hinv := h.inv
  refine ⟨?_, ?_, ?_, ?_⟩
  · intro i hi hused
    obtain ⟨b, hb, hentry⟩ := hinv.tracked.block_of_used hi hused
    refine ⟨b, hb, ?_⟩
    rw [← hentry]
    exact Block.entry_describes (hinv.size_le b hb)
  · intro b hb
    exact hinv.existsUnique_entry hb
  · intro b hb
    exact ⟨b.entry, hinv.calls_eq hb, Block.entry_describes (hinv.size_le b hb)⟩
  · intro size answer hlegal
    exact hinv.efiAllocate_eq_null_iff hlegal

/-- The state after one request of 5000 bytes. -/
def oneBlock : State := State.initial.step (.allocate 5000 (some 0x100000))

theorem reachable_oneBlock : Reachable oneBlock := by
  refine Reachable.initial.step ⟨by decide, ?_⟩
  rintro address hanswer
  obtain rfl := Option.some.inj hanswer
  exact ⟨by decide, fun b hb ↦ absurd hb List.not_mem_nil⟩

theorem live_oneBlock : oneBlock.live = [⟨0x100000, 5000⟩] := by
  have hsome : (freeEntry State.initial.table).isSome = true := by
    rw [← Option.ne_none_iff_isSome]
    intro hnone
    rw [Inv.initial.freeEntry_eq_none_iff] at hnone
    unfold allocationsMax at hnone
    exact absurd hnone (by decide)
  rw [oneBlock, State.step]
  simp only [hsome]
  rfl

/-- Freeing the block frees two pages. -/
theorem bookkeeping_oneBlock :
    ∃ e, (efiDeallocate oneBlock.table 0x100000).2 = [e] ∧ e.address = 0x100000 ∧
      e.pages.toNat = 2 := by
  obtain ⟨-, -, hfreed, -⟩ := bookkeeping reachable_oneBlock
  obtain ⟨e, hcalls, hentry⟩ := hfreed ⟨0x100000, 5000⟩ (by rw [live_oneBlock]; simp)
  exact ⟨e, hcalls, hentry.address, hentry.pages⟩

end Hypervi.Loader
