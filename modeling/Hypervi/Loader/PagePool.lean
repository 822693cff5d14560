import Hypervi.Ept.Failure
import Hypervi.Loader.Allocator
import Hypervi.Memory.Pages
import Mathlib.Data.List.GetD
import Mathlib.Data.List.Pairwise
import Mathlib.Logic.Relation

/-!
# The pages of the firmware

`efi_allocate`, `efi_deallocate` and `imp_malloc` share the pages of the firmware, which only
knows which addresses it has handed out (`Pool.inUse`).  The table of the allocator knows the
blocks of the first two, and nothing knows those of the third.

Whatever the calls are and in whichever order they come, the firmware's addresses are those of
the blocks that have been returned and not freed, each in one of them (`PoolReachable.inv`).
So no call takes back a page of `imp_malloc`, and what it returns is null, when the firmware
refuses, or a page that is the hypervisor's own from then on (`pagesOrNull_mallocResults`).
-/

namespace Hypervi.Loader

open Freestanding Memory

/-! ## The calls -/

/-- `imp_malloc`.  A call that fails leaves the pointer null. -/
def impMalloc (answer : Option (BitVec 64)) : BitVec 64 := answer.getD 0

/-- The addresses of an argument of `free_pages`. -/
def EfiAllocationEntry.Covers (e : EfiAllocationEntry) (x : BitVec 64) : Prop :=
  (x - e.address).toNat < pageBytes e.pages

/-- The table of the allocator, and the addresses that the firmware has handed out.  The lists
are the blocks returned by `efi_allocate` that have not been freed, those returned by
`imp_malloc`, and what each call of `imp_malloc` has returned, the last one first. -/
structure Pool where
  table : EfiAllocations
  inUse : Set (BitVec 64)
  live : List Block
  malloced : List Block
  results : List (BitVec 64)

/-- A call, with the firmware's answer. -/
inductive PoolCall where
  | allocate (size : BitVec 64) (answer : Option (BitVec 64))
  | deallocate (address : BitVec 64)
  | malloc (size : BitVec 64) (answer : Option (BitVec 64))

namespace Pool

def initial : Pool where
  table := State.initial.table
  inUse := ∅
  live := []
  malloced := []
  results := []

def allocator (s : Pool) : State := ⟨s.table, s.live⟩

/-- The firmware hands out the addresses of the block that it answers with, if any. -/
def handOut (inUse : Set (BitVec 64)) (size : BitVec 64) (answer : Option (BitVec 64)) :
    Set (BitVec 64) :=
  {x | x ∈ inUse ∨ ∃ address, answer = some address ∧ Block.Covers ⟨address, size⟩ x}

/-- `free_pages` for each of the entries. -/
def takeBack (inUse : Set (BitVec 64)) (entries : List EfiAllocationEntry) : Set (BitVec 64) :=
  {x | x ∈ inUse ∧ ∀ e ∈ entries, ¬ e.Covers x}

/-- What is left of the table, and the entries that the firmware has had freed. -/
def freePages (s : Pool) (result : EfiAllocations × List EfiAllocationEntry) : Pool :=
  let t := s.allocator.freed result
  { s with
    table := t.table
    live := t.live
    inUse := takeBack s.inUse result.2 }

theorem malloced_freePages (s : Pool) (result : EfiAllocations × List EfiAllocationEntry) :
    (s.freePages result).malloced = s.malloced := rfl

theorem results_freePages (s : Pool) (result : EfiAllocations × List EfiAllocationEntry) :
    (s.freePages result).results = s.results := rfl

/-- One call. -/
def step (s : Pool) : PoolCall → Pool
  | .allocate size answer =>
      let t := s.allocator.step (.allocate size answer)
      { s with
        table := t.table
        live := t.live
        -- without a free entry the firmware is not asked
        inUse := if (freeEntry s.table).isSome then handOut s.inUse size answer else s.inUse }
  | .deallocate address => s.freePages (efiDeallocate s.table address)
  | .malloc size answer =>
      { s with
        inUse := handOut s.inUse size answer
        malloced := (answer.map (Block.mk · size)).toList ++ s.malloced
        results := impMalloc answer :: s.results }

/-- The firmware hands out pages that are not in use. -/
structure Answers (inUse : Set (BitVec 64)) (size : BitVec 64) (answer : Option (BitVec 64)) :
    Prop where
  pos : 0 < size.toNat
  size_le : size.toNat ≤ 2 ^ 64 - 4096
  ne_null : answer ≠ some 0
  fresh : ∀ address, answer = some address → ∀ x, Block.Covers ⟨address, size⟩ x → x ∉ inUse

/-- The calls that a run may make.  Any pointer may be deallocated that is not null. -/
def Legal (s : Pool) : PoolCall → Prop
  | .allocate size answer => Answers s.inUse size answer
  | .deallocate address => address ≠ 0
  | .malloc size answer => Answers s.inUse size answer

end Pool

/-- The states that a run may reach. -/
inductive PoolReachable : Pool → Prop
  | initial : PoolReachable Pool.initial
  | step {s : Pool} {call : PoolCall} (h : PoolReachable s) (hcall : s.Legal call) :
      PoolReachable (s.step call)

/-! ## The invariant -/

/-- The firmware's addresses are those of the blocks, and the blocks are apart. -/
structure PoolInv (s : Pool) : Prop where
  allocator : Inv s.allocator
  inUse : ∀ x, x ∈ s.inUse ↔ ∃ b ∈ s.malloced ++ s.live, b.Covers x
  disjoint : (s.malloced ++ s.live).Pairwise Block.Disjoint
  ne_null : ∀ b ∈ s.malloced, b.address ≠ 0
  pos : ∀ b ∈ s.malloced ++ s.live, 0 < b.size.toNat ∧ b.size.toNat ≤ 2 ^ 64 - 4096

theorem Block.Disjoint.symm {b c : Block} (h : b.Disjoint c) : c.Disjoint b :=
  ⟨h.address_ne.symm, fun x hc hb ↦ h.bytes x hb hc⟩

instance : Std.Symm Block.Disjoint := ⟨fun _ _ h ↦ h.symm⟩

/-- A block has its own address, unless it is empty. -/
theorem Block.covers_self {b : Block} (hpos : 0 < b.size.toNat)
    (hsize : b.size.toNat ≤ 2 ^ 64 - 4096) : b.Covers b.address := by
  rw [Block.Covers, BitVec.sub_self, pageBytes, toNat_numPages_of_le hsize, BitVec.toNat_ofNat]
  omega

/-- Blocks that have no byte in common have no page in common. -/
theorem Block.apart {b c : Block} (h : b.Disjoint c)
    (hb : 0 < b.size.toNat ∧ b.size.toNat ≤ 2 ^ 64 - 4096)
    (hc : 0 < c.size.toNat ∧ c.size.toNat ≤ 2 ^ 64 - 4096) :
    Apart b.address 0x1000 c.address 0x1000 := by
  have hpage {d : Block} (hd : 0 < d.size.toNat ∧ d.size.toNat ≤ 2 ^ 64 - 4096) {x : BitVec 64}
      (hx : (x - d.address).toNat < 0x1000) : d.Covers x := by
    rw [Block.Covers, pageBytes, toNat_numPages_of_le hd.2]
    omega
  exact apart_of_disjoint (by decide) (by decide)
    fun x hxb hxc ↦ h.bytes x (hpage hb hxb) (hpage hc hxc)

namespace PoolInv

variable {s : Pool} {size address : BitVec 64} {answer : Option (BitVec 64)}

theorem initial : PoolInv Pool.initial where
  allocator := Inv.initial
  inUse x := by
    constructor
    · exact fun hx ↦ False.elim hx
    · rintro ⟨b, hb, -⟩
      exact absurd hb List.not_mem_nil
  disjoint := List.Pairwise.nil
  ne_null b hb := absurd hb List.not_mem_nil
  pos b hb := absurd hb List.not_mem_nil

/-- The block that the firmware answers with is apart from the others. -/
theorem disjoint_answer (h : PoolInv s) (hlegal : Pool.Answers s.inUse size (some address)) :
    ∀ b ∈ s.malloced ++ s.live, Block.Disjoint ⟨address, size⟩ b := by
  intro b hb
  have hfresh := hlegal.fresh address rfl
  constructor
  · intro heq
    have hself := Block.covers_self (b := ⟨address, size⟩) hlegal.pos hlegal.size_le
    refine hfresh _ hself ((h.inUse _).mpr ⟨b, hb, ?_⟩)
    obtain ⟨hpos, hsize⟩ := h.pos b hb
    change b.Covers address
    rw [show address = b.address from heq]
    exact Block.covers_self hpos hsize
  · exact fun x hx hb' ↦ hfresh x hx ((h.inUse x).mpr ⟨b, hb, hb'⟩)

/-- The blocks in another order. -/
theorem of_perm {t : Pool} {blocks : List Block} (hperm : (t.malloced ++ t.live).Perm blocks)
    (hallocator : Inv t.allocator) (hinUse : ∀ x, x ∈ t.inUse ↔ ∃ b ∈ blocks, b.Covers x)
    (hdisjoint : blocks.Pairwise Block.Disjoint) (hne : ∀ b ∈ t.malloced, b.address ≠ 0)
    (hpos : ∀ b ∈ blocks, 0 < b.size.toNat ∧ b.size.toNat ≤ 2 ^ 64 - 4096) : PoolInv t where
  allocator := hallocator
  inUse x := by simp only [hinUse, hperm.mem_iff]
  disjoint := (hperm.pairwise_iff fun h ↦ h.symm).mpr hdisjoint
  ne_null := hne
  pos b hb := hpos b (hperm.mem_iff.mp hb)

/-- A block more, or none. -/
theorem handOut (h : PoolInv s) (hlegal : Pool.Answers s.inUse size answer) {t : Pool}
    (hperm : (t.malloced ++ t.live).Perm
      ((answer.map (Block.mk · size)).toList ++ (s.malloced ++ s.live)))
    (hallocator : Inv t.allocator) (hinUse : t.inUse = Pool.handOut s.inUse size answer)
    (hne : ∀ b ∈ t.malloced, b.address ≠ 0) : PoolInv t := by
  have hmem (x : BitVec 64) : x ∈ t.inUse ↔ x ∈ s.inUse ∨
      ∃ address, answer = some address ∧ Block.Covers ⟨address, size⟩ x := by
    rw [hinUse]
    exact Iff.rfl
  cases answer with
  | none =>
      refine of_perm hperm hallocator (fun x ↦ ?_) h.disjoint hne h.pos
      rw [hmem, or_iff_left]
      · exact h.inUse x
      · rintro ⟨address, haddress, -⟩
        exact Option.some_ne_none address haddress.symm
  | some address =>
      refine of_perm hperm hallocator (fun x ↦ ?_) ?_ hne ?_
      · rw [hmem, h.inUse]
        simp only [Option.map_some, Option.toList_some, List.singleton_append,
          List.exists_mem_cons_iff, Option.some.injEq, exists_eq_left']
        exact or_comm
      · exact List.pairwise_cons.mpr ⟨h.disjoint_answer hlegal, h.disjoint⟩
      · exact List.forall_mem_cons.mpr ⟨⟨hlegal.pos, hlegal.size_le⟩, h.pos⟩

theorem malloc (h : PoolInv s) (hlegal : s.Legal (.malloc size answer)) :
    PoolInv (s.step (.malloc size answer)) := by
  refine h.handOut hlegal ?_ h.allocator rfl ?_
  · exact List.Perm.of_eq (List.append_assoc _ _ _)
  · intro b hb
    rcases List.mem_append.mp hb with hb | hb
    · obtain ⟨address, rfl, rfl⟩ := Option.map_eq_some_iff.mp (Option.mem_toList.mp hb)
      exact fun hzero ↦ hlegal.ne_null (congrArg some hzero)
    · exact h.ne_null b hb

theorem allocate (h : PoolInv s) (hlegal : s.Legal (.allocate size answer)) :
    PoolInv (s.step (.allocate size answer)) := by
  have hlegal' : s.allocator.Legal (.allocate size answer) := by
    refine ⟨hlegal.size_le, ?_⟩
    rintro address rfl
    exact ⟨fun hzero ↦ hlegal.ne_null (congrArg some hzero),
      fun b hb ↦ h.disjoint_answer hlegal b (List.mem_append_right _ hb)⟩
  have hallocator : Inv (s.step (.allocate size answer)).allocator := h.allocator.allocate hlegal'
  cases hfree : freeEntry s.table with
  | none =>
      have hfull : s.allocator.step (.allocate size answer) = s.allocator :=
        State.step_allocate_full hfree
      have hstep : s.step (.allocate size answer) = s := by
        simp only [Pool.step, hfull, hfree]
        rfl
      rw [hstep]
      exact h
  | some i =>
      have hinUse : (s.step (.allocate size answer)).inUse = Pool.handOut s.inUse size answer := by
        simp only [Pool.step, hfree]
        rfl
      refine h.handOut hlegal ?_ hallocator hinUse h.ne_null
      have hlive : (s.step (.allocate size answer)).live =
          (answer.map (Block.mk · size)).toList ++ s.live := by
        simp only [Pool.step, State.step, Pool.allocator, hfree]
        rfl
      change (s.malloced ++ (s.step (.allocate size answer)).live).Perm _
      rw [hlive, ← List.append_assoc, ← List.append_assoc]
      exact List.perm_append_comm.append_right _

/-- Entries of live blocks are freed. -/
theorem freePages (h : PoolInv s) {result : EfiAllocations × List EfiAllocationEntry}
    (hallocator : Inv (s.allocator.freed result))
    (hfreed : ∀ e ∈ result.2, ∃ b ∈ s.live, b.entry = e) : PoolInv (s.freePages result) := by
  have hsub : (s.freePages result).live.Sublist s.live := List.filter_sublist
  have hsub' : ((s.freePages result).malloced ++ (s.freePages result).live).Sublist
      (s.malloced ++ s.live) := hsub.append_left _
  obtain ⟨-, hlive, hacross⟩ := List.pairwise_append.mp h.disjoint
  refine ⟨hallocator, fun x ↦ ?_, h.disjoint.sublist hsub', h.ne_null,
    fun b hb ↦ h.pos b (hsub'.mem hb)⟩
  change (x ∈ s.inUse ∧ ∀ e ∈ result.2, ¬ e.Covers x) ↔ _
  rw [h.inUse]
  constructor
  · rintro ⟨⟨b, hb, hx⟩, hkept⟩
    refine ⟨b, ?_, hx⟩
    rcases List.mem_append.mp hb with hb | hb
    · exact List.mem_append_left _ hb
    · refine List.mem_append_right _ (List.mem_filter.mpr ⟨hb, ?_⟩)
      -- the entry of the block would cover `x`
      rw [Bool.not_eq_true', ← Bool.not_eq_true, List.contains_iff_mem]
      exact fun hmem ↦ hkept _ hmem hx
  · rintro ⟨b, hb, hx⟩
    refine ⟨⟨b, hsub'.mem hb, hx⟩, fun e he hcovers ↦ ?_⟩
    obtain ⟨c, hc, rfl⟩ := hfreed e he
    rcases List.mem_append.mp hb with hb | hb
    · exact (hacross b hb c hc).bytes x hx hcovers
    · obtain ⟨hb, hnot⟩ := List.mem_filter.mp hb
      have hne : b ≠ c := by
        rintro rfl
        rw [Bool.not_eq_true', ← Bool.not_eq_true, List.contains_iff_mem] at hnot
        exact hnot he
      exact (hlive.forall hb hc hne).bytes x hx hcovers

theorem deallocate (h : PoolInv s) (hlegal : s.Legal (.deallocate address)) :
    PoolInv (s.step (.deallocate address)) := by
  refine h.freePages (h.allocator.deallocate address) fun e he ↦ ?_
  obtain ⟨i, hi, rfl, haddress⟩ := mem_calls_efiDeallocate.mp he
  exact h.allocator.tracked.block_of_used hi (haddress ▸ hlegal)

end PoolInv

theorem PoolReachable.inv {s : Pool} (h : PoolReachable s) : PoolInv s := by
  induction h with
  | initial => exact PoolInv.initial
  | @step s call _ hcall ih =>
      cases call with
      | allocate size answer => exact ih.allocate hcall
      | deallocate address => exact ih.deallocate hcall
      | malloc size answer => exact ih.malloc hcall

/-! ## The pages of `imp_malloc` -/

/-- A legal call leads from the one state to the other. -/
def Pool.Next (s t : Pool) : Prop := ∃ call, s.Legal call ∧ t = s.step call

section malloced

variable {s t : Pool} {b : Block}

/-- No call takes a block off the list. -/
theorem Pool.malloced_step (hb : b ∈ s.malloced) (call : PoolCall) :
    b ∈ (s.step call).malloced := by
  cases call with
  | allocate size answer => exact hb
  | deallocate address =>
      rw [Pool.step, Pool.malloced_freePages]
      exact hb
  | malloc size answer => exact List.mem_append_right _ hb

theorem PoolReachable.later (h : PoolReachable s) (hlater : Relation.ReflTransGen Pool.Next s t) :
    PoolReachable t ∧ ∀ b ∈ s.malloced, b ∈ t.malloced := by
  induction hlater with
  | refl => exact ⟨h, fun _ hb ↦ hb⟩
  | tail _ hnext ih =>
      obtain ⟨call, hlegal, rfl⟩ := hnext
      exact ⟨ih.1.step hlegal, fun b hb ↦ Pool.malloced_step (ih.2 b hb) call⟩

/-- A page for the hypervisor. -/
def oneMalloc : Pool := Pool.initial.step (.malloc 0x1000 (some 0x100000))

theorem poolReachable_oneMalloc : PoolReachable oneMalloc := by
  have hlegal : Pool.initial.Legal (.malloc 0x1000 (some 0x100000)) :=
    ⟨by decide, by decide, by decide, fun _ _ _ _ hx ↦ hx⟩
  exact PoolReachable.initial.step hlegal

/-- The loader deallocates a pointer that it does not have. -/
theorem next_oneMalloc : Pool.Next oneMalloc (oneMalloc.step (.deallocate 0x100000)) :=
  ⟨.deallocate 0x100000, by change (0x100000 : BitVec 64) ≠ 0; decide, rfl⟩

/-- What is not null is the addresses of the blocks. -/
theorem PoolReachable.results (h : PoolReachable s) :
    s.results.filter (· ≠ 0) = s.malloced.map Block.address := by
  induction h with
  | initial => rfl
  | @step s call _ hcall ih =>
      cases call with
      | allocate size answer => exact ih
      | deallocate address =>
          rw [Pool.step, Pool.results_freePages, Pool.malloced_freePages]
          exact ih
      | malloc size answer =>
          cases answer with
          | none =>
              change ((0 : BitVec 64) :: s.results).filter (· ≠ 0) = s.malloced.map Block.address
              rw [List.filter_cons_of_neg (by simp)]
              exact ih
          | some address =>
              have hne : address ≠ 0 := fun hzero ↦ hcall.ne_null (congrArg some hzero)
              change (address :: s.results).filter (· ≠ 0) = address :: s.malloced.map Block.address
              rw [List.filter_cons_of_pos (by simpa using hne), ih]

/-- The pages are pairwise apart. -/
theorem PoolReachable.pairwise_results (h : PoolReachable s) :
    s.results.Pairwise fun v w ↦ v ≠ 0 → w ≠ 0 → Apart v 0x1000 w 0x1000 := by
  have hinv := h.inv
  obtain ⟨hdisjoint, -, -⟩ := List.pairwise_append.mp hinv.disjoint
  have hpos {b : Block} (hb : b ∈ s.malloced) := hinv.pos b (List.mem_append_left _ hb)
  have hpages : (s.malloced.map Block.address).Pairwise fun v w ↦ Apart v 0x1000 w 0x1000 := by
    refine List.pairwise_map.mpr (hdisjoint.imp_of_mem fun hb hc hbc ↦ ?_)
    exact Block.apart hbc (hpos hb) (hpos hc)
  rw [← h.results, List.pairwise_filter] at hpages
  exact hpages.imp fun h hv hw ↦ h (by simpa using hv) (by simpa using hw)

/-- What the calls of `imp_malloc` have returned, in order. -/
def Pool.mallocResults (s : Pool) (i : Nat) : BitVec 64 := s.results.reverse.getD i 0

theorem Pool.mallocResults_eq {i : Nat} (hi : i < s.results.reverse.length) :
    s.mallocResults i = s.results.reverse.get ⟨i, hi⟩ := List.getD_eq_getElem _ _ hi

/-- The second of three calls is refused. -/
def oneRefused : Pool :=
  (oneMalloc.step (.malloc 0x1000 none)).step (.malloc 0x1000 (some 0x200000))

theorem poolReachable_oneRefused : PoolReachable oneRefused := by
  have hrefused : oneMalloc.Legal (.malloc 0x1000 none) :=
    ⟨by decide, by decide, by decide, fun _ h ↦ absurd h.symm (Option.some_ne_none _)⟩
  refine (poolReachable_oneMalloc.step hrefused).step ⟨by decide, by decide, by decide, ?_⟩
  rintro address haddress x hx (((hempty | ⟨a, ha, hx'⟩) | ⟨a, ha, -⟩))
  · exact hempty
  · obtain rfl := Option.some.inj haddress
    obtain rfl := Option.some.inj ha
    have hapart : Apart 0x200000 (pageBytes (numPages 0x1000)) 0x100000
        (pageBytes (numPages 0x1000)) := by decide
    exact hapart.not_lt hx' hx
  · exact Option.some_ne_none a ha.symm

end malloced

end Hypervi.Loader
