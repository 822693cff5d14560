import Hypervi.Ept.Footprint
import Hypervi.Ept.Walk

/-!
# When `ldr_malloc` fails in `ept_init_core`

`imp_malloc` logs a failure and returns null, and `ept_init_core` goes on with
that: it clears and fills page 0, and publishes frame 0 as a table.
`failsSafe_iff` says that the function is safe exactly when none of its calls
fails.

A write is seen by what it does to memory.  A byte that is written ends up the
same whatever it held (`mem_eptInitCore_eq`), so there are contents of memory for
which it changes.
-/

namespace Hypervi.Ept

open Bits Ia32 Memory Mtrr Freestanding

variable {alloc : Nat → BitVec 64} {g : Globals} {n : Nat}

/-- The first `n` calls either fail and return null, or return pages that do not
overlap. -/
structure PagesOrNull (alloc : Nat → BitVec 64) (n : Nat) : Prop where
  aligned : ∀ i < n, 0x1000 ∣ (alloc i).toNat
  lt : ∀ i < n, (alloc i).toNat < 2 ^ 48
  disjoint : ∀ i < n, ∀ j < n, alloc i ≠ 0 → alloc j ≠ 0 → i ≠ j →
    Apart (alloc i) 0x1000 (alloc j) 0x1000

theorem PagesOrNull.pages (h : PagesOrNull alloc n) (hne : ∀ i < n, alloc i ≠ 0) :
    Pages alloc n where
  aligned := h.aligned
  ne_null := hne
  lt := h.lt
  disjoint i hi j hj hij := h.disjoint i hi j hj (hne i hi) (hne j hj) hij

/-! ## What must not happen -/

/-- An entry allows some access, which makes it present. -/
def present (e : BitVec 64) : Bool :=
  readAccess.test e || writeAccess.test e || executeAccess.test e

/-- An entry is present and refers to the table in frame 0. -/
def NullTable (e : BitVec 64) : Prop := present e = true ∧ pageFrameNumber.get e = 0

/-- Neither `structs.ptr` nor an entry of the upper three levels refers to a table
in frame 0. -/
structure NoNullTables (alloc : Nat → BitVec 64) (s : EptState) : Prop where
  ptr : EptPointer.pageFrameNumber.get s.ptr ≠ 0
  pml4 : ∀ k < 512, ¬ NullTable (entry s.mem (alloc 0) k)
  pdpt : ∀ k < 512, ¬ NullTable (entry s.mem (alloc 1) k)
  directory : ∀ i < 512, ∀ k < 512, largePage.test (entry s.mem (alloc (s.pd i)) k) = false →
    ¬ NullTable (entry s.mem (alloc (s.pd i)) k)

/-- Whatever memory held before, page 0 is not written and frame 0 is not made a
table. -/
def FailsSafe (alloc : Nat → BitVec 64) (g : Globals) : Prop :=
  ∀ mem : Mem, (∀ x, InPage 0 x → (eptInitCore alloc g mem).mem x = mem x) ∧
    NoNullTables alloc (eptInitCore alloc g mem)

/-! ## Without failures -/

theorem not_nullTable_zero : ¬ NullTable 0 := fun h ↦ absurd h.1 (by decide)

theorem not_nullTable_tableEntry {page : BitVec 64} (hd : 0x1000 ∣ page.toNat)
    (hlt : page.toNat < 2 ^ 48) (hne : page ≠ 0) : ¬ NullTable (tableEntry page) := by
  rintro ⟨-, hnull⟩
  have h := tableOf_tableEntry hd hlt
  rw [tableOf, hnull] at h
  exact hne (h.symm.trans (by decide))

/-- No byte of page 0 is in a page above it. -/
theorem not_inPage_of_inPage_zero {x : BitVec 64} (hp : Pages alloc n) (hx : InPage 0 x) {c : Nat}
    (hc : c < n) : ¬ InPage (alloc c) x := by
  have hlt := hp.lt c hc
  have hpage := hp.le_toNat hc
  have hx0 : x.toNat < 0x1000 := by simpa [InPage] using hx
  unfold InPage
  rw [BitVec.toNat_sub]
  omega

theorem noNullTables_eptInitCore (mem : Mem) (hp : Pages alloc (eptInitCore alloc g mem).calls) :
    NoNullTables alloc (eptInitCore alloc g mem) := by
  have hb := built_eptInitCore (g := g) mem hp
  have h0 := Nat.lt_of_lt_of_le Nat.two_pos hb.calls
  have htable {c : Nat} (hc : c < (eptInitCore alloc g mem).calls) :
      ¬ NullTable (tableEntry (alloc c)) :=
    not_nullTable_tableEntry (hp.aligned c hc) (hp.lt c hc) (hp.ne_null c hc)
  refine ⟨fun hnull ↦ ?_, fun k hk ↦ ?_, fun k hk ↦ ?_, fun i hi k hk hsmall ↦ ?_⟩
  · have h := tableOf_eptPointer (hp.aligned 0 h0) (hp.lt 0 h0)
    rw [← hb.ptr, hnull] at h
    exact hp.ne_null 0 h0 (h.symm.trans (by decide))
  · by_cases hk0 : k = 0
    · subst hk0
      rw [hb.pml4]
      exact htable hb.calls
    · rw [entry_pml4_eptInitCore mem hp hk hk0]
      exact not_nullTable_zero
  · rw [(hb.pdpt k hk).link]
    exact htable (hb.pdpt k hk).allocated
  · have hpde := (hb.pdpt i hi).directory k hk
    by_cases hs : Split g i k
    · rw [hpde.split hs]
      exact htable (hpde.allocated hs)
    · rw [hpde.large hs, largePage_largeEntry] at hsmall
      cases hsmall

/-! ## With a failure -/

/-- A call that fails makes `ept_init_core` write page 0. -/
theorem not_failsSafe_of_null {c : Nat} (hc : c < callsOf g) (hnull : alloc c = 0) :
    ¬ FailsSafe alloc g := by
  intro h
  have hx : InPage 0 0 := by simp [InPage]
  have hkept (mem : Mem) : (eptInitCore alloc g mem).mem 0 = mem 0 := (h mem).1 0 hx
  have hsame := mem_eptInitCore_eq (g := g) hc (hnull ▸ hx : InPage (alloc c) 0)
    (fun _ ↦ 0) (fun _ ↦ 1)
  rw [hkept, hkept] at hsame
  exact absurd hsame (by decide)

/-- `ept_init_core` leaves page 0 and frame 0 alone exactly when each of its calls of
`ldr_malloc` succeeds. -/
theorem failsSafe_iff (g : Globals) (alloc : Nat → BitVec 64)
    (hp : PagesOrNull alloc (callsOf g)) :
    FailsSafe alloc g ↔ ∀ c < callsOf g, alloc c ≠ 0 := by
  constructor
  · exact fun h c hc hnull ↦ not_failsSafe_of_null hc hnull h
  · intro hne mem
    have hp' := hp.pages hne
    constructor
    · intro x hx
      exact mem_eptInitCore_of_not_inPage (fun c hc ↦ not_inPage_of_inPage_zero hp' hx hc) mem
    · exact noNullTables_eptInitCore mem (by rwa [calls_eptInitCore])

/-! ## Concrete allocators -/

theorem callsOf_lt (g : Globals) : callsOf g < 2 ^ 35 := by
  have h : (eptInitCore consecutivePages g fun _ ↦ 0).calls ≤ 2 + 512 * (1 + 512) :=
    calls_eptInitCore_le _
  rw [calls_eptInitCore] at h
  omega

theorem pagesOrNull_of_pages (h : Pages alloc n) : PagesOrNull alloc n where
  aligned := h.aligned
  lt := h.lt
  disjoint i hi j hj _ _ hij := h.disjoint i hi j hj hij

/-- With an allocator that never fails. -/
theorem failsSafe_consecutivePages :
    FailsSafe consecutivePages (eptInitMtrr (fun _ ↦ 0) writeBackOnly) :=
  (failsSafe_iff (eptInitMtrr (fun _ ↦ 0) writeBackOnly) consecutivePages
    (pagesOrNull_of_pages (pages_consecutivePages (callsOf_lt _)))).mpr
    (pages_consecutivePages (callsOf_lt _)).ne_null

/-- The allocator whose second call, the one for the PDPT, fails. -/
def secondCallFails (c : Nat) : BitVec 64 := if c = 1 then 0 else consecutivePages c

theorem not_failsSafe_secondCallFails :
    ¬ FailsSafe secondCallFails (eptInitMtrr (fun _ ↦ 0) writeBackOnly) :=
  not_failsSafe_of_null (one_lt_callsOf _) rfl

end Hypervi.Ept
