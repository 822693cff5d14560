import Hypervi.Ept.Model

/-!
# The tables `ept_init_core` builds

`Built` says what memory holds after `ept_init_core`: the PML4 entry, the 512
PDPT entries with a page directory each, and for each PD entry either a large
page or a page table with its 512 entries.  `built_eptInitCore` proves it for
every allocator that returns usable pages.

The proof follows the three loops.  Each iteration is described by what it leaves
`Untouched` and by what it builds: an iteration of the inner loop writes its own
PD entry and pages it allocates (`pdeStep_spec`), an iteration of the outer loop
its own PDPT entry and pages it allocates (`pdptStep_spec`).  What has been built
lies in pages that are older, or in other entries, and therefore stays
(`PdeBuilt.of_untouched`, `PdptBuilt.of_untouched`).
-/

namespace Hypervi.Ept

open Bits Ia32 Memory Mtrr Freestanding

/-! ## The values of entries -/

/-- An entry with the three access bits set. -/
def accessible (e : BitVec 64) : BitVec 64 :=
  executeAccess.set (writeAccess.set (readAccess.set e 1) 1) 1

/-- An entry that refers to the table at `page`. -/
def tableEntry (page : BitVec 64) : BitVec 64 :=
  pageFrameNumber.set (accessible 0) (page >>> 12)

/-- The entry the large-page branch writes. -/
def largeEntry (addr : BitVec 64) (memType : MemoryType) : BitVec 64 :=
  Epde2mb.pageFrameNumber.set
    (leafMemoryType.set (largePage.set (accessible 0) 1) (memType.setWidth 64)) (addr >>> 12)

/-- The entry of a 4 KiB page. -/
def pageEntry (addr : BitVec 64) (memType : MemoryType) : BitVec 64 :=
  pageFrameNumber.set (leafMemoryType.set (accessible 0) (memType.setWidth 64)) (addr >>> 12)

section entries

variable (m : Mem) (e x v page addr : BitVec 64) (t : MemoryType)

/-- Assigning to a field of an entry that has just been written. -/
@[simp] theorem assign_store64 (f : Field) :
    assign f v e (store64 m e x) = store64 m e (f.set x v) := by
  rw [assign, load64, load_store_self (by decide)]
  exact store_store_self 8 m e x _

@[simp] theorem allowAccess_store64 :
    allowAccess e (store64 m e x) = store64 m e (accessible x) := by
  simp [allowAccess, accessible]

theorem writeTableEntry_eq : writeTableEntry e page m = store64 m e (tableEntry page) := by
  simp [writeTableEntry, tableEntry]

/-- The frame number is assigned first here, which makes no difference. -/
theorem writePde_eq : writePde e page m = store64 m e (tableEntry page) := by
  have h : accessible (pageFrameNumber.set 0 (page >>> 12)) = tableEntry page := by
    rw [accessible, tableEntry, accessible, Field.set_comm (f := readAccess) (by decide),
      Field.set_comm (f := writeAccess) (by decide),
      Field.set_comm (f := executeAccess) (by decide)]
  rw [← h]
  simp [writePde]

theorem writePdeBig_eq : writePdeBig e addr t m = store64 m e (largeEntry addr t) := by
  simp [writePdeBig, largeEntry]

theorem writePte_eq : writePte e addr t m = store64 m e (pageEntry addr t) := by
  simp [writePte, pageEntry]

end entries

/-! ## What is built -/

/-- The region of a PD entry is split: it has no single memory type. -/
def Split (g : Globals) (i j : Nat) : Prop :=
  eptGetMemoryType g (addressOf i j 0) 0x200000 = memoryTypeInvalid

instance (g : Globals) (i j : Nat) : Decidable (Split g i j) :=
  inferInstanceAs (Decidable (_ = _))

/-- The `j`-th entry of the page directory for PDPT entry `i` is built: `n` is
the call that returned the directory, `t` the one that returned the page table,
and `hi` the number of calls so far. -/
structure PdeBuilt (alloc : Nat → BitVec 64) (g : Globals) (m : Mem) (hi n i j t : Nat) : Prop where
  large : ¬ Split g i j → entry m (alloc n) j =
    largeEntry (addressOf i j 0) (eptGetMemoryType g (addressOf i j 0) 0x200000)
  split : Split g i j → entry m (alloc n) j = tableEntry (alloc t)
  newer : Split g i j → n < t
  allocated : Split g i j → t < hi
  pages : Split g i j → ∀ k < 512, entry m (alloc t) k =
    pageEntry (addressOf i j k) (eptGetMemoryType g (addressOf i j k) 0x1000)

/-- The `i`-th PDPT entry is built, with its page directory. -/
structure PdptBuilt (alloc : Nat → BitVec 64) (g : Globals) (m : Mem) (hi i n : Nat)
    (t : Nat → Nat) : Prop where
  newer : 1 < n
  allocated : n < hi
  link : entry m (alloc 1) i = tableEntry (alloc n)
  directory : ∀ j < 512, PdeBuilt alloc g m hi n i j (t j)

/-- All four levels are built, and `structs.ptr` refers to them. -/
structure Built (alloc : Nat → BitVec 64) (g : Globals) (s : EptState) : Prop where
  calls : 2 ≤ s.calls
  ptr : s.ptr = eptPointer (alloc 0)
  pml4 : entry s.mem (alloc 0) 0 = tableEntry (alloc 1)
  pdpt : ∀ i < 512, PdptBuilt alloc g s.mem s.calls i (s.pd i) (s.pt i)

section frame

variable {alloc : Nat → BitVec 64} {g : Globals} {m m' : Mem} {hi hi' n i j t : Nat}
  {W : Nat → Nat → Prop}

/-- What is built of a PD entry survives writes elsewhere. -/
theorem PdeBuilt.of_untouched (h : PdeBuilt alloc g m hi n i j t) (hu : Untouched alloc hi W m m')
    (hn : n < hi) (hj : j < 512) (hle : hi ≤ hi') (hW : ¬ W n j) (hWt : ∀ t > n, ∀ k, ¬ W t k) :
    PdeBuilt alloc g m' hi' n i j t where
  large hs := (hu n hn j hj hW).trans (h.large hs)
  split hs := (hu n hn j hj hW).trans (h.split hs)
  newer hs := h.newer hs
  allocated hs := Nat.lt_of_lt_of_le (h.allocated hs) hle
  pages hs k hk := (hu t (h.allocated hs) k hk (hWt t (h.newer hs) k)).trans (h.pages hs k hk)

/-- What is built of a PDPT entry survives writes to other entries of the PDPT
and to new pages. -/
theorem PdptBuilt.of_untouched {t : Nat → Nat} (h : PdptBuilt alloc g m hi i n t)
    (hu : Untouched alloc hi W m m') (hi512 : i < 512) (hle : hi ≤ hi') (hW : ¬ W 1 i)
    (hWt : ∀ t > 1, ∀ k, ¬ W t k) : PdptBuilt alloc g m' hi' i n t where
  newer := h.newer
  allocated := Nat.lt_of_lt_of_le h.allocated hle
  link := (hu 1 (Nat.lt_trans h.newer h.allocated) i hi512 hW).trans h.link
  directory j hj := (h.directory j hj).of_untouched hu h.allocated hj hle (hWt n h.newer j)
    fun t ht ↦ hWt t (Nat.lt_trans h.newer ht)

end frame

/-! ## One PD entry -/

section steps

variable {alloc : Nat → BitVec 64} {g : Globals} {N n i j : Nat} {s : BuildState}

theorem pdeStep_of_not_split (hs : ¬ Split g i j) (pdes : BitVec 64) (s : BuildState) :
    pdeStep alloc g pdes i j s = { s with
      mem := store64 s.mem (entryAt pdes j) (largeEntry (addressOf i j 0)
        (eptGetMemoryType g (addressOf i j 0) 0x200000)) } := by
  rw [← writePdeBig_eq]
  exact if_pos hs

theorem pdeStep_of_split (hs : Split g i j) (pdes : BitVec 64) (s : BuildState) :
    pdeStep alloc g pdes i j s = splitPde alloc g pdes i j s := if_neg (not_not_intro hs)

theorem mem_splitPde (pdes : BitVec 64) :
    (splitPde alloc g pdes i j s).mem =
      forRange 512 (fun k m ↦ store64 m (entryAt (alloc s.calls) k)
        (pageEntry (addressOf i j k) (eptGetMemoryType g (addressOf i j k) 0x1000)))
      (store64 (memset s.mem (alloc s.calls) 0 0x1000) (entryAt pdes j)
        (tableEntry (alloc s.calls))) := by
  rw [← writePde_eq]
  exact forRange_congr fun k _ m ↦ writePte_eq _ _ _ _

/-- The calls of `ldr_malloc` in one iteration. -/
theorem calls_pdeStep (pdes : BitVec 64) :
    (pdeStep alloc g pdes i j s).calls = s.calls + if Split g i j then 1 else 0 := by
  by_cases hs : Split g i j
  · rw [pdeStep_of_split hs, if_pos hs]
    rfl
  · rw [pdeStep_of_not_split hs, if_neg hs]
    rfl

/-- What one iteration of the inner loop does. -/
structure PdeStep (alloc : Nat → BitVec 64) (g : Globals) (n i j : Nat) (s s' : BuildState) :
    Prop where
  calls_le : s.calls ≤ s'.calls
  untouched : Untouched alloc s.calls (fun a k ↦ a = n ∧ k = j) s.mem s'.mem
  built : PdeBuilt alloc g s'.mem s'.calls n i j (s'.pt i j)
  pd : s'.pd = s.pd
  pt : ∀ a b, ¬ (a = i ∧ b = j) → s'.pt a b = s.pt a b

theorem pdeStep_spec (hN : (pdeStep alloc g (alloc n) i j s).calls ≤ N) (hp : Pages alloc N)
    (hn : n < s.calls) (hj : j < 512) :
    PdeStep alloc g n i j s (pdeStep alloc g (alloc n) i j s) := by
  by_cases hs : Split g i j
  · rw [pdeStep_of_split hs] at hN ⊢
    have hp₁ : Pages alloc (s.calls + 1) := hp.mono hN
    have hn₁ : n < s.calls + 1 := Nat.lt_succ_of_lt hn
    obtain ⟨hfill, hpages⟩ := forRange_store hp₁ (Nat.lt_succ_self s.calls)
      (fun k ↦ pageEntry (addressOf i j k) (eptGetMemoryType g (addressOf i j k) 0x1000))
      (store64 (memset s.mem (alloc s.calls) 0 0x1000) (entryAt (alloc n) j)
        (tableEntry (alloc s.calls)))
    rw [← mem_splitPde] at hfill
    simp only [← mem_splitPde] at hpages
    have hpt : (splitPde alloc g (alloc n) i j s).pt i j = s.calls := if_pos ⟨rfl, rfl⟩
    refine ⟨Nat.le_succ _, ?_,
      ⟨fun h ↦ absurd hs h, fun _ ↦ ?_, fun _ ↦ ?_, fun _ ↦ ?_, fun _ ↦ ?_⟩,
      rfl, fun a b hab ↦ if_neg hab⟩
    · -- clearing the new page, writing the entry, filling the new page
      have hclear := Untouched.memset hp₁ s.mem fun a k ↦ a = n ∧ k = j
      have hwrite := Untouched.store (hp₁.mono (Nat.le_succ _)) hn hj
        (memset s.mem (alloc s.calls) 0 0x1000) (tableEntry (alloc s.calls))
      refine (hclear.trans hwrite (Nat.le_refl _) fun _ _ _ _ h ↦ h).trans hfill (Nat.le_succ _) ?_
      exact fun a ha k _ h ↦ absurd h (Nat.ne_of_lt ha)
    · rw [hpt, hfill n hn₁ j hj (Nat.ne_of_lt hn), entry_store_self]
    · rw [hpt]; exact hn
    · rw [hpt]; exact Nat.lt_succ_self _
    · rw [hpt]; exact hpages
  · rw [pdeStep_of_not_split hs] at hN ⊢
    refine ⟨Nat.le_refl _, Untouched.store (hp.mono hN) hn hj _ _,
      ⟨fun _ ↦ entry_store_self _ _ _ _, fun h ↦ absurd h hs, fun h ↦ absurd h hs,
        fun h ↦ absurd h hs, fun h ↦ absurd h hs⟩, rfl, fun _ _ _ ↦ rfl⟩

/-! ## One page directory -/

/-- The state in which the inner loop is entered. -/
def enterPdpt (alloc : Nat → BitVec 64) (i : Nat) (s : BuildState) : BuildState where
  mem := store64 (memset s.mem (alloc s.calls) 0 0x1000) (entryAt (alloc 1) i)
    (tableEntry (alloc s.calls))
  calls := s.calls + 1
  pd := fun a ↦ if a = i then s.calls else s.pd a
  pt := s.pt

theorem pdptStep_eq : pdptStep alloc g (alloc 1) i s =
    forRange 512 (pdeStep alloc g (alloc s.calls) i) (enterPdpt alloc i s) := by
  rw [enterPdpt, ← writeTableEntry_eq]
  rfl

/-- The inner loop after `k` iterations, from `s` on. -/
structure DirectoryLoop (alloc : Nat → BitVec 64) (g : Globals) (n i k : Nat)
    (s s' : BuildState) : Prop where
  calls_le : s.calls ≤ s'.calls
  untouched : Untouched alloc s.calls (fun a _ ↦ a = n) s.mem s'.mem
  built : ∀ j < k, PdeBuilt alloc g s'.mem s'.calls n i j (s'.pt i j)
  pd : s'.pd = s.pd
  pt : ∀ a b, a ≠ i → s'.pt a b = s.pt a b

theorem directoryLoop_spec (k : Nat) (hk : k ≤ 512) (hn : n < s.calls)
    (hN : (forRange k (pdeStep alloc g (alloc n) i) s).calls ≤ N) (hp : Pages alloc N) :
    DirectoryLoop alloc g n i k s (forRange k (pdeStep alloc g (alloc n) i) s) := by
  induction k with
  | zero =>
      exact ⟨Nat.le_refl _, Untouched.refl _ _ _ _, fun j hj ↦ absurd hj (Nat.not_lt_zero j), rfl,
        fun _ _ _ ↦ rfl⟩
  | succ k ih =>
      rw [forRange_succ] at hN ⊢
      generalize forRange k (pdeStep alloc g (alloc n) i) s = r at ih hN ⊢
      have hle : r.calls ≤ (pdeStep alloc g (alloc n) i k r).calls := by
        rw [calls_pdeStep]
        exact Nat.le_add_right _ _
      obtain ⟨hcalls, hunt, hbuilt, hpd, hpt⟩ := ih (Nat.le_of_succ_le hk) (Nat.le_trans hle hN)
      have hnr : n < r.calls := Nat.lt_of_lt_of_le hn hcalls
      obtain ⟨hcalls', hunt', hbuilt', hpd', hpt'⟩ := pdeStep_spec hN hp hnr hk
      refine ⟨Nat.le_trans hcalls hcalls', hunt.trans hunt' hcalls fun _ _ _ _ h ↦ h.1, ?_,
        hpd'.trans hpd, fun a b hab ↦ (hpt' a b fun h ↦ hab h.1).trans (hpt a b hab)⟩
      intro j hj
      rcases Nat.lt_succ_iff_lt_or_eq.mp hj with hlt | rfl
      · rw [hpt' i j fun h ↦ Nat.ne_of_lt hlt h.2]
        exact (hbuilt j hlt).of_untouched hunt' hnr (Nat.lt_trans hlt hk) hcalls'
          (fun h ↦ Nat.ne_of_lt hlt h.2) fun t ht _ h ↦ Nat.ne_of_gt ht h.1
      · exact hbuilt'

/-! ## One PDPT entry -/

/-- What one iteration of the outer loop does. -/
structure PdptStep (alloc : Nat → BitVec 64) (g : Globals) (i : Nat) (s s' : BuildState) :
    Prop where
  calls_le : s.calls ≤ s'.calls
  untouched : Untouched alloc s.calls (fun a k ↦ a = 1 ∧ k = i) s.mem s'.mem
  built : PdptBuilt alloc g s'.mem s'.calls i (s'.pd i) (s'.pt i)
  pd : ∀ a, a ≠ i → s'.pd a = s.pd a
  pt : ∀ a, a ≠ i → s'.pt a = s.pt a

theorem pdptStep_spec (hN : (pdptStep alloc g (alloc 1) i s).calls ≤ N) (hp : Pages alloc N)
    (h1 : 1 < s.calls) (hi : i < 512) :
    PdptStep alloc g i s (pdptStep alloc g (alloc 1) i s) := by
  rw [pdptStep_eq] at hN ⊢
  obtain ⟨hcalls, hunt, hbuilt, hpd, hpt⟩ := directoryLoop_spec (s := enterPdpt alloc i s) 512
    (Nat.le_refl _) (Nat.lt_succ_self s.calls) hN hp
  generalize forRange 512 (pdeStep alloc g (alloc s.calls) i) (enterPdpt alloc i s) = r at *
  have hcalls' : s.calls + 1 ≤ r.calls := hcalls
  have hp₁ : Pages alloc (s.calls + 1) := hp.mono (Nat.le_trans hcalls' hN)
  have hpdi : r.pd i = s.calls := (congrFun hpd i).trans (if_pos rfl)
  have hlink : entry (enterPdpt alloc i s).mem (alloc 1) i = tableEntry (alloc s.calls) :=
    entry_store_self _ _ _ _
  refine ⟨Nat.le_of_succ_le hcalls', ?_, ⟨?_, ?_, ?_, ?_⟩, fun a ha ↦ ?_, fun a ha ↦ ?_⟩
  · -- clearing the new page, writing the entry, and the inner loop
    have hclear := Untouched.memset hp₁ s.mem fun a k ↦ a = 1 ∧ k = i
    have hwrite := Untouched.store (hp₁.mono (Nat.le_succ _)) h1 hi
      (memset s.mem (alloc s.calls) 0 0x1000) (tableEntry (alloc s.calls))
    refine (hclear.trans hwrite (Nat.le_refl _) fun _ _ _ _ h ↦ h).trans hunt (Nat.le_succ _) ?_
    exact fun a ha k _ h ↦ absurd h (Nat.ne_of_lt ha)
  · rw [hpdi]; exact h1
  · rw [hpdi]; exact hcalls'
  · rw [hpdi, hunt 1 (Nat.lt_succ_of_lt h1) i hi (Nat.ne_of_lt h1), hlink]
  · rw [hpdi]; exact hbuilt
  · exact (congrFun hpd a).trans (if_neg ha)
  · exact funext fun b ↦ hpt a b ha

end steps

/-! ## The whole function -/

/-- The outer loop after `k` iterations. -/
structure TableLoop (alloc : Nat → BitVec 64) (g : Globals) (k : Nat) (s : BuildState) : Prop where
  calls : 2 ≤ s.calls
  pml4 : entry s.mem (alloc 0) 0 = tableEntry (alloc 1)
  pdpt : ∀ i < k, PdptBuilt alloc g s.mem s.calls i (s.pd i) (s.pt i)

variable {alloc : Nat → BitVec 64} {g : Globals} {N : Nat}

theorem calls_le_pdptStep (i : Nat) (s : BuildState) :
    s.calls ≤ (pdptStep alloc g (alloc 1) i s).calls := by
  rw [pdptStep_eq]
  refine Nat.le_trans (Nat.le_succ _) ?_
  refine forRange_induction (P := fun _ (r : BuildState) ↦ (enterPdpt alloc i s).calls ≤ r.calls)
    (Nat.le_refl _) fun j _ r hr ↦ Nat.le_trans hr ?_
  rw [calls_pdeStep]
  exact Nat.le_add_right _ _

theorem tableLoop_spec {s : BuildState} (h : TableLoop alloc g 0 s) (hp : Pages alloc N) (k : Nat)
    (hk : k ≤ 512) (hN : (forRange k (pdptStep alloc g (alloc 1)) s).calls ≤ N) :
    TableLoop alloc g k (forRange k (pdptStep alloc g (alloc 1)) s) := by
  induction k with
  | zero => exact h
  | succ k ih =>
      rw [forRange_succ] at hN ⊢
      generalize forRange k (pdptStep alloc g (alloc 1)) s = r at ih hN ⊢
      obtain ⟨hcalls, hpml4, hpdpt⟩ :=
        ih (Nat.le_of_succ_le hk) (Nat.le_trans (calls_le_pdptStep k r) hN)
      obtain ⟨hcalls', hunt, hbuilt, hpd, hpt⟩ := pdptStep_spec hN hp hcalls hk
      refine ⟨Nat.le_trans hcalls hcalls', ?_, fun i hi ↦ ?_⟩
      · rw [hunt 0 (Nat.lt_of_lt_of_le Nat.two_pos hcalls) 0 (by decide) (by simp), hpml4]
      · rcases Nat.lt_succ_iff_lt_or_eq.mp hi with hlt | rfl
        · rw [hpd i (Nat.ne_of_lt hlt), hpt i (Nat.ne_of_lt hlt)]
          exact (hpdpt i hlt).of_untouched hunt (Nat.lt_trans hlt hk) hcalls'
            (fun h ↦ Nat.ne_of_lt hlt h.2) fun t ht _ h ↦ Nat.ne_of_gt ht h.1
        · exact hbuilt

/-- The state in which the outer loop is entered. -/
def enterTables (alloc : Nat → BitVec 64) (mem : Mem) : BuildState where
  mem := store64 (memset (memset mem (alloc 0) 0 0x1000) (alloc 1) 0 0x1000) (alloc 0)
    (tableEntry (alloc 1))
  calls := 2
  pd := fun _ ↦ 0
  pt := fun _ _ ↦ 0

theorem toBuildState_eptInitCore (alloc : Nat → BitVec 64) (g : Globals) (mem : Mem) :
    (eptInitCore alloc g mem).toBuildState =
      forRange 512 (pdptStep alloc g (alloc 1)) (enterTables alloc mem) := by
  rw [enterTables, ← writeTableEntry_eq]
  rfl

/-- `ept_init_core` calls `ldr_malloc` for the PML4, the PDPT, 512 page
directories, and at most one page table for each of their entries. -/
theorem calls_eptInitCore_le (mem : Mem) :
    (eptInitCore alloc g mem).calls ≤ 2 + 512 * (1 + 512) := by
  have hpdpt : ∀ (i : Nat) (s : BuildState),
      (pdptStep alloc g (alloc 1) i s).calls ≤ s.calls + (1 + 512) := by
    intro i s
    rw [pdptStep_eq]
    refine forRange_induction (P := fun k (r : BuildState) ↦ r.calls ≤ s.calls + (1 + k))
      (Nat.le_refl _) fun j _ r hr ↦ ?_
    rw [calls_pdeStep]
    split <;> omega
  rw [congrArg BuildState.calls (toBuildState_eptInitCore alloc g mem)]
  refine forRange_induction (P := fun k (r : BuildState) ↦ r.calls ≤ 2 + k * (1 + 512))
    (Nat.le_refl _) fun i _ r hr ↦ ?_
  have := hpdpt i r
  omega

/-- `ept_init_core` builds the tables, when every page it gets from `ldr_malloc`
is usable. -/
theorem built_eptInitCore (mem : Mem) (hp : Pages alloc (eptInitCore alloc g mem).calls) :
    Built alloc g (eptInitCore alloc g mem) := by
  have hloop := toBuildState_eptInitCore alloc g mem
  have h₀ : TableLoop alloc g 0 (enterTables alloc mem) := by
    refine ⟨Nat.le_refl 2, ?_, fun i hi ↦ absurd hi (Nat.not_lt_zero i)⟩
    have := entry_store_self (memset (memset mem (alloc 0) 0 0x1000) (alloc 1) 0 0x1000) (alloc 0) 0
      (tableEntry (alloc 1))
    rwa [entryAt_zero] at this
  obtain ⟨hcalls, hpml4, hpdpt⟩ :=
    tableLoop_spec h₀ hp 512 (Nat.le_refl _) (Nat.le_of_eq (congrArg BuildState.calls hloop.symm))
  rw [← hloop] at hcalls hpml4 hpdpt
  exact ⟨hcalls, rfl, hpml4, hpdpt⟩

/-- The outer loop leaves every page that is older than the tables it allocates
alone, but for the PDPT. -/
theorem untouched_pdptLoop {s : BuildState} (hp : Pages alloc N) (h1 : 1 < s.calls) (k : Nat)
    (hk : k ≤ 512) (hN : (forRange k (pdptStep alloc g (alloc 1)) s).calls ≤ N) :
    s.calls ≤ (forRange k (pdptStep alloc g (alloc 1)) s).calls ∧
      Untouched alloc s.calls (fun a _ ↦ a = 1) s.mem
        (forRange k (pdptStep alloc g (alloc 1)) s).mem := by
  induction k with
  | zero => exact ⟨Nat.le_refl _, Untouched.refl _ _ _ _⟩
  | succ k ih =>
      rw [forRange_succ] at hN ⊢
      generalize forRange k (pdptStep alloc g (alloc 1)) s = r at ih hN ⊢
      obtain ⟨hcalls, hunt⟩ :=
        ih (Nat.le_of_succ_le hk) (Nat.le_trans (calls_le_pdptStep k r) hN)
      have hstep := pdptStep_spec hN hp (Nat.lt_of_lt_of_le h1 hcalls) hk
      exact ⟨Nat.le_trans hcalls hstep.calls_le,
        hunt.trans hstep.untouched hcalls fun _ _ _ _ h ↦ h.1⟩

/-- The PML4 has one entry; the other 511 stay as `memset` left them. -/
theorem entry_pml4_eptInitCore (mem : Mem) (hp : Pages alloc (eptInitCore alloc g mem).calls)
    {k : Nat} (hk : k < 512) (hk0 : k ≠ 0) :
    entry (eptInitCore alloc g mem).mem (alloc 0) k = 0 := by
  have hloop := toBuildState_eptInitCore alloc g mem
  have hcalls := congrArg BuildState.calls hloop
  obtain ⟨hle, hunt⟩ := untouched_pdptLoop (s := enterTables alloc mem) hp Nat.one_lt_two 512
    (Nat.le_refl _) (Nat.le_of_eq hcalls.symm)
  rw [← hloop] at hle hunt
  have hp₂ : Pages alloc 2 := hp.mono hle
  calc entry (eptInitCore alloc g mem).mem (alloc 0) k
      = entry (enterTables alloc mem).mem (alloc 0) k := hunt 0 Nat.two_pos k hk Nat.zero_ne_one
    _ = entry (memset (memset mem (alloc 0) 0 0x1000) (alloc 1) 0 0x1000) (alloc 0) k := by
      have h := hp₂.entry_store_of_ne Nat.two_pos Nat.two_pos (by decide) hk (.inr hk0.symm)
        (memset (memset mem (alloc 0) 0 0x1000) (alloc 1) 0 0x1000) (tableEntry (alloc 1))
      rwa [entryAt_zero] at h
    _ = entry (memset mem (alloc 0) 0 0x1000) (alloc 0) k :=
      hp₂.entry_memset_of_ne Nat.one_lt_two Nat.two_pos hk Nat.one_ne_zero _
    _ = 0 := entry_memset_self mem (alloc 0) hk

end Hypervi.Ept
