import Hypervi.Ept.Tables

/-!
# The bytes `ept_init_core` writes

Whatever pages `ldr_malloc` returns, overlapping or not, `ept_init_core` writes
the bytes of these pages and no others.

* `mem_eptInitCore_eq`: what a byte of a page holds in the end does not depend on
  what memory held before, since `memset` wrote it and the rest of the function
  writes constants.
* `mem_eptInitCore_of_not_inPage`: every other byte keeps its value.

The first is about two runs from different memories, which make the same calls
and agree on every byte of the pages returned so far; the second follows one run.
The number of calls is `callsOf g`, two for the upper tables, one for each page
directory and one for each region that is split.
-/

namespace Hypervi.Ept

open Bits Ia32 Memory Mtrr Freestanding

/-- The byte at `x` is one of the 4096 of the page. -/
def InPage (page x : BitVec 64) : Prop := (x - page).toNat < 0x1000

variable {alloc : Nat → BitVec 64} {g : Globals} {x : BitVec 64} {n i j k : Nat}
  {s s' s'' : BuildState}

theorem inPage_of_inEntry {page : BitVec 64} (hk : k < 512)
    (hx : (x - entryAt page k).toNat < 8) : InPage page x := by
  have h := (in_words_iff page x (n := 512) (by decide)).mp ⟨k, hk, hx⟩
  exact h

/-! ## The number of calls -/

/-- The number of regions below the `i`-th PDPT entry that are split. -/
def splitCount (g : Globals) (i : Nat) : Nat := (List.range 512).countP (Split g i ·)

/-- The number of calls of `ldr_malloc` in `ept_init_core`. -/
def callsOf (g : Globals) : Nat := 2 + ((List.range 512).map fun i ↦ 1 + splitCount g i).sum

theorem one_lt_callsOf (g : Globals) : 1 < callsOf g :=
  Nat.lt_of_lt_of_le Nat.one_lt_two (Nat.le_add_right 2 _)

theorem calls_pdptStep (i : Nat) (s : BuildState) :
    (pdptStep alloc g (alloc 1) i s).calls = s.calls + (1 + splitCount g i) := by
  rw [pdptStep_eq]
  refine forRange_induction (P := fun k (r : BuildState) ↦
    r.calls = s.calls + (1 + (List.range k).countP (Split g i ·))) rfl fun j _ r hr ↦ ?_
  rw [calls_pdeStep, hr, List.range_succ, List.countP_append, List.countP_singleton]
  simp [Nat.add_assoc]

/-- The calls up to the end of the outer loop, which are all. -/
theorem calls_pdptLoop (mem : Mem) :
    (forRange 512 (pdptStep alloc g (alloc 1)) (enterTables alloc mem)).calls = callsOf g := by
  refine forRange_induction (P := fun k (r : BuildState) ↦ r.calls =
    2 + ((List.range k).map fun i ↦ 1 + splitCount g i).sum) rfl fun i _ r hr ↦ ?_
  rw [calls_pdptStep, hr, List.range_succ, List.map_append, List.sum_append]
  simp [Nat.add_assoc]

theorem calls_eptInitCore (mem : Mem) : (eptInitCore alloc g mem).calls = callsOf g :=
  (congrArg BuildState.calls (toBuildState_eptInitCore alloc g mem)).trans (calls_pdptLoop mem)

/-! ## Two runs -/

/-- Two runs have made the same calls, and agree on the byte at `x` if a page
returned by one of them contains it. -/
structure SameAt (alloc : Nat → BitVec 64) (x : BitVec 64) (s s' : BuildState) : Prop where
  calls : s.calls = s'.calls
  written : ∀ c < s.calls, InPage (alloc c) x → s.mem x = s'.mem x

/-- A byte that agrees before the same write agrees after it. -/
theorem store64_congr {m m' : Mem} (h : m x = m' x) (e v : BitVec 64) :
    store64 m e v x = store64 m' e v x := by
  unfold store64 store
  rw [h]

namespace SameAt

theorem store (h : SameAt alloc x s s') (e v : BitVec 64) :
    SameAt alloc x { s with mem := store64 s.mem e v } { s' with mem := store64 s'.mem e v } where
  calls := h.calls
  written c hc hx := store64_congr (h.written c hc hx) e v

theorem zeroedPage (h : SameAt alloc x s s') :
    SameAt alloc x (s.zeroedPage alloc) (s'.zeroedPage alloc) where
  calls := congrArg Nat.succ h.calls
  written c hc hx := by
    change memset s.mem (alloc s.calls) 0 0x1000 x = memset s'.mem (alloc s'.calls) 0 0x1000 x
    rw [← h.calls]
    unfold memset
    split
    · rfl
    · next hnew =>
      rcases Nat.lt_succ_iff_lt_or_eq.mp hc with hlt | rfl
      · exact h.written c hlt hx
      · exact absurd hx hnew

theorem pdeStep (h : SameAt alloc x s s') (pdes : BitVec 64) (i j : Nat) :
    SameAt alloc x (pdeStep alloc g pdes i j s) (pdeStep alloc g pdes i j s') := by
  by_cases hs : Split g i j
  · rw [pdeStep_of_split hs, pdeStep_of_split hs]
    have hentry := h.zeroedPage.store (entryAt pdes j) (tableEntry (alloc s.calls))
    refine ⟨congrArg Nat.succ h.calls, fun c hc hx ↦ ?_⟩
    rw [mem_splitPde, mem_splitPde, ← h.calls]
    refine forRange_induction₂ (R := fun _ (m m' : Mem) ↦ m x = m' x) ?_
      fun k _ m m' hm ↦ store64_congr hm _ _
    have := hentry.written c hc hx
    rwa [BuildState.zeroedPage, BuildState.zeroedPage, ← h.calls] at this
  · rw [pdeStep_of_not_split hs, pdeStep_of_not_split hs]
    exact h.store _ _

theorem pdptStep (h : SameAt alloc x s s') (i : Nat) :
    SameAt alloc x (pdptStep alloc g (alloc 1) i s) (pdptStep alloc g (alloc 1) i s') := by
  rw [pdptStep_eq, pdptStep_eq, ← h.calls]
  have henter := h.zeroedPage.store (entryAt (alloc 1) i) (tableEntry (alloc s.calls))
  rw [BuildState.zeroedPage, BuildState.zeroedPage, ← h.calls] at henter
  refine forRange_induction₂ (R := fun _ r r' ↦ SameAt alloc x r r') ?_
    fun j _ r r' hr ↦ hr.pdeStep _ i j
  exact ⟨by rw [enterPdpt, enterPdpt, h.calls], by
    rw [enterPdpt, enterPdpt, ← h.calls]; exact henter.written⟩

end SameAt

/-- A byte of a page that `ldr_malloc` returned ends up the same whatever memory
held before. -/
theorem mem_eptInitCore_eq {c : Nat} (hc : c < callsOf g) (hx : InPage (alloc c) x)
    (mem mem' : Mem) : (eptInitCore alloc g mem).mem x = (eptInitCore alloc g mem').mem x := by
  rw [congrArg BuildState.mem (toBuildState_eptInitCore alloc g mem),
    congrArg BuildState.mem (toBuildState_eptInitCore alloc g mem')]
  have h₀ : SameAt alloc x ⟨mem, 0, fun _ ↦ 0, fun _ _ ↦ 0⟩ ⟨mem', 0, fun _ ↦ 0, fun _ _ ↦ 0⟩ :=
    ⟨rfl, fun c hc ↦ absurd hc (Nat.not_lt_zero c)⟩
  have henter : SameAt alloc x (enterTables alloc mem) (enterTables alloc mem') :=
    h₀.zeroedPage.zeroedPage.store (alloc 0) (tableEntry (alloc 1))
  have hrun : SameAt alloc x (forRange 512 (pdptStep alloc g (alloc 1)) (enterTables alloc mem))
      (forRange 512 (pdptStep alloc g (alloc 1)) (enterTables alloc mem')) :=
    forRange_induction₂ (R := fun _ r r' ↦ SameAt alloc x r r') henter
      fun i _ r r' hr ↦ hr.pdptStep i
  exact hrun.written c (by rw [calls_pdptLoop]; exact hc) hx

/-! ## What is kept -/

/-- From `s` to `s'` the byte at `x` keeps its value, unless a page returned up to
then contains it. -/
structure KeepsAt (alloc : Nat → BitVec 64) (x : BitVec 64) (s s' : BuildState) : Prop where
  calls_le : s.calls ≤ s'.calls
  kept : (∀ c < s'.calls, ¬ InPage (alloc c) x) → s'.mem x = s.mem x

namespace KeepsAt

theorem refl (alloc : Nat → BitVec 64) (x : BitVec 64) (s : BuildState) : KeepsAt alloc x s s :=
  ⟨Nat.le_refl _, fun _ ↦ rfl⟩

theorem trans (h : KeepsAt alloc x s s') (h' : KeepsAt alloc x s' s'') : KeepsAt alloc x s s'' where
  calls_le := Nat.le_trans h.calls_le h'.calls_le
  kept hx := (h'.kept hx).trans (h.kept fun c hc ↦ hx c (Nat.lt_of_lt_of_le hc h'.calls_le))

theorem store (hn : n < s.calls) (hk : k < 512) (v : BitVec 64) :
    KeepsAt alloc x s { s with mem := store64 s.mem (entryAt (alloc n) k) v } where
  calls_le := Nat.le_refl _
  kept hx := if_neg fun h ↦ hx n hn (inPage_of_inEntry hk h)

theorem zeroedPage (s : BuildState) : KeepsAt alloc x s (s.zeroedPage alloc) where
  calls_le := Nat.le_succ _
  kept hx := if_neg (hx s.calls (Nat.lt_succ_self _))

theorem pdeStep (hn : n < s.calls) (hj : j < 512) :
    KeepsAt alloc x s (pdeStep alloc g (alloc n) i j s) := by
  by_cases hs : Split g i j
  · have hentry : KeepsAt alloc x s { s.zeroedPage alloc with
        mem :=
          store64 (s.zeroedPage alloc).mem (entryAt (alloc n) j) (tableEntry (alloc s.calls)) } :=
      (zeroedPage s).trans (store (s := s.zeroedPage alloc) (Nat.lt_succ_of_lt hn) hj _)
    rw [pdeStep_of_split hs]
    refine ⟨hentry.calls_le, fun hx ↦ ?_⟩
    rw [mem_splitPde]
    refine forRange_induction (P := fun _ (m : Mem) ↦ m x = s.mem x) (hentry.kept hx)
      fun k hk m hm ↦ ?_
    rw [← hm]
    exact if_neg fun h ↦ hx s.calls (Nat.lt_succ_self _) (inPage_of_inEntry hk h)
  · rw [pdeStep_of_not_split hs]
    exact store hn hj _

theorem pdptStep (h1 : 1 < s.calls) (hi : i < 512) :
    KeepsAt alloc x s (pdptStep alloc g (alloc 1) i s) := by
  rw [pdptStep_eq]
  have henter : KeepsAt alloc x s { s.zeroedPage alloc with
      mem :=
        store64 (s.zeroedPage alloc).mem (entryAt (alloc 1) i) (tableEntry (alloc s.calls)) } :=
    (zeroedPage s).trans (store (s := s.zeroedPage alloc) (Nat.lt_succ_of_lt h1) hi _)
  have hloop : KeepsAt alloc x (enterPdpt alloc i s)
      (forRange 512 (Ept.pdeStep alloc g (alloc s.calls) i) (enterPdpt alloc i s)) :=
    forRange_induction (P := fun _ r ↦ KeepsAt alloc x (enterPdpt alloc i s) r) (refl _ _ _)
      fun j hj r hr ↦ hr.trans (pdeStep (Nat.lt_of_lt_of_le (Nat.lt_succ_self _) hr.calls_le) hj)
  exact ⟨Nat.le_trans henter.calls_le hloop.calls_le, fun hx ↦ (hloop.kept hx).trans
    (henter.kept fun c hc ↦ hx c (Nat.lt_of_lt_of_le hc hloop.calls_le))⟩

end KeepsAt

/-- A byte that is in none of the pages `ldr_malloc` returned keeps its value. -/
theorem mem_eptInitCore_of_not_inPage (hx : ∀ c < callsOf g, ¬ InPage (alloc c) x) (mem : Mem) :
    (eptInitCore alloc g mem).mem x = mem x := by
  rw [congrArg BuildState.mem (toBuildState_eptInitCore alloc g mem)]
  have hpages : KeepsAt alloc x ⟨mem, 0, fun _ ↦ 0, fun _ _ ↦ 0⟩ (BuildState.zeroedPage alloc
      (BuildState.zeroedPage alloc ⟨mem, 0, fun _ ↦ 0, fun _ _ ↦ 0⟩)) :=
    (KeepsAt.zeroedPage _).trans (KeepsAt.zeroedPage _)
  have henter : KeepsAt alloc x ⟨mem, 0, fun _ ↦ 0, fun _ _ ↦ 0⟩ (enterTables alloc mem) := by
    have hentry := hpages.trans (KeepsAt.store (n := 0) (k := 0) Nat.two_pos (by decide)
      (tableEntry (alloc 1)))
    rw [entryAt_zero] at hentry
    exact hentry
  have hloop : KeepsAt alloc x (enterTables alloc mem)
      (forRange 512 (pdptStep alloc g (alloc 1)) (enterTables alloc mem)) :=
    forRange_induction (P := fun _ r ↦ KeepsAt alloc x (enterTables alloc mem) r)
      (KeepsAt.refl _ _ _) fun i hi r hr ↦
        hr.trans (KeepsAt.pdptStep (Nat.lt_of_lt_of_le Nat.one_lt_two hr.calls_le) hi)
  exact (henter.trans hloop).kept fun c hc ↦ hx c (by rwa [calls_pdptLoop] at hc)

end Hypervi.Ept
