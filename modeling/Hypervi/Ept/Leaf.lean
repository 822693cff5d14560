import Hypervi.Ept.Walk

/-!
# The memory type of a leaf

The memory type of a leaf is a field of three bits, and `ept_get_memory_type` returns eight.
The check in `ept_init_core` compares the field with `MEMORY_TYPE_INVALID`, which three bits
cannot hold, so that it never fails.

Nothing is lost all the same: a page always has a type (`LegalTypes.page`), a region without
one is split, and the types that the processor defines fit the field.
-/

namespace Hypervi.Ept

open Bits Ia32 Memory Mtrr

/-- The field holds the whole of a legal memory type. -/
structure HoldsLegal (e : BitVec 64) (t : MemoryType) : Prop where
  legal : MemoryType.Legal ((leafMemoryType.get e).setWidth 8)
  untruncated : leafMemoryType.get e = t.setWidth 64

theorem HoldsLegal.of_get {e : BitVec 64} {t : MemoryType} (ht : t.Legal)
    (h : leafMemoryType.get e = t.setWidth 64) : HoldsLegal e t := by
  refine ⟨?_, h⟩
  rw [h, setWidth_memoryType]
  exact ht

variable {rax : Nat → BitVec 64} {msrs : Msrs} {alloc : Nat → BitVec 64} {mem : Mem}

/-- Each leaf that `ept_init_core` writes has the memory type that the lookup for its page or
its region returned, which is legal; and the lookup for a page always returns one. -/
theorem leaf_holdsLegal (hl : LegalTypes msrs)
    (hp : Pages alloc (eptInitCore alloc (eptInitMtrr rax msrs) mem).calls) :
    (∀ a : BitVec 64, a.toNat < 2 ^ 39 →
      ∃ t e, eptWalk (eptInitCore alloc (eptInitMtrr rax msrs) mem).mem
          (eptInitCore alloc (eptInitMtrr rax msrs) mem).ptr a = some t ∧
        t.path.getLast? = some e ∧
        (t.pageBits = 12 ∧
            HoldsLegal e (eptGetMemoryType (eptInitMtrr rax msrs) (pageStart a) 0x1000) ∨
          t.pageBits = 21 ∧
            HoldsLegal e (eptGetMemoryType (eptInitMtrr rax msrs) (regionStart a) 0x200000))) ∧
    ∀ p : BitVec 64, 0x1000 ∣ p.toNat →
      eptGetMemoryType (eptInitMtrr rax msrs) p 0x1000 ≠ memoryTypeInvalid := by
  have hb := built_eptInitCore mem hp
  constructor
  · intro a ha
    by_cases hs : Split (eptInitMtrr rax msrs) (pdptIndex a) (pdIndex a)
    · have hpage := legal_pageStart hl rax a
      refine ⟨_, _, hb.eptWalk_of_split hp ha hs hpage, rfl, .inl ⟨rfl, ?_⟩⟩
      exact .of_get hpage (get_pageEntry _ hpage)
    · have hregion := (hl.lookup rax (regionStart a) 0x200000).resolve_left fun h ↦
        hs ((split_iff ha).mpr h)
      refine ⟨_, _, hb.eptWalk_of_not_split hp ha hs hregion, rfl, .inr ⟨rfl, ?_⟩⟩
      exact .of_get hregion (get_largeEntry _ hregion)
  · intro p hpage hinvalid
    have hlegal := hl.page rax hpage
    rw [hinvalid] at hlegal
    exact absurd hlegal (by decide)

/-- The second region of write-back memory without ranges. -/
theorem leaf_holdsLegal_writeBackOnly :
    ∃ t e, eptWalk
        (eptInitCore consecutivePages (eptInitMtrr (fun _ ↦ 0) writeBackOnly) fun _ ↦ 0).mem
        (eptInitCore consecutivePages (eptInitMtrr (fun _ ↦ 0) writeBackOnly) fun _ ↦ 0).ptr
        0x200000 = some t ∧
      t.path.getLast? = some e ∧ MemoryType.Legal ((leafMemoryType.get e).setWidth 8) := by
  have hp := pages_eptInitCore (eptInitMtrr (fun _ ↦ 0) writeBackOnly) fun _ ↦ 0
  obtain ⟨t, e, ht, he, hholds⟩ :=
    (leaf_holdsLegal legalTypes_writeBackOnly hp).1 0x200000 (by decide)
  refine ⟨t, e, ht, he, ?_⟩
  rcases hholds with ⟨-, h⟩ | ⟨-, h⟩
  · exact h.legal
  · exact h.legal

end Hypervi.Ept
