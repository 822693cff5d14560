import Hypervi.Control
import Hypervi.Memory.Byte
import Mathlib.Data.List.Basic

/-!
# Words patched in place

A `Patch` replaces the eight-byte word at its target by a function of that word.  What
a list of patches does to memory is read off one word at a time, as long as the targets
are *separated* from the word: equal to it or apart from it.  Then the word ends as the
patches that target it make it, in order (`load64_patchAll`).
-/

namespace Hypervi.Memory

/-- A function applied to the word at an address. -/
structure Patch where
  target : BitVec 64
  op : BitVec 64 → BitVec 64

/-- Do it. -/
def Patch.apply (p : Patch) (m : Mem) : Mem := store64 m p.target (p.op (load64 m p.target))

/-- All of them in order. -/
def patchAll (ps : List Patch) (m : Mem) : Mem := ps.foldl (fun m p ↦ p.apply m) m

/-- What the patches that target `t` make of the word there. -/
def patchWord (ps : List Patch) (t : BitVec 64) (v : BitVec 64) : BitVec 64 :=
  ps.foldl (fun v p ↦ if p.target = t then p.op v else v) v

/-- The words at the two addresses are the same one, or have no byte in common. -/
def Separated (a b : BitVec 64) : Prop := a = b ∨ Apart a 8 b 8

theorem patchAll_append (ps qs : List Patch) (m : Mem) :
    patchAll (ps ++ qs) m = patchAll qs (patchAll ps m) := List.foldl_append

theorem patchAll_cons (p : Patch) (ps : List Patch) (m : Mem) :
    patchAll (p :: ps) m = patchAll ps (p.apply m) := rfl

theorem patchWord_append (ps qs : List Patch) (t v : BitVec 64) :
    patchWord (ps ++ qs) t v = patchWord qs t (patchWord ps t v) := List.foldl_append

theorem patchWord_cons (p : Patch) (ps : List Patch) (t v : BitVec 64) :
    patchWord (p :: ps) t v = patchWord ps t (if p.target = t then p.op v else v) := rfl

/-- A word that no patch targets stays. -/
theorem patchWord_of_forall_ne {ps : List Patch} {t : BitVec 64} (h : ∀ p ∈ ps, p.target ≠ t)
    (v : BitVec 64) : patchWord ps t v = v := by
  induction ps with
  | nil => rfl
  | cons p ps ih =>
      rw [patchWord_cons, if_neg (h p List.mem_cons_self)]
      exact ih fun q hq ↦ h q (List.mem_cons_of_mem p hq)

/-- One patch of a table of patches targets the word. -/
theorem patchWord_filterMap_range {f : Nat → Option Patch} {n k : Nat} (hk : k < n) {p : Patch}
    (hp : f k = some p) {t : BitVec 64} (ht : p.target = t)
    (hother : ∀ j < n, j ≠ k → ∀ q, f j = some q → q.target ≠ t) (v : BitVec 64) :
    patchWord ((List.range n).filterMap f) t v = p.op v := by
  have hne {l : List Nat} (hl : ∀ j ∈ l, j < n ∧ j ≠ k) (v : BitVec 64) :
      patchWord (l.filterMap f) t v = v := by
    apply patchWord_of_forall_ne
    intro q hq
    obtain ⟨j, hj, hfj⟩ := List.mem_filterMap.mp hq
    exact hother j (hl j hj).1 (hl j hj).2 q hfj
  obtain ⟨after, hrange, hafter⟩ := range_split hk
  have hbefore : ∀ j ∈ List.range k, j < n ∧ j ≠ k := by
    intro j hj
    have := List.mem_range.mp hj
    omega
  rw [hrange, List.filterMap_append, List.filterMap_cons_some hp, patchWord_append, patchWord_cons,
    if_pos ht, hne hbefore, hne]
  intro j hj
  exact ⟨(hafter j hj).2, Nat.ne_of_gt (hafter j hj).1⟩

section words

variable {t : BitVec 64}

theorem load64_apply {p : Patch} (h : Separated p.target t) (m : Mem) :
    load64 (p.apply m) t = if p.target = t then p.op (load64 m t) else load64 m t := by
  rcases h with rfl | hapart
  · rw [if_pos rfl]
    exact load_store_self (by decide) m _ _
  · have hne : p.target ≠ t := by
      rintro rfl
      have := hapart.1
      rw [BitVec.sub_self] at this
      exact absurd this (by decide)
    rw [if_neg hne]
    exact load_store_of_apart hapart

/-- The word at `t` after patches whose targets are separated from it. -/
theorem load64_patchAll {ps : List Patch} (h : ∀ p ∈ ps, Separated p.target t) (m : Mem) :
    load64 (patchAll ps m) t = patchWord ps t (load64 m t) := by
  induction ps generalizing m with
  | nil => rfl
  | cons p ps ih =>
      rw [patchAll_cons, patchWord_cons, ih fun q hq ↦ h q (List.mem_cons_of_mem p hq)]
      rw [load64_apply (h p List.mem_cons_self)]

/-- A byte of no target stays. -/
theorem patchAll_of_outside {ps : List Patch} {x : BitVec 64}
    (h : ∀ p ∈ ps, 8 ≤ (x - p.target).toNat) (m : Mem) : patchAll ps m x = m x := by
  induction ps generalizing m with
  | nil => rfl
  | cons p ps ih =>
      rw [patchAll_cons, ih fun q hq ↦ h q (List.mem_cons_of_mem p hq)]
      exact if_neg (Nat.not_lt.mpr (h p List.mem_cons_self))

/-- A byte is part of the word that it lies in. -/
theorem byte_eq_of_load64_eq {m m' : Mem} {x : BitVec 64} (h : load64 m t = load64 m' t)
    (hx : (x - t).toNat < 8) : m x = m' x := by
  have hat : t + BitVec.ofNat 64 (x - t).toNat = x := by
    rw [BitVec.ofNat_toNat, BitVec.setWidth_eq, BitVec.add_comm, BitVec.sub_add_cancel]
  have hbyte (m : Mem) : (load64 m t).extractLsb' (8 * (x - t).toNat) (8 * 1) = m x := by
    rw [load64, extractLsb'_load (by omega), hat]
    apply BitVec.eq_of_toNat_eq
    rw [load, loadNat, loadNat, BitVec.toNat_ofNat, Nat.mul_zero, Nat.zero_add]
    exact Nat.mod_eq_of_lt (m x).isLt
  rw [← hbyte m, ← hbyte m', h]

end words

end Hypervi.Memory
