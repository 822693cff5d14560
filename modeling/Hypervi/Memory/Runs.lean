import Hypervi.Control
import Hypervi.Memory.Byte
import Mathlib.Data.List.Basic

/-!
# Memory written run by run

A `Run` is a run of consecutive addresses together with the bytes that a copy or a
fill puts there.  After a list of runs, a byte of memory is what the *last* run over
its address put there (`overwrite_of_last`), or what it was before when no run is over
it (`overwrite_of_none`).

`overwrite_filter_eq_iff` compares a list of runs with a part of it: the runs left out
make no difference exactly when each byte that one of them has the last word on is the
byte that was due there anyway.
-/

namespace Hypervi.Memory

universe u

/-- The `size` addresses from `start` on, and the byte for each offset. -/
structure Run where
  start : BitVec 64
  size : Nat
  byte : BitVec 64 → BitVec 8

namespace Run

/-- The run is over the address `x`. -/
def Over (r : Run) (x : BitVec 64) : Prop := (x - r.start).toNat < r.size

instance (r : Run) (x : BitVec 64) : Decidable (r.Over x) := Nat.decLt _ _

/-- The byte that the run puts at `x`. -/
def at' (r : Run) (x : BitVec 64) : BitVec 8 := r.byte (x - r.start)

/-- Write the run. -/
def write (r : Run) (m : Mem) : Mem := fun x ↦ if r.Over x then r.at' x else m x

theorem write_of_over {r : Run} {x : BitVec 64} (h : r.Over x) (m : Mem) : r.write m x = r.at' x :=
  if_pos h

theorem write_of_not_over {r : Run} {x : BitVec 64} (h : ¬ r.Over x) (m : Mem) :
    r.write m x = m x := if_neg h

/-- An empty run is over no address. -/
theorem not_over_of_size {r : Run} (h : r.size = 0) {x : BitVec 64} : ¬ r.Over x := by
  rw [Over, h]
  exact Nat.not_lt_zero _

/-- A run and an address, both given by their offset from a common start. -/
theorem over_add_iff {a : BitVec 64} {s n k : Nat} {byte : BitVec 64 → BitVec 8}
    (hs : s + n ≤ 2 ^ 64) (hk : k < 2 ^ 64) :
    (Run.mk (a + BitVec.ofNat 64 s) n byte).Over (a + BitVec.ofNat 64 k) ↔ s ≤ k ∧ k < s + n := by
  have ha := a.isLt
  change (a + BitVec.ofNat 64 k - (a + BitVec.ofNat 64 s)).toNat < n ↔ _
  rw [BitVec.toNat_sub, BitVec.toNat_add, BitVec.toNat_add, BitVec.toNat_ofNat, BitVec.toNat_ofNat]
  omega

theorem at'_add {a : BitVec 64} {s n k : Nat} {byte : BitVec 64 → BitVec 8} (hk : s ≤ k) :
    (Run.mk (a + BitVec.ofNat 64 s) n byte).at' (a + BitVec.ofNat 64 k) =
      byte (BitVec.ofNat 64 (k - s)) := by
  obtain ⟨d, rfl⟩ := Nat.exists_eq_add_of_le hk
  have haddr : a + BitVec.ofNat 64 (s + d) = BitVec.ofNat 64 d + (a + BitVec.ofNat 64 s) := by
    rw [BitVec.ofNat_add, ← BitVec.add_assoc, BitVec.add_comm]
  rw [at', haddr, BitVec.add_sub_cancel, Nat.add_sub_cancel_left]

end Run

/-- The runs in order. -/
def overwrite (runs : List Run) (m : Mem) : Mem := runs.foldl (fun m r ↦ r.write m) m

section overwrite

variable {runs : List Run} {x : BitVec 64}

theorem overwrite_append (runs runs' : List Run) (m : Mem) :
    overwrite (runs ++ runs') m = overwrite runs' (overwrite runs m) := List.foldl_append

theorem overwrite_cons (r : Run) (runs : List Run) (m : Mem) :
    overwrite (r :: runs) m = overwrite runs (r.write m) := rfl

/-- A byte that no run is over stays. -/
theorem overwrite_of_none (h : ∀ r ∈ runs, ¬ r.Over x) (m : Mem) : overwrite runs m x = m x := by
  induction runs generalizing m with
  | nil => rfl
  | cons r runs ih =>
      rw [overwrite_cons, ih (fun r' hr' ↦ h r' (List.mem_cons_of_mem r hr')) (r.write m)]
      exact Run.write_of_not_over (h r List.mem_cons_self) m

/-- The last run over an address decides. -/
theorem overwrite_of_last {before after : List Run} {r : Run} (hr : r.Over x)
    (hafter : ∀ r' ∈ after, ¬ r'.Over x) (m : Mem) :
    overwrite (before ++ r :: after) m x = r.at' x := by
  rw [overwrite_append, overwrite_cons, overwrite_of_none hafter]
  exact Run.write_of_over hr _

/-- Some run is the last one over an address, or none is over it. -/
theorem last_or_none {α : Type u} (f : α → Run) (as : List α) (x : BitVec 64) :
    (∃ before a after, as = before ++ a :: after ∧ (f a).Over x ∧ ∀ b ∈ after, ¬ (f b).Over x) ∨
      ∀ a ∈ as, ¬ (f a).Over x := by
  induction as with
  | nil => exact .inr fun a ha ↦ absurd ha List.not_mem_nil
  | cons a as ih =>
      rcases ih with ⟨before, b, after, rfl, hb, hafter⟩ | hnone
      · exact .inl ⟨a :: before, b, after, rfl, hb, hafter⟩
      · by_cases ha : (f a).Over x
        · exact .inl ⟨[], a, as, rfl, ha, hnone⟩
        · refine .inr fun b hb ↦ ?_
          rcases List.mem_cons.mp hb with rfl | hb
          · exact ha
          · exact hnone b hb

/-- The last run over an address, read off a list that the runs are the image of. -/
theorem overwrite_map_of_last {α : Type u} {f : α → Run} {before after : List α} {a : α}
    (ha : (f a).Over x) (hafter : ∀ b ∈ after, ¬ (f b).Over x) (m : Mem) :
    overwrite ((before ++ a :: after).map f) m x = (f a).at' x := by
  rw [List.map_append, List.map_cons]
  apply overwrite_of_last ha
  intro r hr
  obtain ⟨b, hb, rfl⟩ := List.mem_map.mp hr
  exact hafter b hb

theorem overwrite_map_of_none {α : Type u} {f : α → Run} {as : List α}
    (h : ∀ a ∈ as, ¬ (f a).Over x) (m : Mem) : overwrite (as.map f) m x = m x := by
  apply overwrite_of_none
  intro r hr
  obtain ⟨a, ha, rfl⟩ := List.mem_map.mp hr
  exact h a ha

/-- When a single run is over an address, it decides wherever it stands. -/
theorem overwrite_map_of_unique {α : Type u} {f : α → Run} {as : List α} {a : α} (ha : a ∈ as)
    (hover : (f a).Over x) (huniq : ∀ b ∈ as, (f b).Over x → b = a) (m : Mem) :
    overwrite (as.map f) m x = (f a).at' x := by
  rcases last_or_none f as x with ⟨before, b, after, rfl, hb, hafter⟩ | hnone
  · have hba : b = a := huniq b (List.mem_append_right _ List.mem_cons_self) hb
    subst hba
    exact overwrite_map_of_last hb hafter m
  · exact absurd hover (hnone a ha)

/-- The last run over an address, read off runs with an index. -/
theorem overwrite_range_of_last {f : Nat → Run} {n j : Nat} (hj : j < n) (hover : (f j).Over x)
    (hlast : ∀ k, j < k → k < n → ¬ (f k).Over x) (m : Mem) :
    overwrite ((List.range n).map f) m x = (f j).at' x := by
  obtain ⟨after, hrange, hafter⟩ := range_split hj
  rw [hrange]
  exact overwrite_map_of_last hover (fun k hk ↦ hlast k (hafter k hk).1 (hafter k hk).2) m

theorem last_or_none_range (f : Nat → Run) (n : Nat) (x : BitVec 64) :
    (∃ j < n, (f j).Over x ∧ ∀ k, j < k → k < n → ¬ (f k).Over x) ∨ ∀ j < n, ¬ (f j).Over x := by
  induction n with
  | zero => exact .inr fun j hj ↦ absurd hj (Nat.not_lt_zero j)
  | succ n ih =>
      by_cases hn : (f n).Over x
      · exact .inl ⟨n, Nat.lt_succ_self n, hn, fun k hlt hle ↦ absurd hlt (by omega)⟩
      · have hskip {k : Nat} (hk : k < n + 1) (h : k < n → ¬ (f k).Over x) : ¬ (f k).Over x := by
          rcases Nat.lt_succ_iff_lt_or_eq.mp hk with hlt | rfl
          · exact h hlt
          · exact hn
        rcases ih with ⟨j, hj, hover, hlast⟩ | hnone
        · exact .inl ⟨j, Nat.lt_succ_of_lt hj, hover, fun k hjk hk ↦ hskip hk (hlast k hjk)⟩
        · exact .inr fun j hj ↦ hskip hj (hnone j)

/-- Leaving runs out makes no difference exactly when each byte that a run left out has
the last word on is the byte that is there without it. -/
theorem overwrite_filter_eq_iff {α : Type u} (f : α → Run) (keep : α → Bool) (as : List α)
    (m : Mem) :
    overwrite (as.map f) m = overwrite ((as.filter keep).map f) m ↔
      ∀ before a after, as = before ++ a :: after → keep a = false →
        ∀ x, (f a).Over x → (∀ b ∈ after, ¬ (f b).Over x) →
          (f a).at' x = overwrite ((as.filter keep).map f) m x := by
  constructor
  · rintro heq before a after rfl - x ha hafter
    rw [← heq, overwrite_map_of_last ha hafter]
  · intro h
    funext x
    rcases last_or_none f as x with ⟨before, a, after, rfl, ha, hafter⟩ | hnone
    · rw [overwrite_map_of_last ha hafter]
      cases hkeep : keep a with
      | false => exact h before a after rfl hkeep x ha hafter
      | true =>
          rw [List.filter_append, List.filter_cons_of_pos hkeep]
          refine (overwrite_map_of_last ha (fun b hb ↦ ?_) m).symm
          exact hafter b (List.mem_of_mem_filter hb)
    · rw [overwrite_map_of_none hnone, overwrite_map_of_none]
      exact fun a ha ↦ hnone a (List.mem_of_mem_filter ha)

end overwrite

end Hypervi.Memory
