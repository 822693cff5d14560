import Hypervi.Control
import Mathlib.Logic.Function.Basic
import Mathlib.Data.List.Nodup
import Mathlib.Data.List.Perm.Basic

/-!
# A table of slots

A table of `n` slots, some in use and some free.  `occupied` is the list of what the slots
in use hold, so that "the table holds exactly these items, each in one slot" is a
permutation.

A new item goes to the first free slot: `occupied_fill` puts it on the list,
`firstFree_eq_none_iff` says that there is none exactly when `n` items are held.  Clearing
the slots that hold an item of some kind takes these items off (`occupied_clear`).
-/

namespace Hypervi.Slots

universe u

variable {α : Type u}

section model

variable (used : α → Bool) (n : Nat) (table : Nat → α)

/-- What the slots in use hold. -/
def occupied : List α := ((List.range n).map table).filter used

/-- The first slot that is not in use. -/
def firstFree : Option Nat := (List.range n).find? fun i ↦ !used (table i)

end model

section lemmas

variable {used : α → Bool} {n : Nat} {table : Nat → α}

theorem mem_occupied {a : α} :
    a ∈ occupied used n table ↔ ∃ i < n, table i = a ∧ used a = true := by
  rw [occupied, List.mem_filter, List.mem_map]
  constructor
  · rintro ⟨⟨i, hi, rfl⟩, hused⟩
    exact ⟨i, List.mem_range.mp hi, rfl, hused⟩
  · rintro ⟨i, hi, rfl, hused⟩
    exact ⟨⟨i, List.mem_range.mpr hi, rfl⟩, hused⟩

theorem firstFree_eq_some {i : Nat} (h : firstFree used n table = some i) :
    i < n ∧ used (table i) = false := by
  have hused := List.find?_some h
  have hmem := List.mem_of_find?_eq_some h
  exact ⟨List.mem_range.mp hmem, by simpa using hused⟩

theorem occupied_congr {table' : Nat → α} (h : ∀ i < n, table i = table' i) :
    occupied used n table = occupied used n table' := by
  rw [occupied, occupied, List.map_congr_left]
  exact fun i hi ↦ h i (List.mem_range.mp hi)

/-- When no two items held have one key, each key is in one slot. -/
theorem eq_of_key {κ : Type u} {key : α → κ} (h : ((occupied used n table).map key).Nodup)
    {i j : Nat} (hi : i < n) (hj : j < n) (hused : used (table i) = true)
    (hused' : used (table j) = true) (heq : key (table i) = key (table j)) : i = j := by
  rw [occupied, List.filter_map, List.map_map] at h
  apply List.inj_on_of_nodup_map h
  · exact List.mem_filter.mpr ⟨List.mem_range.mpr hi, hused⟩
  · exact List.mem_filter.mpr ⟨List.mem_range.mpr hj, hused'⟩
  · exact heq

/-- No slot is free exactly when `n` items are held. -/
theorem firstFree_eq_none_iff :
    firstFree used n table = none ↔ (occupied used n table).length = n := by
  have hfull : (occupied used n table).length = n ↔
      (occupied used n table).length = ((List.range n).map table).length := by
    rw [List.length_map, List.length_range]
  rw [hfull, occupied, List.length_filter_eq_length_iff, firstFree, List.find?_eq_none]
  simp

/-- A change of one slot, seen in the list of all. -/
theorem map_update_range {i : Nat} (hi : i < n) (table : Nat → α) :
    ∃ before after : List α, (List.range n).map table = before ++ table i :: after ∧
      ∀ a, (List.range n).map (Function.update table i a) = before ++ a :: after := by
  obtain ⟨after, hrange, hafter⟩ := range_split hi
  have hupdate (a : α) {l : List Nat} (hl : ∀ j ∈ l, j ≠ i) :
      l.map (Function.update table i a) = l.map table := by
    apply List.map_congr_left
    intro j hj
    exact Function.update_of_ne (hl j hj) a table
  refine ⟨(List.range i).map table, after.map table, ?_, ?_⟩
  · rw [hrange, List.map_append, List.map_cons]
  · intro a
    rw [hrange, List.map_append, List.map_cons, Function.update_self, hupdate, hupdate]
    · exact fun j hj ↦ Nat.ne_of_gt (hafter j hj).1
    · exact fun j hj ↦ Nat.ne_of_lt (List.mem_range.mp hj)

/-- An item put into a free slot is held from then on. -/
theorem occupied_fill {i : Nat} (hi : i < n) (hfree : used (table i) = false) {a : α}
    (ha : used a = true) :
    (occupied used n (Function.update table i a)).Perm (a :: occupied used n table) := by
  obtain ⟨before, after, hold, hnew⟩ := map_update_range hi table
  rw [occupied, occupied, hnew, hold, List.filter_append, List.filter_append,
    List.filter_cons_of_pos ha, List.filter_cons_of_neg (by simp [hfree])]
  exact List.perm_middle

/-- What is put into a free slot without making it one in use is not held. -/
theorem occupied_of_unused {i : Nat} (hi : i < n) (hfree : used (table i) = false) {a : α}
    (ha : used a = false) :
    occupied used n (Function.update table i a) = occupied used n table := by
  obtain ⟨before, after, hold, hnew⟩ := map_update_range hi table
  rw [occupied, occupied, hnew, hold, List.filter_append, List.filter_append,
    List.filter_cons_of_neg (by simp [ha]), List.filter_cons_of_neg (by simp [hfree])]

/-- Clearing the slots that pass a test takes what they hold off the list. -/
theorem occupied_clear (n : Nat) (table : Nat → α) (test : α → Bool) {empty : α}
    (hempty : used empty = false) :
    occupied used n (fun i ↦ if test (table i) then empty else table i) =
      (occupied used n table).filter fun a ↦ !test a := by
  rw [occupied, occupied]
  induction List.range n with
  | nil => rfl
  | cons i is ih =>
      rw [List.map_cons, List.map_cons]
      cases htest : test (table i) with
      | true =>
          rw [if_pos rfl, List.filter_cons_of_neg (by simp [hempty]), ih]
          cases hused : used (table i) with
          | true => rw [List.filter_cons_of_pos hused, List.filter_cons_of_neg (by simp [htest])]
          | false => rw [List.filter_cons_of_neg (by simp [hused])]
      | false =>
          rw [if_neg (by simp)]
          cases hused : used (table i) with
          | true =>
              rw [List.filter_cons_of_pos hused, List.filter_cons_of_pos hused,
                List.filter_cons_of_pos (by simp [htest]), ih]
          | false =>
              rw [List.filter_cons_of_neg (by simp [hused]),
                List.filter_cons_of_neg (by simp [hused]), ih]

end lemmas

end Hypervi.Slots
