import Mathlib.Tactic.Common
import Mathlib.Logic.Function.Basic
import Mathlib.Data.List.Basic

/-!
# A store filled by a sequence of writes

A store is a function from keys to values, filled key by key from a list of
writes.  The store may refuse a key, and a write to a refused key changes
nothing.  When no key is written twice the order of the writes does not matter,
and the list reads as a table:

* `applyWrites_of_lookup` is the value of a key that the table has;
* `applyWrites_of_not_mem` is the frame: any other key keeps its value.
-/

namespace Hypervi.Store

universe u v

variable {α : Type u} {β : Type v} [DecidableEq α]

/-- One write. -/
def write (accepts : α → Bool) (s : α → β) (k : α) (v : β) : α → β :=
  if accepts k then Function.update s k v else s

/-- The writes in order. -/
def applyWrites (accepts : α → Bool) (writes : List (α × β)) (s : α → β) : α → β :=
  writes.foldl (fun s w ↦ write accepts s w.1 w.2) s

variable {accepts : α → Bool} {writes : List (α × β)} {k : α} {v : β} {s : α → β}

theorem applyWrites_cons (w : α × β) (writes : List (α × β)) (s : α → β) :
    applyWrites accepts (w :: writes) s =
      applyWrites accepts writes (write accepts s w.1 w.2) := rfl

theorem write_of_accepts (h : accepts k = true) : write accepts s k v k = v := by
  rw [write, if_pos h, Function.update_self]

theorem write_of_ne {j : α} (h : k ≠ j) : write accepts s j v k = s k := by
  rw [write]
  split
  · exact Function.update_of_ne h v s
  · rfl

/-- A key that is not written keeps its value. -/
theorem applyWrites_of_not_mem (h : k ∉ writes.map Prod.fst) :
    applyWrites accepts writes s k = s k := by
  induction writes generalizing s with
  | nil => rfl
  | cons w writes ih =>
      rw [List.map_cons, List.mem_cons, not_or] at h
      rw [applyWrites_cons, ih h.2, write_of_ne h.1]

/-- When no key is written twice, an accepted key reads the value that the list of
writes has for it. -/
theorem applyWrites_of_lookup (hnodup : (writes.map Prod.fst).Nodup) (haccepts : accepts k = true)
    (h : writes.lookup k = some v) : applyWrites accepts writes s k = v := by
  induction writes generalizing s with
  | nil => exact absurd h (by simp)
  | cons w writes ih =>
      obtain ⟨j, u⟩ := w
      obtain ⟨hj, htail⟩ := List.nodup_cons.mp hnodup
      rw [applyWrites_cons]
      rw [List.lookup_cons] at h
      by_cases hk : k = j
      · subst hk
        rw [applyWrites_of_not_mem hj, write_of_accepts haccepts]
        simpa using h
      · rw [beq_eq_false_iff_ne.mpr hk] at h
        exact ih htail h

end Hypervi.Store
