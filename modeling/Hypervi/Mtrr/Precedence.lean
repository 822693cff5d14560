import Mathlib.Data.List.Induction
import Mathlib.Data.List.Perm.Basic
import Hypervi.Ia32.Memory

/-!
# Precedence of overlapping memory types

When several ranges contain an address, `ept_get_memory_type` folds their types
in table order, while the SDM states the outcome without an order: UC wins, WT
wins over WB, and a common type is kept.  `resolve` is the fold, `precedence` the
SDM's rule, and `resolve_eq_precedence` their agreement on the overlaps for which
the SDM defines an outcome.  Outside these overlaps the fold does depend on the
order.
-/

namespace Hypervi.Mtrr

open Ia32

/-- One step of the fold: the type found so far and the type of the next range,
neither of them UC. -/
def combine (result type : MemoryType) : MemoryType :=
  if type = memoryTypeWriteThrough ∧ result = memoryTypeWriteBack then memoryTypeWriteThrough
  else if type = memoryTypeWriteBack ∧ result = memoryTypeWriteThrough then memoryTypeWriteThrough
  else type

/-- The default type stands in when no range was found. -/
def settle (default result : MemoryType) : MemoryType :=
  if result = memoryTypeInvalid then default else result

/-- The type that ranges of the given types, in table order, give to an address. -/
def resolve (default : MemoryType) (types : List MemoryType) : MemoryType :=
  if memoryTypeUncacheable ∈ types then memoryTypeUncacheable
  else settle default (types.foldl combine memoryTypeInvalid)

/-- The SDM's rule. -/
def precedence (default : MemoryType) (types : List MemoryType) : MemoryType :=
  if memoryTypeUncacheable ∈ types then memoryTypeUncacheable
  else if memoryTypeWriteThrough ∈ types ∧ memoryTypeWriteBack ∈ types then
    memoryTypeWriteThrough
  else types.headD default

/-- The overlaps for which the SDM defines an outcome: all types are equal, or
one is UC, or all are WT or WB. -/
def DefinedOverlap (types : List MemoryType) : Prop :=
  (∃ t, ∀ s ∈ types, s = t) ∨ memoryTypeUncacheable ∈ types ∨
    ∀ s ∈ types, s = memoryTypeWriteThrough ∨ s = memoryTypeWriteBack

theorem resolve_of_mem {default : MemoryType} {types : List MemoryType}
    (h : memoryTypeUncacheable ∈ types) : resolve default types = memoryTypeUncacheable :=
  if_pos h

@[simp] theorem combine_self (t : MemoryType) : combine t t = t := by
  unfold combine
  split
  · next h => exact absurd (h.1.symm.trans h.2) (by decide)
  · split
    · next h => exact absurd (h.1.symm.trans h.2) (by decide)
    · rfl

@[simp] theorem combine_invalid (t : MemoryType) : combine memoryTypeInvalid t = t := by
  simp [combine, show memoryTypeInvalid ≠ memoryTypeWriteBack by decide,
    show memoryTypeInvalid ≠ memoryTypeWriteThrough by decide]

/-- Folding copies of one type over itself. -/
theorem foldl_combine_of_forall_eq {t : MemoryType} {types : List MemoryType}
    (h : ∀ s ∈ types, s = t) : types.foldl combine t = t := by
  induction types with
  | nil => rfl
  | cons s types ih =>
      rw [List.foldl_cons, h s List.mem_cons_self, combine_self]
      exact ih fun s' hs' ↦ h s' (List.mem_cons_of_mem _ hs')

/-- Once WT has been found, types that are WT or WB leave it. -/
theorem foldl_combine_writeThrough {types : List MemoryType}
    (h : ∀ s ∈ types, s = memoryTypeWriteThrough ∨ s = memoryTypeWriteBack) :
    types.foldl combine memoryTypeWriteThrough = memoryTypeWriteThrough := by
  induction types with
  | nil => rfl
  | cons s types ih =>
      have hs : combine memoryTypeWriteThrough s = memoryTypeWriteThrough := by
        rcases h s List.mem_cons_self with rfl | rfl <;> rfl
      rw [List.foldl_cons, hs]
      exact ih fun s' hs' ↦ h s' (List.mem_cons_of_mem _ hs')

/-- From WB on, types that are WT or WB give WT as soon as one is WT. -/
theorem foldl_combine_writeBack {types : List MemoryType}
    (h : ∀ s ∈ types, s = memoryTypeWriteThrough ∨ s = memoryTypeWriteBack) :
    types.foldl combine memoryTypeWriteBack =
      if memoryTypeWriteThrough ∈ types then memoryTypeWriteThrough else memoryTypeWriteBack := by
  induction types with
  | nil => rfl
  | cons s types ih =>
      have htail := fun s' hs' ↦ h s' (List.mem_cons_of_mem _ hs')
      rw [List.foldl_cons]
      rcases h s List.mem_cons_self with rfl | rfl
      · have hcombine :
            combine memoryTypeWriteBack memoryTypeWriteThrough = memoryTypeWriteThrough := rfl
        rw [hcombine, foldl_combine_writeThrough htail, if_pos List.mem_cons_self]
      · rw [combine_self, ih htail]
        simp [show memoryTypeWriteThrough ≠ memoryTypeWriteBack by decide]

/-- On the defined overlaps the fold is the SDM's rule.  The types have to be
legal: `MEMORY_TYPE_INVALID` would be taken for "no range found". -/
theorem resolve_eq_precedence {default : MemoryType} {types : List MemoryType}
    (hd : DefinedOverlap types) (hl : ∀ s ∈ types, s.Legal) :
    resolve default types = precedence default types := by
  unfold resolve precedence
  split
  · rfl
  · next huc =>
    cases types with
    | nil => simp [settle]
    | cons t types =>
        have ht : t ≠ memoryTypeInvalid := by
          rintro rfl
          exact absurd (hl _ List.mem_cons_self) (by decide)
        have htail := fun s hs ↦ hl s (List.mem_cons_of_mem t hs)
        rw [List.foldl_cons, combine_invalid]
        rcases hd with ⟨u, hu⟩ | h | h
        · have htu := hu t List.mem_cons_self
          have hfold : types.foldl combine t = t := foldl_combine_of_forall_eq fun s hs ↦
            (hu s (List.mem_cons_of_mem _ hs)).trans htu.symm
          rw [hfold, settle, if_neg ht, if_neg]
          · rfl
          · rintro ⟨h₁, h₂⟩
            exact absurd ((hu _ h₁).trans (hu _ h₂).symm) (by decide)
        · exact absurd h huc
        · have htypes := fun s hs ↦ h s (List.mem_cons_of_mem t hs)
          rcases h t List.mem_cons_self with rfl | rfl
          · rw [foldl_combine_writeThrough htypes]
            simp [settle, show memoryTypeWriteThrough ≠ memoryTypeInvalid by decide]
          · rw [foldl_combine_writeBack htypes]
            simp only [List.mem_cons, show memoryTypeWriteThrough ≠ memoryTypeWriteBack by decide,
              false_or, true_or, and_true, List.headD_cons]
            split <;> rfl

/-- The SDM's rule does not depend on the order of the ranges. -/
theorem precedence_perm {default : MemoryType} {types types' : List MemoryType}
    (hp : types.Perm types') (hd : DefinedOverlap types) :
    precedence default types = precedence default types' := by
  unfold precedence
  simp only [hp.mem_iff]
  split
  · rfl
  · next huc =>
    split
    · rfl
    · next hmix =>
      cases types with
      | nil => rw [List.nil_perm.mp hp]
      | cons t types =>
          cases types' with
          | nil => exact absurd (List.perm_nil.mp hp) (by simp)
          | cons t' types' =>
              have ht : t ∈ t' :: types' := hp.mem_iff.mp List.mem_cons_self
              have ht' : t' ∈ t :: types := hp.mem_iff.mpr List.mem_cons_self
              simp only [List.headD_cons]
              rcases hd with ⟨u, hu⟩ | h | h
              · exact (hu t List.mem_cons_self).trans (hu t' ht').symm
              · exact absurd (hp.mem_iff.mp h) huc
              · rcases h t List.mem_cons_self with rfl | rfl <;> rcases h t' ht' with rfl | rfl
                · rfl
                · exact absurd ⟨ht, List.mem_cons_self⟩ hmix
                · exact absurd ⟨List.mem_cons_self, ht⟩ hmix
                · rfl

/-! ## The last range -/

/-- The type of the last range, and WT instead of WB when the last range that is not WB is
WT.  The marker for "no range found" gives the default type, as no range does. -/
def lastType (default : MemoryType) (types : List MemoryType) : MemoryType :=
  match types.getLast? with
  | none => default
  | some t =>
      if t = memoryTypeWriteBack ∧
          (types.filter (· ≠ memoryTypeWriteBack)).getLast? = some memoryTypeWriteThrough then
        memoryTypeWriteThrough
      else if t = memoryTypeInvalid then default
      else t

theorem lastType_concat (default : MemoryType) (types : List MemoryType) (t : MemoryType) :
    lastType default (types ++ [t]) =
      if t = memoryTypeWriteBack then
        if (types.filter (· ≠ memoryTypeWriteBack)).getLast? = some memoryTypeWriteThrough then
          memoryTypeWriteThrough
        else memoryTypeWriteBack
      else if t = memoryTypeInvalid then default
      else t := by
  rw [lastType, List.getLast?_concat]
  by_cases ht : t = memoryTypeWriteBack
  · subst ht
    simp [show memoryTypeWriteBack ≠ memoryTypeInvalid by decide]
  · simp only [ht, false_and, if_false]

/-- A type that is not WB replaces what was found before. -/
theorem combine_of_ne {t : MemoryType} (ht : t ≠ memoryTypeWriteBack) (result : MemoryType) :
    combine result t = t := by
  unfold combine
  split
  · next h => exact h.1.symm
  · rw [if_neg fun h ↦ ht h.1]

theorem combine_writeBack (result : MemoryType) : combine result memoryTypeWriteBack =
    if result = memoryTypeWriteThrough then memoryTypeWriteThrough else memoryTypeWriteBack := by
  rw [combine, if_neg fun h ↦ absurd h.1 (by decide)]
  simp only [true_and]

/-- The fold is at WT when the last type that is not WB is WT. -/
theorem foldl_combine_eq_writeThrough_iff (types : List MemoryType) :
    types.foldl combine memoryTypeInvalid = memoryTypeWriteThrough ↔
      (types.filter (· ≠ memoryTypeWriteBack)).getLast? = some memoryTypeWriteThrough := by
  induction types using List.reverseRecOn with
  | nil => exact iff_of_false (by decide) (by decide)
  | append_singleton types t ih =>
      rw [List.foldl_append, List.foldl_cons, List.foldl_nil, List.filter_append]
      by_cases ht : t = memoryTypeWriteBack
      · subst ht
        have hnone : [memoryTypeWriteBack].filter (· ≠ memoryTypeWriteBack) = [] := rfl
        rw [combine_writeBack, hnone, List.append_nil, ← ih]
        split
        · next h => exact iff_of_true rfl h
        · next h => exact iff_of_false (by decide) h
      · have hone : [t].filter (· ≠ memoryTypeWriteBack) = [t] := by simp [ht]
        rw [combine_of_ne ht, hone, List.getLast?_concat, Option.some_inj]

/-- **The closed form of the fold**: without UC, the last range decides. -/
theorem resolve_eq_lastType {default : MemoryType} {types : List MemoryType}
    (h : memoryTypeUncacheable ∉ types) : resolve default types = lastType default types := by
  rw [resolve, if_neg h]
  rcases List.eq_nil_or_concat' types with rfl | ⟨types, t, rfl⟩
  · rfl
  · have hfold := foldl_combine_eq_writeThrough_iff types
    rw [List.foldl_append, List.foldl_cons, List.foldl_nil, lastType_concat]
    by_cases ht : t = memoryTypeWriteBack
    · subst ht
      rw [combine_writeBack, if_pos rfl]
      by_cases hwt : types.foldl combine memoryTypeInvalid = memoryTypeWriteThrough
      · rw [if_pos hwt, if_pos (hfold.mp hwt)]
        rfl
      · rw [if_neg hwt, if_neg (hfold.not.mp hwt)]
        rfl
    · rw [combine_of_ne ht, if_neg ht]
      rfl

/-! ## Legal types -/

/-- Ranges and default of legal types give legal types. -/
theorem resolve_legal {default : MemoryType} {types : List MemoryType} (hdef : default.Legal)
    (hl : ∀ s ∈ types, s.Legal) : (resolve default types).Legal := by
  have key : ∀ (l : List MemoryType) (r : MemoryType), (∀ s ∈ l, s.Legal) →
      (r = memoryTypeInvalid ∨ r.Legal) →
      l.foldl combine r = memoryTypeInvalid ∨ (l.foldl combine r).Legal := by
    intro l
    induction l with
    | nil => exact fun r _ hr ↦ hr
    | cons s l ih =>
        intro r hs hr
        refine ih _ (fun s' hs' ↦ hs s' (List.mem_cons_of_mem _ hs')) (Or.inr ?_)
        unfold combine
        split
        · decide
        · split
          · decide
          · exact hs s List.mem_cons_self
  unfold resolve settle
  split
  · decide
  · split
    · exact hdef
    · next h => exact (key types _ hl (Or.inl rfl)).resolve_left h

end Hypervi.Mtrr
