import Hypervi.Memory.Patch

/-!
# Patches in another order

Two patches may be made in either order when they have no byte in common, or when they have
the same target and their functions commute (`Patch.Commutes`).  So may blocks of them
(`patchAll_exchange`).

Two lists of patches with the same targets are compared in two parts (`patchAll_eq_of_words`).
A target that is separated from all others is compared as a word; the patches of the others,
which share bytes, are compared as lists.
-/

namespace Hypervi.Memory

/-! ## Patches that commute -/

namespace Patch

/-- The two may be made in either order. -/
def Commutes (p q : Patch) : Prop :=
  Apart p.target 8 q.target 8 ∨ p.target = q.target ∧ ∀ v, p.op (q.op v) = q.op (p.op v)

variable {p q : Patch}

theorem Commutes.apply (h : p.Commutes q) (m : Mem) :
    p.apply (q.apply m) = q.apply (p.apply m) := by
  rcases h with hapart | ⟨heq, hop⟩
  · have hback : Apart q.target 8 p.target 8 := ⟨hapart.2, hapart.1⟩
    have hp : load64 (q.apply m) p.target = load64 m p.target := load_store_of_apart hback
    have hq : load64 (p.apply m) q.target = load64 m q.target := load_store_of_apart hapart
    have hpq : p.apply (q.apply m) =
        store64 (q.apply m) p.target (p.op (load64 m p.target)) := by rw [← hp]; rfl
    have hqp : q.apply (p.apply m) =
        store64 (p.apply m) q.target (q.op (load64 m q.target)) := by rw [← hq]; rfl
    rw [hpq, hqp]
    funext x
    by_cases hx : (x - p.target).toNat < 8
    · simp only [store64, Patch.apply, store, if_pos hx, if_neg (hback.not_lt hx)]
    · simp only [store64, Patch.apply, store, if_neg hx]
  · have hp : load64 (q.apply m) p.target = q.op (load64 m p.target) := by
      rw [heq]
      exact load_store_self (by decide) m _ _
    have hq : load64 (p.apply m) q.target = p.op (load64 m q.target) := by
      rw [← heq]
      exact load_store_self (by decide) m _ _
    have hpq : p.apply (q.apply m) = store64 m p.target (p.op (q.op (load64 m p.target))) := by
      rw [← hp]
      change store64 (store64 m q.target _) p.target _ = _
      rw [← heq]
      exact store_store_self 8 m p.target _ _
    have hqp : q.apply (p.apply m) = store64 m q.target (q.op (p.op (load64 m q.target))) := by
      rw [← hq]
      change store64 (store64 m p.target _) q.target _ = _
      rw [heq]
      exact store_store_self 8 m q.target _ _
    rw [hpq, hqp, heq, hop]

end Patch

/-- A patch and a block. -/
theorem patchAll_apply_comm {p : Patch} {qs : List Patch} (h : ∀ q ∈ qs, p.Commutes q)
    (m : Mem) : patchAll qs (p.apply m) = p.apply (patchAll qs m) := by
  induction qs generalizing m with
  | nil => rfl
  | cons q qs ih =>
      rw [patchAll_cons, patchAll_cons, ← (h q List.mem_cons_self).apply]
      exact ih (fun q' hq' ↦ h q' (List.mem_cons_of_mem q hq')) (q.apply m)

/-- Two blocks. -/
theorem patchAll_comm {ps qs : List Patch} (h : ∀ p ∈ ps, ∀ q ∈ qs, p.Commutes q) (m : Mem) :
    patchAll (ps ++ qs) m = patchAll (qs ++ ps) m := by
  rw [patchAll_append, patchAll_append]
  induction ps generalizing m with
  | nil => rfl
  | cons p ps ih =>
      rw [patchAll_cons, patchAll_cons,
        ih (fun p' hp' ↦ h p' (List.mem_cons_of_mem p hp')) (p.apply m),
        patchAll_apply_comm (h p List.mem_cons_self)]

/-- The first and the last of three blocks. -/
theorem patchAll_exchange {as bs cs : List Patch} (hab : ∀ p ∈ as, ∀ q ∈ bs, p.Commutes q)
    (hac : ∀ p ∈ as, ∀ q ∈ cs, p.Commutes q) (hbc : ∀ p ∈ bs, ∀ q ∈ cs, p.Commutes q)
    (m : Mem) : patchAll (as ++ (bs ++ cs)) m = patchAll (cs ++ (bs ++ as)) m := by
  have habc : ∀ p ∈ as, ∀ q ∈ cs ++ bs, p.Commutes q := by
    intro p hp q hq
    rcases List.mem_append.mp hq with hq | hq
    · exact hac p hp q hq
    · exact hab p hp q hq
  rw [← List.append_assoc cs, ← patchAll_comm habc, patchAll_append, patchAll_append as,
    patchAll_comm hbc]

/-! ## Words that share bytes, and words that do not -/

section compare

/-- A target that shares bytes with the word at `t`, and is another word. -/
def Overlapped (ps : List Patch) (t : BitVec 64) : Prop := ∃ p ∈ ps, ¬ Separated p.target t

theorem not_overlapped_iff {ps : List Patch} {t : BitVec 64} :
    ¬ Overlapped ps t ↔ ∀ p ∈ ps, Separated p.target t := by
  simp only [Overlapped, not_exists, not_and, not_not]

/-- A byte of a target that is separated from all others. -/
def InSeparated (ps : List Patch) (x : BitVec 64) : Prop :=
  ∃ p ∈ ps, ¬ Overlapped ps p.target ∧ (x - p.target).toNat < 8

/-- Leaving out some patches changes no byte but theirs, when the others do not look at it. -/
theorem patchAll_filter {P : Patch → Prop} [DecidablePred P] {left : BitVec 64 → Prop}
    {ps : List Patch} (hleft : ∀ p ∈ ps, ¬ P p → ∀ x, (x - p.target).toNat < 8 → left x)
    (hkept : ∀ p ∈ ps, P p → ∀ x, (x - p.target).toNat < 8 → ¬ left x) {m m' : Mem}
    (h : ∀ x, ¬ left x → m x = m' x) {x : BitVec 64} (hx : ¬ left x) :
    patchAll (ps.filter P) m x = patchAll ps m' x := by
  induction ps generalizing m m' with
  | nil => exact h x hx
  | cons p ps ih =>
      have hleft' := fun q hq ↦ hleft q (List.mem_cons_of_mem p hq)
      have hkept' := fun q hq ↦ hkept q (List.mem_cons_of_mem p hq)
      by_cases hp : P p
      · rw [List.filter_cons_of_pos (by simpa using hp), patchAll_cons, patchAll_cons]
        refine ih hleft' hkept' fun y hy ↦ ?_
        have hload : load64 m p.target = load64 m' p.target := by
          refine load_congr fun i hi ↦ h _ (hkept p List.mem_cons_self hp _ ?_)
          rw [toNat_add_sub_self _ (by omega)]
          exact hi
        rw [Patch.apply, Patch.apply, hload]
        simp only [store64, store, h y hy]
      · rw [List.filter_cons_of_neg (by simpa using hp), patchAll_cons]
        refine ih hleft' hkept' fun y hy ↦ ?_
        have hout : ¬ (y - p.target).toNat < 8 := fun hin ↦ hy (hleft p List.mem_cons_self hp y hin)
        rw [h y hy]
        exact (if_neg hout).symm

variable {ps qs : List Patch} {m : Mem}

/-- Lists with the same targets leave the same memory when they leave the words that are
separated from all others the same, and so do their patches of the words that are not. -/
theorem patchAll_eq_of_words [DecidablePred (Overlapped ps)]
    (hsame : ∀ t, (∃ p ∈ ps, p.target = t) ↔ ∃ q ∈ qs, q.target = t)
    (hwords : ∀ p ∈ ps, ¬ Overlapped ps p.target →
      patchWord qs p.target (load64 m p.target) = patchWord ps p.target (load64 m p.target))
    (hshared : patchAll (qs.filter fun q ↦ Overlapped ps q.target) m =
      patchAll (ps.filter fun p ↦ Overlapped ps p.target) m) :
    patchAll qs m = patchAll ps m := by
  have hqsep {t : BitVec 64} (ht : ¬ Overlapped ps t) : ∀ q ∈ qs, Separated q.target t := by
    intro q hq
    obtain ⟨p, hp, heq⟩ := (hsame q.target).mpr ⟨q, hq, rfl⟩
    rw [← heq]
    exact not_overlapped_iff.mp ht p hp
  funext x
  by_cases hx : InSeparated ps x
  · obtain ⟨p, hp, hfree, hlt⟩ := hx
    refine byte_eq_of_load64_eq ?_ hlt
    rw [load64_patchAll (hqsep hfree), load64_patchAll (not_overlapped_iff.mp hfree),
      hwords p hp hfree]
  · -- the word of a shared target has no byte of a separated one
    have hapart : ∀ t, (∃ p ∈ ps, p.target = t) → Overlapped ps t → ∀ y, (y - t).toNat < 8 →
        ¬ InSeparated ps y := by
      rintro t ⟨p, hp, rfl⟩ hshare y hy ⟨p', hp', hfree, hy'⟩
      rcases not_overlapped_iff.mp hfree p hp with heq | hsep
      · exact hfree (heq ▸ hshare)
      · exact hsep.not_lt hy' hy
    have hps : patchAll (ps.filter fun p ↦ Overlapped ps p.target) m x = patchAll ps m x :=
      patchAll_filter (fun p hp hfree y hy ↦ ⟨p, hp, hfree, hy⟩)
        (fun p hp hshare ↦ hapart p.target ⟨p, hp, rfl⟩ hshare) (fun _ _ ↦ rfl) hx
    have hqs : patchAll (qs.filter fun q ↦ Overlapped ps q.target) m x = patchAll qs m x := by
      refine patchAll_filter (fun q hq hfree y hy ↦ ?_) (fun q hq hshare ↦ ?_) (fun _ _ ↦ rfl) hx
      · obtain ⟨p, hp, heq⟩ := (hsame q.target).mpr ⟨q, hq, rfl⟩
        refine ⟨p, hp, ?_, ?_⟩
        · rw [heq]
          exact hfree
        · rw [heq]
          exact hy
      · exact hapart q.target ((hsame q.target).mpr ⟨q, hq, rfl⟩) hshare
    rw [← hqs, hshared, hps]

/-- The words that are separated from all others are the same when memory is. -/
theorem patchWord_eq_of_patchAll_eq
    (hsame : ∀ t, (∃ p ∈ ps, p.target = t) ↔ ∃ q ∈ qs, q.target = t)
    (heq : patchAll qs m = patchAll ps m) {t : BitVec 64} (ht : ¬ Overlapped ps t) :
    patchWord qs t (load64 m t) = patchWord ps t (load64 m t) := by
  have hqsep : ∀ q ∈ qs, Separated q.target t := by
    intro q hq
    obtain ⟨p, hp, heq⟩ := (hsame q.target).mpr ⟨q, hq, rfl⟩
    rw [← heq]
    exact not_overlapped_iff.mp ht p hp
  rw [← load64_patchAll hqsep, ← load64_patchAll (not_overlapped_iff.mp ht), heq]

end compare

end Hypervi.Memory
