import Hypervi.Memory.Patch
import Hypervi.Memory.Runs

/-!
# Images at two bases

Runs and patches that are placed at an offset from a base, and what becomes of them when the
base is another one.

The runs put the same bytes at the same offsets (`overwrite_rebase`).  A patch adds the base to
its word or replaces the word by a value that does not depend on the base.  So the word differs
at the two bases by a multiple of the difference of these: as many times as the base has been
added since the word was last replaced (`load64_rebase`).
-/

namespace Hypervi.Memory

universe u

theorem add_sub_add_left (base x y : BitVec 64) : base + x - (base + y) = x - y := by
  rw [← BitVec.sub_sub, BitVec.add_comm base x, BitVec.add_sub_cancel]

/-! ## Runs -/

section runs

variable {α : Type u} {f f' : α → Run} {as : List α} {x x' : BitVec 64} {m m' : Mem}

/-- Runs that are over the one byte when they are over the other, with the same bytes. -/
theorem overwrite_rebase (hover : ∀ a ∈ as, (f' a).Over x' ↔ (f a).Over x)
    (hat : ∀ a ∈ as, (f' a).at' x' = (f a).at' x)
    (hmem : (∀ a ∈ as, ¬ (f a).Over x) → m' x' = m x) :
    overwrite (as.map f') m' x' = overwrite (as.map f) m x := by
  rcases last_or_none f as x with ⟨before, a, after, rfl, ha, hafter⟩ | hnone
  · have hmem : a ∈ before ++ a :: after := List.mem_append_right _ List.mem_cons_self
    have hlater {b : α} (hb : b ∈ after) : b ∈ before ++ a :: after :=
      List.mem_append_right _ (List.mem_cons_of_mem _ hb)
    rw [overwrite_map_of_last ha hafter, overwrite_map_of_last ((hover a hmem).mpr ha)
      (fun b hb h ↦ hafter b hb ((hover b (hlater hb)).mp h)), hat a hmem]
  · have hnone' : ∀ a ∈ as, ¬ (f' a).Over x' := fun a ha h ↦ hnone a ha ((hover a ha).mp h)
    rw [overwrite_map_of_none hnone, overwrite_map_of_none hnone']
    exact hmem hnone

end runs

/-! ## Patches -/

/-- What a patch does to its word. -/
inductive WordOp where
  | addBase
  | put (value : BitVec 64)
  deriving DecidableEq

/-- A patch at an offset from a base that is not known yet. -/
structure OffsetPatch where
  offset : BitVec 64
  op : WordOp

namespace OffsetPatch

def apply (base : BitVec 64) : WordOp → BitVec 64 → BitVec 64
  | .addBase, v => v + base
  | .put value, _ => value

/-- The patch at a base. -/
def at' (base : BitVec 64) (p : OffsetPatch) : Patch := ⟨base + p.offset, apply base p.op⟩

theorem target_at' (base : BitVec 64) (p : OffsetPatch) :
    (p.at' base).target = base + p.offset := rfl

end OffsetPatch

/-- How many times the base has been added to the word at an offset since the word was last
replaced, when it has been `n` times before. -/
def basesFrom (ps : List OffsetPatch) (offset : BitVec 64) (n : Nat) : Nat :=
  ps.foldl (fun n p ↦
    if p.offset = offset then
      match p.op with
      | .addBase => n + 1
      | .put _ => 0
    else n) n

/-- The same for a word that the patches start from. -/
def bases (ps : List OffsetPatch) (offset : BitVec 64) : Nat := basesFrom ps offset 0

section rebase

variable {ps : List OffsetPatch} {base base' offset : BitVec 64} {m m' : Mem}

theorem add_left_cancel_iff {x y : BitVec 64} : base + x = base + y ↔ x = y := by
  constructor
  · intro h
    rw [← BitVec.add_sub_cancel x base, BitVec.add_comm x, h, BitVec.add_comm base,
      BitVec.add_sub_cancel]
  · rintro rfl
    rfl

theorem patchWord_rebase (ps : List OffsetPatch) (n : Nat) {v v' : BitVec 64}
    (hv : v' = v + BitVec.ofNat 64 n * (base' - base)) :
    patchWord (ps.map (·.at' base')) (base' + offset) v' =
      patchWord (ps.map (·.at' base)) (base + offset) v +
        BitVec.ofNat 64 (basesFrom ps offset n) * (base' - base) := by
  induction ps generalizing n v v' with
  | nil => exact hv
  | cons p ps ih =>
      have hsplit (n : Nat) : basesFrom (p :: ps) offset n = basesFrom ps offset
          (if p.offset = offset then
            match p.op with
            | .addBase => n + 1
            | .put _ => 0
          else n) := rfl
      rw [List.map_cons, List.map_cons, patchWord_cons, patchWord_cons, hsplit]
      apply ih
      by_cases hoffset : p.offset = offset
      · simp only [hoffset, if_true, OffsetPatch.at']
        cases p.op with
        | addBase =>
            have hone : BitVec.ofNat 64 (n + 1) = BitVec.ofNat 64 n + 1 := BitVec.ofNat_add n 1
            simp only [OffsetPatch.apply, hv, hone]
            grind
        | put value =>
            simp only [OffsetPatch.apply]
            rw [BitVec.zero_mul, BitVec.add_zero]
      · simp only [OffsetPatch.target_at', add_left_cancel_iff, hoffset, if_false, hv]

theorem separated_add_iff {x y : BitVec 64} :
    Separated (base + x) (base + y) ↔ Separated x y := by
  rw [Separated, Separated, add_left_cancel_iff, Apart, Apart, add_sub_add_left, add_sub_add_left]

/-- The word at an offset that the targets are separated from. -/
theorem load64_rebase (hsep : ∀ p ∈ ps, Separated p.offset offset)
    (hword : load64 m' (base' + offset) = load64 m (base + offset)) :
    load64 (patchAll (ps.map (·.at' base')) m') (base' + offset) =
      load64 (patchAll (ps.map (·.at' base)) m) (base + offset) +
        BitVec.ofNat 64 (bases ps offset) * (base' - base) := by
  have hsep' (base : BitVec 64) :
      ∀ q ∈ ps.map (·.at' base), Separated q.target (base + offset) := by
    intro q hq
    obtain ⟨p, hp, rfl⟩ := List.mem_map.mp hq
    exact separated_add_iff.mpr (hsep p hp)
  rw [load64_patchAll (hsep' base'), load64_patchAll (hsep' base)]
  apply patchWord_rebase
  rw [hword, BitVec.zero_mul, BitVec.add_zero]

end rebase

end Hypervi.Memory
