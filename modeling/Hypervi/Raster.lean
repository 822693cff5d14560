import Mathlib.Tactic.Common
import Mathlib.Data.List.Basic

/-!
# Rectangles painted on a picture

A picture is a map from places to pixels.  A tile is a rectangle of it with what is to be
painted there, and `paintAll` paints tiles one after the other.

* `paintAll_eq_of_covers` and `paintAll_eq_of_not_covers` are its rules: a place has what the
  tiles that cover it agree on, and what it had before when no tile covers it.
* `covers_grid_iff` finds the tile of a grid that covers a place.
-/

namespace Hypervi.Raster

universe u

variable {α : Type u}

/-- A pixel for each column and row. -/
abbrev Picture (α : Type u) := Nat → Nat → α

/-- A rectangle, and the pixel for each offset in it. -/
structure Tile (α : Type u) where
  left : Nat
  top : Nat
  width : Nat
  height : Nat
  pixel : Picture α

namespace Tile

/-- The place is in the rectangle. -/
def Covers (t : Tile α) (x y : Nat) : Prop :=
  t.left ≤ x ∧ x < t.left + t.width ∧ t.top ≤ y ∧ y < t.top + t.height

instance (t : Tile α) (x y : Nat) : Decidable (t.Covers x y) :=
  inferInstanceAs (Decidable (_ ∧ _))

/-- What the tile has at a place that it covers. -/
def pixelAt (t : Tile α) (x y : Nat) : α := t.pixel (x - t.left) (y - t.top)

/-- The picture with the tile on it. -/
def paint (t : Tile α) (p : Picture α) : Picture α := fun x y ↦
  if t.Covers x y then t.pixelAt x y else p x y

theorem paint_of_covers {t : Tile α} {x y : Nat} (h : t.Covers x y) (p : Picture α) :
    t.paint p x y = t.pixelAt x y := if_pos h

theorem paint_of_not_covers {t : Tile α} {x y : Nat} (h : ¬ t.Covers x y) (p : Picture α) :
    t.paint p x y = p x y := if_neg h

end Tile

/-- The tiles are painted in order. -/
def paintAll (ts : List (Tile α)) (p : Picture α) : Picture α := ts.foldl (fun p t ↦ t.paint p) p

section paintAll

variable {ts : List (Tile α)} {x y : Nat}

theorem paintAll_eq_of_not_covers (h : ∀ t ∈ ts, ¬ t.Covers x y) (p : Picture α) :
    paintAll ts p x y = p x y := by
  induction ts generalizing p with
  | nil => rfl
  | cons t ts ih =>
      obtain ⟨ht, hts⟩ := List.forall_mem_cons.mp h
      exact (ih hts (t.paint p)).trans (Tile.paint_of_not_covers ht p)

/-- Where the tiles that cover a place agree, it does not matter which of them is the last. -/
theorem paintAll_eq_of_covers {a : α} (hagree : ∀ t ∈ ts, t.Covers x y → t.pixelAt x y = a)
    (hcovers : ∃ t ∈ ts, t.Covers x y) (p : Picture α) : paintAll ts p x y = a := by
  induction ts generalizing p with
  | nil => exact absurd hcovers (by simp)
  | cons t ts ih =>
      obtain ⟨ht, hts⟩ := List.forall_mem_cons.mp hagree
      by_cases hlater : ∃ u ∈ ts, u.Covers x y
      · exact ih hts hlater (t.paint p)
      · -- the tile itself is the last one there
        have hself : t.Covers x y := by
          obtain ⟨u, hu, hcover⟩ := hcovers
          rcases List.mem_cons.mp hu with rfl | hu
          · exact hcover
          · exact absurd ⟨u, hu, hcover⟩ hlater
        have hrest := paintAll_eq_of_not_covers 
          (show ∀ u ∈ ts, ¬ u.Covers x y from fun u hu hcover ↦ hlater ⟨u, hu, hcover⟩) (t.paint p)
        exact hrest.trans ((Tile.paint_of_covers hself p).trans (ht hself))

end paintAll

/-! ## Grids -/

/-- A place in a row of intervals is in the one that the division says. -/
theorem interval_iff {w i x : Nat} (hw : 0 < w) : i * w ≤ x ∧ x < i * w + w ↔ i = x / w := by
  rw [eq_comm, Nat.div_eq_iff hw, Nat.mul_comm]
  constructor
  · rintro ⟨hle, hlt⟩
    exact ⟨hle, by omega⟩
  · rintro ⟨hle, hlt⟩
    exact ⟨hle, by omega⟩

/-- The tile of a grid of cells of one size that covers a place. -/
theorem covers_grid_iff (pixel : Picture α) (i j x y : Nat) {w h : Nat} (hw : 0 < w) (hh : 0 < h) :
    (⟨i * w, j * h, w, h, pixel⟩ : Tile α).Covers x y ↔ i = x / w ∧ j = y / h := by
  rw [Tile.Covers, ← interval_iff hw, ← interval_iff hh, and_assoc]

/-- The offset in the tile of a grid. -/
theorem pixelAt_grid (pixel : Picture α) (w h x y : Nat) :
    (⟨x / w * w, y / h * h, w, h, pixel⟩ : Tile α).pixelAt x y = pixel (x % w) (y % h) := by
  have hmod (n k : Nat) : n - n / k * k = n % k := by
    have hdiv := Nat.div_add_mod n k
    rw [Nat.mul_comm] at hdiv
    omega
  rw [Tile.pixelAt, hmod, hmod]

end Hypervi.Raster
