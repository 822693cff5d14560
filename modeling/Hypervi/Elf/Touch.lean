import Mathlib.Data.List.Induction
import Mathlib.Tactic.Common

/-!
# What happens to a word, in order

A word is touched by adding the base to it, or by storing an address over it.  It ends as the
last address that is bound to it, or else as it was, with the base added once for each later
addition (`foldl_touch`).

When the first and the last of three parts of a list of touches change places, and addresses
may depend on the place, the word ends as before exactly on the equation of `Exchangeable`: which
one, depends on the parts that bind the word.
-/

namespace Hypervi.Elf

universe u v

/-- The base is added to the word, or an address is bound to it: `α` tells which. -/
inductive Touch (α : Type u) where
  | rebase
  | bind (a : α)
deriving DecidableEq

namespace Touch

section lists

variable {α : Type u} {β : Type v}

def map (f : α → β) : Touch α → Touch β
  | rebase => rebase
  | bind a => bind (f a)

def bound : Touch α → Option α
  | rebase => none
  | bind a => some a

/-- The last one that is bound. -/
def lastBound (ts : List (Touch α)) : Option α := ts.reverse.findSome? bound

/-- The number of additions after it. -/
def rebasesAfter (ts : List (Touch α)) : Nat :=
  (ts.reverse.takeWhile fun e ↦ e.bound.isNone).length

theorem bound_map (f : α → β) (e : Touch α) : (e.map f).bound = e.bound.map f := by
  cases e with
  | rebase => rfl
  | bind a => rfl

theorem lastBound_map (f : α → β) (ts : List (Touch α)) :
    lastBound (ts.map (map f)) = (lastBound ts).map f := by
  rw [lastBound, lastBound, ← List.map_reverse, List.findSome?_map, List.map_findSome?]
  congr 1
  funext e
  exact bound_map f e

theorem rebasesAfter_map (f : α → β) (ts : List (Touch α)) :
    rebasesAfter (ts.map (map f)) = rebasesAfter ts := by
  rw [rebasesAfter, rebasesAfter, ← List.map_reverse, List.takeWhile_map, List.length_map]
  congr 2
  funext e
  simp only [Function.comp_apply, bound_map, Option.isNone_map]

theorem lastBound_eq_none_iff {ts : List (Touch α)} :
    lastBound ts = none ↔ ∀ e ∈ ts, e.bound = none := by
  simp only [lastBound, List.findSome?_eq_none_iff, List.mem_reverse]

end lists

/-! ## The word -/

section word

variable (mapped : BitVec 64)

def apply : Touch (BitVec 64) → BitVec 64 → BitVec 64
  | rebase, v => v + mapped
  | bind address, _ => address

/-- What becomes of a word. -/
def settle (ts : List (Touch (BitVec 64))) (v : BitVec 64) : BitVec 64 :=
  (lastBound ts).getD v + BitVec.ofNat 64 (rebasesAfter ts) * mapped

theorem settle_append_rebase (ts : List (Touch (BitVec 64))) (v : BitVec 64) :
    settle mapped (ts ++ [rebase]) v = settle mapped ts v + mapped := by
  have hlast : lastBound (ts ++ [rebase]) = lastBound ts := by
    rw [lastBound, List.reverse_append, List.reverse_singleton, List.singleton_append,
      List.findSome?_cons]
    rfl
  have hafter : rebasesAfter (ts ++ [rebase]) = rebasesAfter ts + 1 := by
    rw [rebasesAfter, List.reverse_append, List.reverse_singleton, List.singleton_append,
      List.takeWhile_cons_of_pos rfl, List.length_cons]
    rfl
  rw [settle, hlast, hafter, BitVec.ofNat_add, BitVec.add_mul, BitVec.one_mul, ← BitVec.add_assoc]
  rfl

theorem settle_append_bind (ts : List (Touch (BitVec 64))) (address v : BitVec 64) :
    settle mapped (ts ++ [bind address]) v = address := by
  have hlast : lastBound (ts ++ [bind address]) = some address := by
    rw [lastBound, List.reverse_append, List.reverse_singleton, List.singleton_append,
      List.findSome?_cons]
    rfl
  have hafter : rebasesAfter (ts ++ [bind address]) = 0 := by
    rw [rebasesAfter, List.reverse_append, List.reverse_singleton, List.singleton_append,
      List.takeWhile_cons_of_neg (by simp [bound]), List.length_nil]
  rw [settle, hlast, hafter, BitVec.zero_mul, BitVec.add_zero, Option.getD_some]

/-- One touch after the other. -/
theorem foldl_touch (ts : List (Touch (BitVec 64))) (v : BitVec 64) :
    ts.foldl (fun v e ↦ e.apply mapped v) v = settle mapped ts v := by
  induction ts using List.reverseRecOn with
  | nil => simp [settle, lastBound, rebasesAfter]
  | append_singleton ts e ih =>
      rw [List.foldl_append, ih, List.foldl_cons, List.foldl_nil]
      cases e with
      | rebase => exact (settle_append_rebase mapped ts v).symm
      | bind address => exact (settle_append_bind mapped ts address v).symm

@[simp] theorem settle_nil (v : BitVec 64) : settle mapped [] v = v := by
  rw [← foldl_touch, List.foldl_nil]

theorem settle_append (ts us : List (Touch (BitVec 64))) (v : BitVec 64) :
    settle mapped (ts ++ us) v = settle mapped us (settle mapped ts v) := by
  rw [← foldl_touch, ← foldl_touch, ← foldl_touch, List.foldl_append]

variable {mapped}

theorem settle_of_some {ts : List (Touch (BitVec 64))} {a : BitVec 64} (h : lastBound ts = some a)
    (v : BitVec 64) : settle mapped ts v = a + BitVec.ofNat 64 (rebasesAfter ts) * mapped := by
  rw [settle, h, Option.getD_some]

theorem settle_of_none {ts : List (Touch (BitVec 64))} (h : lastBound ts = none) (v : BitVec 64) :
    settle mapped ts v = v + BitVec.ofNat 64 (rebasesAfter ts) * mapped := by
  rw [settle, h, Option.getD_none]

theorem settle_map_of_some {α : Type u} (f : α → BitVec 64) {ts : List (Touch α)} {a : α}
    (h : lastBound ts = some a) (v : BitVec 64) :
    settle mapped (ts.map (map f)) v = f a + BitVec.ofNat 64 (rebasesAfter ts) * mapped := by
  have hmap : lastBound (ts.map (map f)) = some (f a) := by rw [lastBound_map, h, Option.map_some]
  rw [settle_of_some hmap, rebasesAfter_map]

theorem settle_map_of_none {α : Type u} (f : α → BitVec 64) {ts : List (Touch α)}
    (h : lastBound ts = none) (v : BitVec 64) :
    settle mapped (ts.map (map f)) v = v + BitVec.ofNat 64 (rebasesAfter ts) * mapped := by
  have hmap : lastBound (ts.map (map f)) = none := by rw [lastBound_map, h, Option.map_none]
  rw [settle_of_none hmap, rebasesAfter_map]

end word

/-! ## An exchange -/

section exchange

variable {α : Type u} {β : Type v} (mapped : BitVec 64)

/-- What the exchange of `low` with `high` asks of a word.  `lowAt` and `highAt` are the
addresses that the two bind in their own places, and `lowAt'` and `highAt'` those that they bind
in the places of each other. -/
def Exchangeable (low : List (Touch α)) (lowAt lowAt' : α → BitVec 64)
    (middle : List (Touch (BitVec 64))) (high : List (Touch β)) (highAt highAt' : β → BitVec 64) :
    Prop :=
  let base (ts : Nat) := BitVec.ofNat 64 ts * mapped
  match lastBound low, lastBound middle, lastBound high with
  | none, none, none => True
  | none, some _, none => base (rebasesAfter high) = base (rebasesAfter low)
  | some a, none, none =>
      lowAt a + base (rebasesAfter middle + rebasesAfter high) = lowAt' a
  | some a, some b, none =>
      b + base (rebasesAfter middle + rebasesAfter high) = lowAt' a + base (rebasesAfter low)
  | none, none, some c =>
      highAt c = highAt' c + base (rebasesAfter middle + rebasesAfter low)
  | none, some b, some c =>
      highAt c + base (rebasesAfter high) = b + base (rebasesAfter middle + rebasesAfter low)
  | some a, _, some c =>
      highAt c + base (rebasesAfter high) = lowAt' a + base (rebasesAfter low)

variable {mapped} {low : List (Touch α)} {lowAt lowAt' : α → BitVec 64}
  {middle : List (Touch (BitVec 64))} {high : List (Touch β)} {highAt highAt' : β → BitVec 64}

/-- The word does not matter: what was in it is either in both or in neither. -/
theorem settle_exchange_iff (v : BitVec 64) :
    settle mapped (low.map (map lowAt) ++ (middle ++ high.map (map highAt))) v =
        settle mapped (high.map (map highAt') ++ (middle ++ low.map (map lowAt'))) v ↔
      Exchangeable mapped low lowAt lowAt' middle high highAt highAt' := by
  have hbase (n k : Nat) : BitVec.ofNat 64 (n + k) * mapped =
      BitVec.ofNat 64 n * mapped + BitVec.ofNat 64 k * mapped := by
    rw [BitVec.ofNat_add, BitVec.add_mul]
  have hmove (x y z w : BitVec 64) : x + y + z + w = x + (z + w) + y := by ac_rfl
  rw [settle_append, settle_append, settle_append, settle_append, Exchangeable]
  cases hlow : lastBound low with
  | none =>
      cases hmiddle : lastBound middle with
      | none =>
          cases hhigh : lastBound high with
          | none =>
              simp only [settle_map_of_none _ hlow, settle_map_of_none _ hhigh,
                settle_of_none hmiddle, iff_true]
              ac_rfl
          | some c =>
              simp only [settle_map_of_none _ hlow, settle_map_of_some _ hhigh,
                settle_of_none hmiddle, hbase]
              rw [hmove, BitVec.add_left_inj]
      | some b =>
          cases hhigh : lastBound high with
          | none =>
              simp only [settle_map_of_none _ hlow, settle_map_of_none _ hhigh,
                settle_of_some hmiddle]
              rw [BitVec.add_right_inj]
          | some c =>
              simp only [settle_map_of_none _ hlow, settle_map_of_some _ hhigh,
                settle_of_some hmiddle, hbase]
              rw [BitVec.add_assoc b]
  | some a =>
      cases hhigh : lastBound high with
      | none =>
          cases hmiddle : lastBound middle with
          | none =>
              simp only [settle_map_of_some _ hlow, settle_map_of_none _ hhigh,
                settle_of_none hmiddle, hbase]
              rw [hmove, BitVec.add_left_inj]
          | some b =>
              simp only [settle_map_of_some _ hlow, settle_map_of_none _ hhigh,
                settle_of_some hmiddle, hbase]
              rw [BitVec.add_assoc b]
      | some c =>
          simp only [settle_map_of_some _ hlow, settle_map_of_some _ hhigh]

end exchange

end Touch

end Hypervi.Elf
