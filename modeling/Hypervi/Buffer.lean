import Hypervi.Control
import Mathlib.Logic.Function.Basic
import Mathlib.Data.List.Basic

/-!
# A buffer being filled

A buffer with a pointer into it, at which characters are stored one after the other, and a
record of the offsets that have been written.

* `Buffer.Holds` says what a row of characters has been stored, from an offset on.
* `Buffer.reverse` reverses the first characters in place, by swapping the two ends towards
  the middle; `holds_reverse` is its rule.
-/

namespace Hypervi

universe u

/-- What the buffer holds, the offset that the pointer has reached, and the offsets that
have been written. -/
structure Buffer (α : Type u) where
  contents : Nat → α
  ptr : Nat
  written : List Nat

namespace Buffer

variable {α : Type u}

section model

variable (b : Buffer α)

/-- `buff[k] = c` -/
def set (k : Nat) (c : α) : Buffer α :=
  { b with contents := Function.update b.contents k c, written := k :: b.written }

/-- `*(ptr++) = c` -/
def push (c : α) : Buffer α := { b.set b.ptr c with ptr := b.ptr + 1 }

/-- Characters in a row. -/
def pushes (cs : List α) : Buffer α := cs.foldl push b

/-- Two characters change places. -/
def swap (i j : Nat) : Buffer α := (b.set i (b.contents j)).set j (b.contents i)

/-- The first `n` characters are put in the opposite order. -/
def reverse (n : Nat) : Buffer α := forRange (n / 2) (fun i b ↦ b.swap i (n - i - 1)) b

/-- The characters lie in the buffer from `k` on. -/
def Holds (k : Nat) (cs : List α) : Prop := ∀ j c, cs[j]? = some c → b.contents (k + j) = c

end model

section push

variable {b : Buffer α}

@[simp] theorem set_contents_self (b : Buffer α) (k : Nat) (c : α) :
    (b.set k c).contents k = c := by
  simp only [set, Function.update_self]

theorem set_contents_of_ne {k j : Nat} (h : j ≠ k) (c : α) :
    (b.set k c).contents j = b.contents j := by
  simp only [set, Function.update_of_ne h]

theorem pushes_cons (b : Buffer α) (c : α) (cs : List α) :
    b.pushes (c :: cs) = (b.push c).pushes cs := rfl

theorem pushes_append (b : Buffer α) (cs ds : List α) :
    b.pushes (cs ++ ds) = (b.pushes cs).pushes ds := List.foldl_append

/-- A loop that stores one character again and again. -/
theorem forRange_push (n : Nat) (c : α) (b : Buffer α) :
    forRange n (fun _ b ↦ b.push c) b = b.pushes (List.replicate n c) := by
  induction n with
  | zero => rfl
  | succ n ih =>
      rw [forRange_succ, ih, List.replicate_succ', pushes_append]
      rfl

theorem pushes_ptr (b : Buffer α) (cs : List α) : (b.pushes cs).ptr = b.ptr + cs.length := by
  induction cs generalizing b with
  | nil => rfl
  | cons c cs ih =>
      rw [pushes_cons, ih, List.length_cons, Nat.add_comm cs.length, ← Nat.add_assoc]
      rfl

/-- What is before the pointer stays. -/
theorem pushes_contents_of_lt {k : Nat} (hk : k < b.ptr) (cs : List α) :
    (b.pushes cs).contents k = b.contents k := by
  induction cs generalizing b with
  | nil => rfl
  | cons c cs ih =>
      rw [pushes_cons, ih (Nat.lt_succ_of_lt hk)]
      exact set_contents_of_ne (Nat.ne_of_lt hk) c

theorem holds_pushes (b : Buffer α) (cs : List α) : (b.pushes cs).Holds b.ptr cs := by
  induction cs generalizing b with
  | nil => exact fun j c hc ↦ absurd hc (by simp)
  | cons c cs ih =>
      intro j d hd
      rw [pushes_cons]
      cases j with
      | zero =>
          rw [Nat.add_zero, pushes_contents_of_lt (Nat.lt_succ_self b.ptr)]
          exact (set_contents_self b b.ptr c).trans (Option.some.inj hd)
      | succ j =>
          have hnext := ih (b.push c) j d hd
          rw [← hnext, Nat.add_comm j 1, ← Nat.add_assoc]
          rfl

/-- What is written behind the characters leaves them. -/
theorem Holds.set {k j : Nat} {cs : List α} (h : b.Holds k cs) (hj : k + cs.length ≤ j) (c : α) :
    (b.set j c).Holds k cs := by
  intro i d hd
  obtain ⟨hi, -⟩ := List.getElem?_eq_some_iff.mp hd
  rw [set_contents_of_ne (by omega)]
  exact h i d hd

theorem mem_written_pushes {k : Nat} {cs : List α} :
    k ∈ (b.pushes cs).written ↔ k ∈ b.written ∨ b.ptr ≤ k ∧ k < b.ptr + cs.length := by
  induction cs generalizing b with
  | nil =>
      rw [pushes, List.foldl_nil, List.length_nil]
      exact (or_iff_left (by omega)).symm
  | cons c cs ih =>
      have hwritten : k ∈ (b.push c).written ↔ k = b.ptr ∨ k ∈ b.written := List.mem_cons
      have hptr : (b.push c).ptr = b.ptr + 1 := rfl
      rw [pushes_cons, ih, hwritten, hptr, List.length_cons]
      grind

end push

section reverse

variable {b b' : Buffer α} {n i k : Nat}

theorem swap_contents (b : Buffer α) (i j k : Nat) :
    (b.swap i j).contents k =
      if k = j then b.contents i else if k = i then b.contents j else b.contents k := by
  change Function.update (Function.update b.contents i (b.contents j)) j (b.contents i) k = _
  rw [Function.update_apply, Function.update_apply]

theorem mem_written_swap {j : Nat} :
    k ∈ (b.swap i j).written ↔ k = j ∨ k = i ∨ k ∈ b.written := by
  rw [swap, set, set, List.mem_cons, List.mem_cons]

/-- In `b'`, the first `i` of the `n` characters of `b` and the last `i` have been swapped,
and the middle is as before. -/
structure EndsSwapped (n i : Nat) (b b' : Buffer α) : Prop where
  contents : ∀ k, b'.contents k =
    if k < i ∨ n - i ≤ k ∧ k < n then b.contents (n - 1 - k) else b.contents k
  written : ∀ k ∈ b'.written, k ∈ b.written ∨ k < n

namespace EndsSwapped

theorem zero (n : Nat) (b : Buffer α) : EndsSwapped n 0 b b where
  contents k := by rw [if_neg (by omega)]
  written _ hk := .inl hk

/-- One iteration. -/
theorem swap (h : EndsSwapped n i b b') (hi : i < n / 2) :
    EndsSwapped n (i + 1) b (b'.swap i (n - i - 1)) where
  contents k := by
    rw [swap_contents, h.contents, h.contents, h.contents]
    by_cases hlast : k = n - i - 1
    · have hfirst : n - 1 - k = i := by omega
      rw [if_pos hlast, if_neg (by omega), if_pos (by omega), hfirst]
    · rw [if_neg hlast]
      by_cases hk : k = i
      · have hsub : n - i - 1 = n - 1 - k := by omega
        rw [if_pos hk, if_neg (by omega), if_pos (by omega), hsub]
      · rw [if_neg hk]
        refine if_congr ?_ rfl rfl
        omega
  written k hk := by
    rcases mem_written_swap.mp hk with rfl | rfl | hk
    · exact .inr (by omega)
    · exact .inr (by omega)
    · exact h.written k hk

/-- All of them. -/
theorem reverse (n : Nat) (b : Buffer α) : EndsSwapped n (n / 2) b (b.reverse n) :=
  forRange_induction (P := fun i b' ↦ EndsSwapped n i b b') (zero n b) fun _ hi _ h ↦ h.swap hi

end EndsSwapped

/-- The first `n` characters are in the opposite order, and nothing else is written. -/
theorem reverse_spec (n : Nat) (b : Buffer α) :
    (∀ k, (b.reverse n).contents k = if k < n then b.contents (n - 1 - k) else b.contents k) ∧
      ∀ k ∈ (b.reverse n).written, k ∈ b.written ∨ k < n := by
  have hswapped := EndsSwapped.reverse n b
  refine ⟨fun k ↦ ?_, hswapped.written⟩
  rw [hswapped.contents]
  by_cases hk : k < n
  · rw [if_pos hk]
    split
    · rfl
    · -- the middle of an odd number of characters
      have hmiddle : n - 1 - k = k := by omega
      rw [hmiddle]
  · rw [if_neg (by omega), if_neg hk]

/-- What has been reversed is held in the opposite order. -/
theorem holds_reverse {cs : List α} (h : b.Holds 0 cs) :
    (b.reverse cs.length).Holds 0 cs.reverse := by
  intro j c hc
  obtain ⟨hj, -⟩ := List.getElem?_eq_some_iff.mp hc
  rw [List.length_reverse] at hj
  rw [List.getElem?_reverse hj] at hc
  rw [(reverse_spec cs.length b).1, Nat.zero_add, if_pos hj]
  have hold := h _ _ hc
  rwa [Nat.zero_add] at hold

end reverse

end Buffer

end Hypervi
