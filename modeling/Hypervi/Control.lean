import Mathlib.Tactic.Common

/-!
# Counted loops and sequences of checks

Two control-flow idioms of C code, with the rule each is reasoned about by.

* `forRange n body s` is `for (i = 0; i < n; i++)` over an explicit state, and
  `forRange_induction` is its invariant rule.
* `Checked` is the outcome of a function that returns at the first failed check
  and logs what failed.  `andThen_eq_ok`, `all_eq_ok` and `onlyIf_eq_ok` turn "the
  sequence passed" into the conjunction of what its parts require.
-/

namespace Hypervi

universe u

/-! ## Counted loops -/

/-- The loop `for (i = 0; i < n; i++) s = body(i, s);`. -/
def forRange {σ : Type u} : Nat → (Nat → σ → σ) → σ → σ
  | 0, _, s => s
  | n + 1, body, s => body n (forRange n body s)

section forRange

variable {σ : Type u} {body : Nat → σ → σ} {s : σ}

theorem forRange_succ (n : Nat) : forRange (n + 1) body s = body n (forRange n body s) := rfl

/-- What holds at the start and is preserved by one iteration holds at the end.
The invariant may mention the iterations done so far. -/
theorem forRange_induction {P : Nat → σ → Prop} {n : Nat} (h₀ : P 0 s)
    (step : ∀ i < n, ∀ s, P i s → P (i + 1) (body i s)) : P n (forRange n body s) := by
  induction n with
  | zero => exact h₀
  | succ n ih => exact step n (Nat.lt_succ_self n) _ (ih fun i hi ↦ step i (Nat.lt_succ_of_lt hi))

/-- The invariant rule for two runs side by side. -/
theorem forRange_induction₂ {τ : Type u} {body' : Nat → τ → τ} {t : τ} {R : Nat → σ → τ → Prop}
    {n : Nat} (h₀ : R 0 s t)
    (step : ∀ i < n, ∀ s t, R i s t → R (i + 1) (body i s) (body' i t)) :
    R n (forRange n body s) (forRange n body' t) := by
  induction n with
  | zero => exact h₀
  | succ n ih => exact step n (Nat.lt_succ_self n) _ _ (ih fun i hi ↦ step i (Nat.lt_succ_of_lt hi))

/-- Two loops whose bodies agree on the indices they run through agree. -/
theorem forRange_congr {body' : Nat → σ → σ} {n : Nat}
    (h : ∀ i < n, ∀ s, body i s = body' i s) : forRange n body s = forRange n body' s := by
  induction n with
  | zero => rfl
  | succ n ih =>
      rw [forRange_succ, forRange_succ, ih fun i hi ↦ h i (Nat.lt_succ_of_lt hi),
        h n (Nat.lt_succ_self n)]

/-- The indices below `n`, split at one of them. -/
theorem range_split {n k : Nat} (h : k < n) :
    ∃ after, List.range n = List.range k ++ k :: after ∧ ∀ j ∈ after, k < j ∧ j < n := by
  obtain ⟨d, rfl⟩ := Nat.exists_eq_add_of_lt h
  refine ⟨List.range' (k + 1) d, ?_, ?_⟩
  · rw [List.range_eq_range', List.range_eq_range', Nat.add_assoc, ← List.range'_append_1,
      Nat.zero_add, List.range'_succ]
  · intro j hj
    have := List.mem_range'_1.mp hj
    omega

end forRange

/-! ## Sequences of checks -/

/-- A line of the log: a text and a number. -/
structure LogLine where
  text : String
  value : BitVec 64
deriving DecidableEq, Repr

/-- The outcome of a sequence of checks: passed, or the lines logged on the way
out. -/
abbrev Checked := Except (List LogLine) Unit

namespace Checked

/-- Both in order; the second is not reached when the first fails. -/
def andThen (x y : Checked) : Checked :=
  match x with
  | .ok _ => y
  | .error log => .error log

/-- All in order. -/
def all : List Checked → Checked
  | [] => .ok ()
  | x :: xs => andThen x (all xs)

/-- The check is made only when the condition holds. -/
def onlyIf (c : Bool) (x : Checked) : Checked := if c then x else .ok ()

/-- The verdict of the whole sequence. -/
def passed (x : Checked) : Bool :=
  match x with
  | .ok _ => true
  | .error _ => false

@[simp] theorem andThen_eq_ok {x y : Checked} :
    andThen x y = .ok () ↔ x = .ok () ∧ y = .ok () := by
  cases x <;> simp [andThen]

@[simp] theorem all_eq_ok {xs : List Checked} : all xs = .ok () ↔ ∀ x ∈ xs, x = .ok () := by
  induction xs with
  | nil => simp [all]
  | cons x xs ih => simp [all, ih]

@[simp] theorem onlyIf_eq_ok {c : Bool} {x : Checked} :
    onlyIf c x = .ok () ↔ (c = true → x = .ok ()) := by
  cases c <;> simp [onlyIf]

@[simp] theorem passed_eq_true {x : Checked} : x.passed = true ↔ x = .ok () := by
  cases x <;> simp [passed]

end Checked

end Hypervi
