import Mathlib.Tactic.Common
import Mathlib.Logic.Function.Iterate
import Mathlib.Data.List.Basic

/-!
# Machines that carry the rest of their program

A configuration is a state and the list of the instructions to come.  An instruction
may go on with what follows it, drop it, or put other instructions in its place: an
early return and a jump are lists like any other.

* `run_induction` is the invariant rule of a run.
* `run_append` is the rule of a straight line: instructions that fall through are
  executed one after the other.
-/

namespace Hypervi.Program

universe u v

variable {σ : Type u} {ι : Type v}

/-- What an instruction makes of the instructions that follow it and of the state. -/
abbrev Semantics (σ : Type u) (ι : Type v) := ι → List ι → σ → σ × List ι

def step (sem : Semantics σ ι) : σ × List ι → σ × List ι
  | (s, []) => (s, [])
  | (s, i :: rest) => sem i rest s

/-- The configuration after `n` steps. -/
def run (sem : Semantics σ ι) (n : Nat) (c : σ × List ι) : σ × List ι := (step sem)^[n] c

section run

variable {sem : Semantics σ ι}

theorem run_succ (n : Nat) (c : σ × List ι) : run sem (n + 1) c = run sem n (step sem c) := rfl

theorem run_succ' (n : Nat) (c : σ × List ι) : run sem (n + 1) c = step sem (run sem n c) :=
  Function.iterate_succ_apply' (step sem) n c

theorem run_add (n k : Nat) (c : σ × List ι) : run sem (n + k) c = run sem k (run sem n c) := by
  rw [Nat.add_comm]
  exact Function.iterate_add_apply (step sem) k n c

/-- What holds at first and is kept by every step holds throughout the run. -/
theorem run_induction {motive : σ × List ι → Prop} {c : σ × List ι} (hinit : motive c)
    (hstep : ∀ c, motive c → motive (step sem c)) (n : Nat) : motive (run sem n c) := by
  induction n with
  | zero => exact hinit
  | succ n ih =>
      rw [run_succ']
      exact hstep _ ih

/-- The end of the program is not left again. -/
theorem run_nil (n : Nat) (s : σ) : run sem n (s, []) = (s, []) := by
  induction n with
  | zero => rfl
  | succ n ih => rw [run_succ, step, ih]

/-- The state at the end does not depend on how many steps are made. -/
theorem eq_of_run_nil {n k : Nat} {c : σ × List ι} {s s' : σ} (hn : run sem n c = (s, []))
    (hk : run sem k c = (s', [])) : s = s' := by
  have hboth : run sem (n + k) c = run sem (k + n) c := by rw [Nat.add_comm]
  rw [run_add, run_add, hn, hk, run_nil, run_nil] at hboth
  exact congrArg Prod.fst hboth

end run

/-! ## Straight lines -/

/-- The effects of a list of instructions, one after the other. -/
def execs (exec : ι → σ → σ) (is : List ι) (s : σ) : σ := is.foldl (fun s i ↦ exec i s) s

theorem execs_append (exec : ι → σ → σ) (is js : List ι) (s : σ) :
    execs exec (is ++ js) s = execs exec js (execs exec is s) := List.foldl_append

/-- Where `P` holds, the instruction has its effect and goes on. -/
def FallsThrough (sem : Semantics σ ι) (exec : ι → σ → σ) (P : σ → Prop) (i : ι) : Prop :=
  ∀ rest s, P s → sem i rest s = (exec i s, rest) ∧ P (exec i s)

theorem run_append {sem : Semantics σ ι} {exec : ι → σ → σ} {P : σ → Prop} {is : List ι}
    (h : ∀ i ∈ is, FallsThrough sem exec P i) {s : σ} (hs : P s) (rest : List ι) :
    run sem is.length (s, is ++ rest) = (execs exec is s, rest) ∧ P (execs exec is s) := by
  induction is generalizing s with
  | nil => exact ⟨rfl, hs⟩
  | cons i is ih =>
      obtain ⟨hi, his⟩ := List.forall_mem_cons.mp h
      obtain ⟨hstep, hP⟩ := hi (is ++ rest) s hs
      rw [List.length_cons, run_succ, List.cons_append, step, hstep]
      exact ih his hP

end Hypervi.Program
