import Hypervi.Program
import Hypervi.X86.Stack

/-!
# `rep stosb`

The instructions around a string operation, with the direction flag.  `rep` makes one
iteration a step: it is its own continuation as long as `rcx` is not zero.

`run_repStosb` is the rule of the whole repetition, for a clear direction flag: memory is
filled with `al`, and only `rdi` and `rcx` change.
-/

namespace Hypervi.X86

open Memory

/-- A machine with the direction flag and the instruction pointer. -/
structure Processor where
  core : Machine
  df : Bool
  rip : BitVec 64

namespace Machine

/-- The low byte of `rax`. -/
def al (s : Machine) : BitVec 8 := (s.regs .rax).setWidth 8

end Machine

namespace StringOps

inductive Instr where
  | cld
  | mov (d s : Gpr)
  | repStosb
  | ret

/-- `stosb`, and what `rep` does to `rcx`. -/
def stosb (s : Processor) : Processor :=
  let rdi := s.core.regs .rdi
  let rcx := s.core.regs .rcx
  let filled : Machine := { s.core with mem := Function.update s.core.mem rdi s.core.al }
  { s with core := (filled.set .rdi (if s.df then rdi - 1 else rdi + 1)).set .rcx (rcx - 1) }

def sem : Program.Semantics Processor Instr
  | .cld, rest, s => ({ s with df := false }, rest)
  | .mov d r, rest, s => ({ s with core := s.core.set d (s.core.regs r) }, rest)
  | .repStosb, rest, s =>
      if s.core.regs .rcx = 0 then (s, rest) else (stosb s, .repStosb :: rest)
  | .ret, _, s =>
      ({ s with core := s.core.set .rsp (s.core.rsp + 8), rip := load64 s.core.mem s.core.rsp }, [])

/-- What a repetition of `n` iterations makes of a processor. -/
structure Filled (n : Nat) (s s' : Processor) : Prop where
  mem : s'.core.mem = memset s.core.mem (s.core.regs .rdi) s.core.al n
  rcx : s'.core.regs .rcx = 0
  rdi : s'.core.regs .rdi = s.core.regs .rdi + BitVec.ofNat 64 n
  regs : ∀ r, r ≠ .rcx → r ≠ .rdi → s'.core.regs r = s.core.regs r

section rules

variable {s s' : Processor} {n : Nat}

/-- The first byte, and then the others. -/
theorem memset_update (m : Mem) (a : BitVec 64) (c : BitVec 8) (n : Nat) :
    memset (Function.update m a c) (a + 1) c n = memset m a c (n + 1) := by
  funext x
  unfold memset
  by_cases hx : x = a
  · subst hx
    rw [Function.update_self, ite_self, if_pos]
    rw [BitVec.sub_self]
    exact Nat.succ_pos n
  · have hsub : (x - (a + 1)).toNat + 1 = (x - a).toNat := by bv_omega
    have hiff : (x - (a + 1)).toNat < n ↔ (x - a).toNat < n + 1 := by
      rw [← hsub, Nat.add_lt_add_iff_right]
    simp only [Function.update_of_ne hx, hiff]

theorem stosb_mem (s : Processor) :
    (stosb s).core.mem = Function.update s.core.mem (s.core.regs .rdi) s.core.al := rfl

theorem stosb_rcx (s : Processor) : (stosb s).core.regs .rcx = s.core.regs .rcx - 1 :=
  Machine.set_regs_self _ .rcx (s.core.regs .rcx - 1)

theorem stosb_rdi (hdf : s.df = false) :
    (stosb s).core.regs .rdi = s.core.regs .rdi + 1 := by
  rw [stosb, Machine.set_regs_of_ne _ _ (by decide), Machine.set_regs_self, hdf]
  rfl

theorem stosb_regs_of_ne {r : Gpr} (hrcx : r ≠ .rcx) (hrdi : r ≠ .rdi) :
    (stosb s).core.regs r = s.core.regs r :=
  (Machine.set_regs_of_ne _ _ hrcx).trans (Machine.set_regs_of_ne _ _ hrdi)

theorem stosb_al (s : Processor) : (stosb s).core.al = s.core.al := by
  rw [Machine.al, Machine.al, stosb_regs_of_ne (by decide) (by decide)]

/-- One iteration before the others. -/
theorem Filled.stosb (hdf : s.df = false) (h : Filled n (stosb s) s') :
    Filled (n + 1) s s' where
  mem := by rw [h.mem, stosb_mem, stosb_rdi hdf, stosb_al, memset_update]
  rcx := h.rcx
  rdi := by
    rw [h.rdi, stosb_rdi hdf, BitVec.add_assoc, Nat.add_comm n 1, BitVec.ofNat_add]
    rfl
  regs r hrcx hrdi := (h.regs r hrcx hrdi).trans (stosb_regs_of_ne hrcx hrdi)

/-- `rep stosb` with a clear direction flag. -/
theorem run_repStosb (hn : (s.core.regs .rcx).toNat = n) (hdf : s.df = false) (rest : List Instr) :
    ∃ s', Program.run sem (n + 1) (s, .repStosb :: rest) = (s', rest) ∧ Filled n s s' := by
  induction n generalizing s with
  | zero =>
      have hrcx : s.core.regs .rcx = 0 := BitVec.eq_of_toNat_eq hn
      refine ⟨s, ?_, ?_, hrcx, (BitVec.add_zero _).symm, fun _ _ _ ↦ rfl⟩
      · rw [Program.run_succ, Program.step, sem, if_pos hrcx]
        rfl
      · funext x
        rw [memset, if_neg (Nat.not_lt_zero _)]
  | succ n ih =>
      have hrcx : s.core.regs .rcx ≠ 0 := by
        intro hzero
        rw [hzero] at hn
        exact absurd hn.symm (Nat.succ_ne_zero n)
      have hlt := (s.core.regs .rcx).isLt
      have hpred : ((stosb s).core.regs .rcx).toNat = n := by
        rw [stosb_rcx]
        bv_omega
      obtain ⟨s', hrun, hfilled⟩ := ih hpred hdf
      refine ⟨s', ?_, hfilled.stosb hdf⟩
      rw [Program.run_succ, Program.step, sem, if_neg hrcx]
      exact hrun

end rules

end StringOps

end Hypervi.X86
