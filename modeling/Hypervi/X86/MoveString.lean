import Hypervi.X86.StringOps

/-!
# `rep movsb`

The repetition copies one byte after the other, upwards, and reads what it has written when
the destination overlaps the source from above.

* `forwardCopy` is the copy as a function of memory.  `forwardCopy_inside` says what each byte
  of the destination becomes: the bytes of the source up to the destination, over and over.
* `forwardCopy_eq_memcpy_iff` tells when that is a copy of the source as it was.
* `run_repMovsb` is the rule of the whole repetition, for a clear direction flag.
-/

namespace Hypervi.X86

open Memory

/-! ## Copying upwards -/

/-- The bytes from `src` on are copied to `dst`, one after the other. -/
def forwardCopy : Nat → BitVec 64 → BitVec 64 → Mem → Mem
  | 0, _, _, m => m
  | n + 1, dst, src, m => forwardCopy n (dst + 1) (src + 1) (Function.update m dst (m src))

section forwardCopy

variable {n : Nat} {dst src x : BitVec 64} {m : Mem}

theorem forwardCopy_succ (n : Nat) (dst src : BitVec 64) (m : Mem) :
    forwardCopy (n + 1) dst src m =
      Function.update (forwardCopy n dst src m) (dst + BitVec.ofNat 64 n)
        (forwardCopy n dst src m (src + BitVec.ofNat 64 n)) := by
  induction n generalizing dst src m with
  | zero => rw [BitVec.add_zero, BitVec.add_zero]; rfl
  | succ n ih =>
      have hnext (a : BitVec 64) : a + 1 + BitVec.ofNat 64 n = a + BitVec.ofNat 64 (n + 1) := by
        rw [BitVec.add_assoc, Nat.add_comm n 1, BitVec.ofNat_add]
        rfl
      rw [forwardCopy, ih, hnext, hnext]
      rfl

/-- Bytes outside the destination are as before. -/
theorem forwardCopy_outside (h : n ≤ (x - dst).toNat) : forwardCopy n dst src m x = m x := by
  induction n with
  | zero => rfl
  | succ n ih =>
      have hne : x ≠ dst + BitVec.ofNat 64 n := by
        rintro rfl
        bv_omega
      rw [forwardCopy_succ, Function.update_of_ne hne, ih (by omega)]

/-- **The copy repeats.**  Each byte of the destination becomes one of the bytes of the source
that lie below the destination, in turn. -/
theorem forwardCopy_inside {i : Nat} (hi : i < n) (hn : n ≤ 2 ^ 64) :
    forwardCopy n dst src m (dst + BitVec.ofNat 64 i) =
      m (src + BitVec.ofNat 64 (i % (dst - src).toNat)) := by
  induction n generalizing i with
  | zero => exact absurd hi (Nat.not_lt_zero i)
  | succ n ih =>
      rw [forwardCopy_succ]
      by_cases hin : i = n
      · subst hin
        rw [Function.update_self]
        by_cases hbelow : i < (dst - src).toNat ∨ (dst - src).toNat = 0
        · -- the byte of the source has not been written, or it is the one that is written now
          have hmod : i % (dst - src).toNat = i := by
            rcases hbelow with hlt | hzero
            · exact Nat.mod_eq_of_lt hlt
            · rw [hzero, Nat.mod_zero]
          rw [hmod, forwardCopy_outside (by bv_omega)]
        · -- it has been written `dst - src` steps ago
          obtain ⟨hle, hpos⟩ := not_or.mp hbelow
          have hprev : src + BitVec.ofNat 64 i =
              dst + BitVec.ofNat 64 (i - (dst - src).toNat) := by
            bv_omega
          rw [hprev, ih (by omega) (by omega), ← Nat.mod_eq_sub_mod (by omega)]
      · have hne : dst + BitVec.ofNat 64 i ≠ dst + BitVec.ofNat 64 n := by
          intro heq
          bv_omega
        rw [Function.update_of_ne hne, ih (by omega) (by omega)]

/-- The copy is one of the source as it was exactly when what lies below the destination
repeats in it. -/
theorem forwardCopy_eq_memcpy_iff (hn : n ≤ 2 ^ 64) :
    forwardCopy n dst src m = memcpy m dst src n ↔
      ∀ i < n, m (src + BitVec.ofNat 64 (i % (dst - src).toNat)) =
        m (src + BitVec.ofNat 64 i) := by
  have hcopied {i : Nat} (hi : i < n) :
      memcpy m dst src n (dst + BitVec.ofNat 64 i) = m (src + BitVec.ofNat 64 i) := by
    have hoff : dst + BitVec.ofNat 64 i - dst = BitVec.ofNat 64 i := by
      rw [BitVec.add_comm, BitVec.add_sub_cancel]
    rw [memcpy, hoff, BitVec.toNat_ofNat, Nat.mod_eq_of_lt (by omega), if_pos hi]
  constructor
  · intro h i hi
    rw [← forwardCopy_inside (m := m) hi hn, h, hcopied hi]
  · intro h
    funext x
    by_cases hx : (x - dst).toNat < n
    · have hat : x = dst + BitVec.ofNat 64 (x - dst).toNat := by
        rw [BitVec.ofNat_toNat, BitVec.setWidth_eq, BitVec.add_comm, BitVec.sub_add_cancel]
      rw [hat, forwardCopy_inside hx hn, hcopied hx, h _ hx]
    · rw [forwardCopy_outside (Nat.not_lt.mp hx), memcpy, if_neg hx]

/-- A destination that starts at the source, or not in it. -/
theorem forwardCopy_eq_memcpy (hn : n ≤ 2 ^ 64)
    (h : dst = src ∨ n ≤ (dst - src).toNat) : forwardCopy n dst src m = memcpy m dst src n := by
  rw [forwardCopy_eq_memcpy_iff hn]
  intro i hi
  rcases h with rfl | hle
  · rw [BitVec.sub_self, show (0#64).toNat = 0 from rfl, Nat.mod_zero]
  · rw [Nat.mod_eq_of_lt (by omega)]

end forwardCopy

/-! ## The instruction -/

namespace MoveString

inductive Instr where
  | cld
  | mov (d s : Gpr)
  | repMovsb
  | ret

/-- `movsb`, and what `rep` does to `rcx`. -/
def movsb (s : Processor) : Processor :=
  let rdi := s.core.regs .rdi
  let rsi := s.core.regs .rsi
  let rcx := s.core.regs .rcx
  let moved : Machine := { s.core with mem := Function.update s.core.mem rdi (s.core.mem rsi) }
  let next (a : BitVec 64) := if s.df then a - 1 else a + 1
  { s with core := ((moved.set .rdi (next rdi)).set .rsi (next rsi)).set .rcx (rcx - 1) }

def sem : Program.Semantics Processor Instr
  | .cld, rest, s => ({ s with df := false }, rest)
  | .mov d r, rest, s => ({ s with core := s.core.set d (s.core.regs r) }, rest)
  | .repMovsb, rest, s =>
      if s.core.regs .rcx = 0 then (s, rest) else (movsb s, .repMovsb :: rest)
  | .ret, _, s =>
      ({ s with core := s.core.set .rsp (s.core.rsp + 8), rip := load64 s.core.mem s.core.rsp }, [])

/-- What a repetition of `n` iterations makes of a processor. -/
structure Moved (n : Nat) (s s' : Processor) : Prop where
  mem : s'.core.mem = forwardCopy n (s.core.regs .rdi) (s.core.regs .rsi) s.core.mem
  regs : ∀ r, r ≠ .rcx → r ≠ .rdi → r ≠ .rsi → s'.core.regs r = s.core.regs r

section rules

variable {s s' : Processor} {n : Nat}

theorem movsb_mem (s : Processor) :
    (movsb s).core.mem =
      Function.update s.core.mem (s.core.regs .rdi) (s.core.mem (s.core.regs .rsi)) := rfl

theorem movsb_rcx (s : Processor) : (movsb s).core.regs .rcx = s.core.regs .rcx - 1 :=
  Machine.set_regs_self _ .rcx (s.core.regs .rcx - 1)

theorem movsb_rdi (hdf : s.df = false) : (movsb s).core.regs .rdi = s.core.regs .rdi + 1 := by
  rw [movsb, Machine.set_regs_of_ne _ _ (by decide), Machine.set_regs_of_ne _ _ (by decide),
    Machine.set_regs_self, hdf]
  rfl

theorem movsb_rsi (hdf : s.df = false) : (movsb s).core.regs .rsi = s.core.regs .rsi + 1 := by
  rw [movsb, Machine.set_regs_of_ne _ _ (by decide), Machine.set_regs_self, hdf]
  rfl

theorem movsb_regs_of_ne {r : Gpr} (hrcx : r ≠ .rcx) (hrdi : r ≠ .rdi) (hrsi : r ≠ .rsi) :
    (movsb s).core.regs r = s.core.regs r :=
  (Machine.set_regs_of_ne _ _ hrcx).trans
    ((Machine.set_regs_of_ne _ _ hrsi).trans (Machine.set_regs_of_ne _ _ hrdi))

/-- One iteration before the others. -/
theorem Moved.movsb (hdf : s.df = false) (h : Moved n (movsb s) s') : Moved (n + 1) s s' where
  mem := by rw [h.mem, movsb_mem, movsb_rdi hdf, movsb_rsi hdf, forwardCopy]
  regs r hrcx hrdi hrsi := (h.regs r hrcx hrdi hrsi).trans (movsb_regs_of_ne hrcx hrdi hrsi)

/-- `rep movsb` with a clear direction flag. -/
theorem run_repMovsb (hn : (s.core.regs .rcx).toNat = n) (hdf : s.df = false) (rest : List Instr) :
    ∃ s', Program.run sem (n + 1) (s, .repMovsb :: rest) = (s', rest) ∧ Moved n s s' := by
  induction n generalizing s with
  | zero =>
      have hrcx : s.core.regs .rcx = 0 := BitVec.eq_of_toNat_eq hn
      refine ⟨s, ?_, rfl, fun _ _ _ _ ↦ rfl⟩
      rw [Program.run_succ, Program.step, sem, if_pos hrcx]
      rfl
  | succ n ih =>
      have hrcx : s.core.regs .rcx ≠ 0 := by
        intro hzero
        rw [hzero] at hn
        exact absurd hn.symm (Nat.succ_ne_zero n)
      have hpred : ((MoveString.movsb s).core.regs .rcx).toNat = n := by
        rw [movsb_rcx]
        bv_omega
      obtain ⟨s', hrun, hmoved⟩ := ih hpred hdf
      refine ⟨s', ?_, hmoved.movsb hdf⟩
      rw [Program.run_succ, Program.step, sem, if_neg hrcx]
      exact hrun

end rules

end MoveString

end Hypervi.X86
