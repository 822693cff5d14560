import Hypervi.X86.MoveString

/-!
# `_movsb` and `memcpy`

`_movsb` gets the destination in `rdi`, the source in `rsi` and the length in `rdx`, and
`memcpy` returns the destination.  The direction flag is cleared first, so that the copy goes
upwards: `memcpyCopies_iff` says for which arguments it is a copy of the source as it was at
the call.
-/

namespace Hypervi.Freestanding

open Memory X86 X86.MoveString

/-- `_movsb` -/
def movsbCode : List MoveString.Instr := [.cld, .mov .rcx .rdx, .repMovsb, .ret]

/-- `_movsb` returns with the processor `s'`. -/
def MovsbReturns (s s' : Processor) : Prop := ∃ n, Program.run sem n (s, movsbCode) = (s', [])

/-- The processor at the call of `_movsb` in `memcpy`. -/
def movsbCall (s : Processor) (dest source num : BitVec 64) : Processor :=
  { s with core := ((s.core.set .rdi dest).set .rsi source).set .rdx num }

/-- `memcpy` returns with the processor `s'`, the destination in `rax`. -/
def MemcpyReturns (s : Processor) (dest source num : BitVec 64) (s' : Processor) : Prop :=
  ∃ s₁, MovsbReturns (movsbCall s dest source num) s₁ ∧
    s' = { s₁ with core := s₁.core.set .rax dest }

/-- The registers that a function leaves as they are, by the calling convention. -/
def calleeSaved : List Gpr := [.rbx, .rbp, .r12, .r13, .r14, .r15]

/-- What `_movsb` makes of a processor. -/
structure Copied (s s' : Processor) : Prop where
  mem : s'.core.mem =
    forwardCopy (s.core.regs .rdx).toNat (s.core.regs .rdi) (s.core.regs .rsi) s.core.mem
  rip : s'.rip = load64 s'.core.mem s.core.rsp
  rsp : s'.core.rsp = s.core.rsp + 8
  saved : ∀ r ∈ calleeSaved, s'.core.regs r = s.core.regs r

section movsb

variable {s s' : Processor}

/-- `_movsb` returns. -/
theorem movsbReturns (s : Processor) : ∃ s', MovsbReturns s s' ∧ Copied s s' := by
  let s₂ : Processor := { s with df := false, core := s.core.set .rcx (s.core.regs .rdx) }
  have hset : Program.run sem 2 (s, movsbCode) = (s₂, [.repMovsb, .ret]) := rfl
  have hrcx : s₂.core.regs .rcx = s.core.regs .rdx := s.core.set_regs_self .rcx _
  have hkept {r : Gpr} (hr : r ≠ .rcx) : s₂.core.regs r = s.core.regs r :=
    s.core.set_regs_of_ne _ hr
  obtain ⟨s₃, hrep, hmoved⟩ := run_repMovsb (congrArg BitVec.toNat hrcx) rfl [.ret]
  have hregs {r : Gpr} (hcx : r ≠ .rcx) (hdi : r ≠ .rdi) (hsi : r ≠ .rsi) :
      s₃.core.regs r = s.core.regs r := (hmoved.regs r hcx hdi hsi).trans (hkept hcx)
  have hrsp : s₃.core.rsp = s.core.rsp := hregs (by decide) (by decide) (by decide)
  refine ⟨(sem .ret [] s₃).1, ⟨2 + ((s.core.regs .rdx).toNat + 1 + 1), ?_⟩, ?_, ?_, ?_, ?_⟩
  · rw [Program.run_add, hset, Program.run_add, hrep]
    rfl
  · have hmem := hmoved.mem
    rw [hkept (r := .rdi) (by decide), hkept (r := .rsi) (by decide)] at hmem
    exact hmem
  · exact congrArg (load64 s₃.core.mem) hrsp
  · exact (Machine.set_regs_self _ .rsp _).trans (congrArg (· + 8) hrsp)
  · intro r hr
    have hr' : r ≠ .rsp ∧ r ≠ .rcx ∧ r ≠ .rdi ∧ r ≠ .rsi := by
      revert hr
      cases r <;> decide
    exact (Machine.set_regs_of_ne _ _ hr'.1).trans (hregs hr'.2.1 hr'.2.2.1 hr'.2.2.2)

/-- It returns in one way only. -/
theorem MovsbReturns.copied (h : MovsbReturns s s') : Copied s s' := by
  obtain ⟨s₁, ⟨n, hn⟩, hcopied⟩ := movsbReturns s
  obtain ⟨k, hk⟩ := h
  rw [Program.eq_of_run_nil hk hn]
  exact hcopied

end movsb

section memcpy

variable {s s' : Processor} {dest source num : BitVec 64}

theorem movsbCall_regs (s : Processor) (dest source num : BitVec 64) :
    (movsbCall s dest source num).core.regs .rdi = dest ∧
      (movsbCall s dest source num).core.regs .rsi = source ∧
      (movsbCall s dest source num).core.regs .rdx = num ∧
      ∀ r, r ≠ .rdi → r ≠ .rsi → r ≠ .rdx →
        (movsbCall s dest source num).core.regs r = s.core.regs r := by
  refine ⟨?_, ?_, Machine.set_regs_self _ _ _, fun r hrdi hrsi hrdx ↦ ?_⟩
  · rw [movsbCall, Machine.set_regs_of_ne _ _ (by decide), Machine.set_regs_of_ne _ _ (by decide),
      Machine.set_regs_self]
  · rw [movsbCall, Machine.set_regs_of_ne _ _ (by decide), Machine.set_regs_self]
  · rw [movsbCall, Machine.set_regs_of_ne _ _ hrdx, Machine.set_regs_of_ne _ _ hrsi,
      Machine.set_regs_of_ne _ _ hrdi]

/-- The processor that `memcpy` leaves: it returns the destination to its caller, whose
registers are as they were. -/
structure CopiedTo (s : Processor) (dest source num : BitVec 64) (s' : Processor) : Prop where
  mem : s'.core.mem = forwardCopy num.toNat dest source s.core.mem
  rax : s'.core.regs .rax = dest
  rsp : s'.core.rsp = s.core.rsp + 8
  saved : ∀ r ∈ calleeSaved, s'.core.regs r = s.core.regs r
  rip : Apart dest num.toNat s.core.rsp 8 → s'.rip = load64 s.core.mem s.core.rsp

theorem MemcpyReturns.copiedTo (h : MemcpyReturns s dest source num s') :
    CopiedTo s dest source num s' := by
  obtain ⟨s₁, hreturns, rfl⟩ := h
  have hcopied := hreturns.copied
  obtain ⟨hdi, hsi, hdx, hother⟩ := movsbCall_regs s dest source num
  have hmem : s₁.core.mem = forwardCopy num.toNat dest source s.core.mem := by
    have hmem := hcopied.mem
    rwa [hdi, hsi, hdx] at hmem
  have hrsp : (movsbCall s dest source num).core.rsp = s.core.rsp :=
    hother .rsp (by decide) (by decide) (by decide)
  refine ⟨hmem, Machine.set_regs_self _ _ _, ?_, ?_, ?_⟩
  · exact (Machine.set_regs_of_ne _ _ (by decide)).trans
      (hcopied.rsp.trans (congrArg (· + 8) hrsp))
  · intro r hr
    have hr' : r ≠ .rax ∧ r ≠ .rdi ∧ r ≠ .rsi ∧ r ≠ .rdx := by
      revert hr
      cases r <;> decide
    exact (Machine.set_regs_of_ne _ _ hr'.1).trans ((hcopied.saved r hr).trans
      (hother r hr'.2.1 hr'.2.2.1 hr'.2.2.2))
  · -- the return address is not in the destination
    intro hapart
    have hrip := hcopied.rip
    rw [hmem, hrsp] at hrip
    refine hrip.trans (load_congr fun i hi ↦ forwardCopy_outside ?_)
    obtain ⟨hle, hle'⟩ := hapart
    have hlt := num.isLt
    bv_omega

theorem memcpyReturns (s : Processor) (dest source num : BitVec 64) :
    ∃ s', MemcpyReturns s dest source num s' := by
  obtain ⟨s₁, hreturns, -⟩ := movsbReturns (movsbCall s dest source num)
  exact ⟨_, s₁, hreturns, rfl⟩

/-- `memcpy` returns, and has copied the source as it was at the call. -/
def MemcpyCopies (s : Processor) (dest source num : BitVec 64) : Prop :=
  ∃ s', MemcpyReturns s dest source num s' ∧ CopiedTo s dest source num s' ∧
    s'.core.mem = memcpy s.core.mem dest source num.toNat

end memcpy

/-- **Copying memory.**  `memcpy` returns, and copies the source as it was exactly when the bytes of the
source that lie below the destination repeat throughout it; so it does when the destination
starts at the source or not in it. -/
theorem memcpyCopies_iff (s : Processor) (dest source num : BitVec 64) :
    (∃ s', MemcpyReturns s dest source num s') ∧
    (MemcpyCopies s dest source num ↔ ∀ i < num.toNat,
      s.core.mem (source + BitVec.ofNat 64 (i % (dest - source).toNat)) =
        s.core.mem (source + BitVec.ofNat 64 i)) ∧
    (dest = source ∨ num.toNat ≤ (dest - source).toNat → MemcpyCopies s dest source num) := by
  have hcopies : MemcpyCopies s dest source num ↔
      forwardCopy num.toNat dest source s.core.mem = memcpy s.core.mem dest source num.toNat := by
    constructor
    · rintro ⟨s', -, hcopied, hmem⟩
      exact hcopied.mem.symm.trans hmem
    · intro hmem
      obtain ⟨s', hreturns⟩ := memcpyReturns s dest source num
      exact ⟨s', hreturns, hreturns.copiedTo, hreturns.copiedTo.mem.trans hmem⟩
  rw [hcopies]
  have hlt := Nat.le_of_lt num.isLt
  exact ⟨memcpyReturns s dest source num, forwardCopy_eq_memcpy_iff hlt,
    forwardCopy_eq_memcpy hlt⟩

end Hypervi.Freestanding
