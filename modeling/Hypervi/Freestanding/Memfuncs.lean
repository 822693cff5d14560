import Hypervi.X86.StringOps

/-!
# `_stosb` and `memset`

`_stosb` gets the destination in `rdi`, the byte in `rsi` and the length in `rdx`.  It
moves the length to `rcx` for `rep stosb` and leaves `rax` alone, of which `rep stosb`
stores the low byte: what memory is filled with is not an argument of the call.
-/

namespace Hypervi.Freestanding

open Memory X86 X86.StringOps

/-- `_stosb` -/
def stosbCode : List StringOps.Instr := [.cld, .mov .rcx .rdx, .repStosb, .ret]

/-- `_stosb` returns with the processor `s'`. -/
def StosbReturns (s s' : Processor) : Prop := ∃ n, Program.run sem n (s, stosbCode) = (s', [])

/-- The processor at the call of `_stosb` in `memset`.  The registers that are no arguments
are as the compiler has left them. -/
def stosbCall (s : Processor) (dest : BitVec 64) (chr : BitVec 32) (num : BitVec 64) : Processor :=
  { s with
    core := ((s.core.set .rdi dest).set .rsi (chr.signExtend 64)).set .rdx num }

/-- `memset` returns with the processor `s'`, the destination in `rax`. -/
def MemsetReturns (s : Processor) (dest : BitVec 64) (chr : BitVec 32) (num : BitVec 64)
    (s' : Processor) : Prop :=
  ∃ s₁, StosbReturns (stosbCall s dest chr num) s₁ ∧
    s' = { s₁ with core := s₁.core.set .rax dest }

/-- The `n` bytes from `dest` on have become `v`, and no other byte has changed. -/
structure FillsWith (m m' : Mem) (dest : BitVec 64) (v : BitVec 8) (n : Nat) : Prop where
  filled : ∀ k < n, m' (dest + BitVec.ofNat 64 k) = v
  others : ∀ x, (∀ k < n, x ≠ dest + BitVec.ofNat 64 k) → m' x = m x

/-- `_stosb` returns, and memory is filled with the low byte of its second argument. -/
def StosbFills (s : Processor) : Prop :=
  ∃ s', StosbReturns s s' ∧
    FillsWith s.core.mem s'.core.mem (s.core.regs .rdi) ((s.core.regs .rsi).setWidth 8)
      (s.core.regs .rdx).toNat

/-- `memset` returns, and memory is filled with the low byte of `chr`. -/
def MemsetFills (s : Processor) (dest : BitVec 64) (chr : BitVec 32) (num : BitVec 64) : Prop :=
  ∃ s', MemsetReturns s dest chr num s' ∧
    FillsWith s.core.mem s'.core.mem dest (chr.setWidth 8) num.toNat

section stosb

variable {s s' : Processor}

/-- `_stosb` returns, and fills memory with `al`. -/
theorem stosbReturns_memset (s : Processor) :
    ∃ s', StosbReturns s s' ∧
      s'.core.mem = memset s.core.mem (s.core.regs .rdi) s.core.al (s.core.regs .rdx).toNat := by
  let s₂ : Processor := { s with df := false, core := s.core.set .rcx (s.core.regs .rdx) }
  have hset : Program.run sem 2 (s, stosbCode) = (s₂, [.repStosb, .ret]) := rfl
  have hrcx : s₂.core.regs .rcx = s.core.regs .rdx := s.core.set_regs_self .rcx _
  have hrdi : s₂.core.regs .rdi = s.core.regs .rdi := s.core.set_regs_of_ne _ (by decide)
  have hal : s₂.core.al = s.core.al := by
    rw [Machine.al, Machine.al, s.core.set_regs_of_ne _ (by decide)]
  obtain ⟨s₃, hrep, hfilled⟩ := run_repStosb (congrArg BitVec.toNat hrcx) rfl [.ret]
  refine ⟨(sem .ret [] s₃).1, ⟨2 + ((s.core.regs .rdx).toNat + 1 + 1), ?_⟩, ?_⟩
  · rw [Program.run_add, hset, Program.run_add, hrep]
    rfl
  · rw [← hal, ← hrdi]
    exact hfilled.mem

/-- It returns in one way only. -/
theorem StosbReturns.mem_eq (h : StosbReturns s s') :
    s'.core.mem = memset s.core.mem (s.core.regs .rdi) s.core.al (s.core.regs .rdx).toNat := by
  obtain ⟨s₁, ⟨n, hn⟩, hmem⟩ := stosbReturns_memset s
  obtain ⟨k, hk⟩ := h
  rw [Program.eq_of_run_nil hk hn, hmem]

/-- Filling with a byte is filling with `v` when there is nothing to fill, or it is `v`. -/
theorem fillsWith_memset_iff {m : Mem} {dest : BitVec 64} {c v : BitVec 8} {n : Nat}
    (hn : n < 2 ^ 64) : FillsWith m (memset m dest c n) dest v n ↔ n = 0 ∨ c = v := by
  have hbyte {k : Nat} (hk : k < n) : memset m dest c n (dest + BitVec.ofNat 64 k) = c := by
    rw [memset, toNat_add_sub_self dest (Nat.lt_trans hk hn), if_pos hk]
  constructor
  · intro h
    rcases Nat.eq_zero_or_pos n with hzero | hpos
    · exact .inl hzero
    · exact .inr ((hbyte hpos).symm.trans (h.filled 0 hpos))
  · intro h
    refine ⟨fun k hk ↦ ?_, fun x hx ↦ if_neg fun hlt ↦ hx _ hlt ?_⟩
    · rw [hbyte hk]
      exact h.resolve_left (Nat.ne_of_gt (Nat.lt_of_le_of_lt (Nat.zero_le k) hk))
    · rw [BitVec.ofNat_toNat, BitVec.setWidth_eq, BitVec.add_comm, BitVec.sub_add_cancel]

/-- `_stosb` fills with its argument exactly when `al` happens to hold it, or the length is
zero. -/
theorem stosbFills_iff (s : Processor) :
    StosbFills s ↔ s.core.regs .rdx = 0 ∨ s.core.al = (s.core.regs .rsi).setWidth 8 := by
  have hzero : (s.core.regs .rdx).toNat = 0 ↔ s.core.regs .rdx = 0 :=
    ⟨fun h ↦ BitVec.eq_of_toNat_eq h, fun h ↦ congrArg BitVec.toNat h⟩
  rw [← hzero, ← fillsWith_memset_iff (m := s.core.mem) (s.core.regs .rdx).isLt]
  constructor
  · rintro ⟨s', hreturns, hfills⟩
    rwa [hreturns.mem_eq] at hfills
  · intro hfills
    obtain ⟨s', hreturns, hmem⟩ := stosbReturns_memset s
    refine ⟨s', hreturns, ?_⟩
    rwa [hmem]

/-- Extending `chr` to the register keeps its low byte. -/
theorem setWidth_signExtend_chr (chr : BitVec 32) :
    (chr.signExtend 64).setWidth 8 = chr.setWidth 8 := by
  apply BitVec.eq_of_getLsbD_eq
  intro i hi
  have hi32 : i < 32 := by omega
  have hi64 : i < 64 := by omega
  rw [BitVec.getLsbD_setWidth, BitVec.getLsbD_setWidth, BitVec.getLsbD_signExtend, if_pos hi32,
    decide_eq_true hi64, Bool.true_and]

/-- So does `memset`. -/
theorem memsetFills_iff (s : Processor) (dest : BitVec 64) (chr : BitVec 32) (num : BitVec 64) :
    MemsetFills s dest chr num ↔ num = 0 ∨ s.core.al = chr.setWidth 8 := by
  have hrdi : (stosbCall s dest chr num).core.regs .rdi = dest := by
    rw [stosbCall, Machine.set_regs_of_ne _ _ (by decide), Machine.set_regs_of_ne _ _ (by decide),
      Machine.set_regs_self]
  have hrdx : (stosbCall s dest chr num).core.regs .rdx = num := Machine.set_regs_self _ _ _
  have hrsi : ((stosbCall s dest chr num).core.regs .rsi).setWidth 8 = chr.setWidth 8 := by
    rw [stosbCall, Machine.set_regs_of_ne _ _ (by decide), Machine.set_regs_self]
    exact setWidth_signExtend_chr chr
  have hal : (stosbCall s dest chr num).core.al = s.core.al := by
    rw [Machine.al, Machine.al, stosbCall, Machine.set_regs_of_ne _ _ (by decide),
      Machine.set_regs_of_ne _ _ (by decide), Machine.set_regs_of_ne _ _ (by decide)]
  have hmain := stosbFills_iff (stosbCall s dest chr num)
  rw [StosbFills, hrdi, hrdx, hrsi, hal] at hmain
  rw [← hmain]
  constructor
  · rintro ⟨s', ⟨s₁, hreturns, rfl⟩, hfills⟩
    exact ⟨s₁, hreturns, hfills⟩
  · rintro ⟨s₁, hreturns, hfills⟩
    exact ⟨_, ⟨s₁, hreturns, rfl⟩, hfills⟩

end stosb

/-- **Filling memory.**  `_stosb`, and `memset` which calls it, return, and have filled
memory with the byte given exactly when the low byte of `rax` is this byte at the call of
`_stosb`, or there is nothing to fill. -/
theorem fill_iff (s : Processor) :
    (StosbFills s ↔
      s.core.regs .rdx = 0 ∨ s.core.al = (s.core.regs .rsi).setWidth 8) ∧
    ∀ dest chr num, MemsetFills s dest chr num ↔ num = 0 ∨ s.core.al = chr.setWidth 8 :=
  ⟨stosbFills_iff s, memsetFills_iff s⟩

/-- A processor whose registers are all ones, at a call that clears one byte. -/
def onesProcessor : Processor :=
  stosbCall ⟨⟨fun _ ↦ BitVec.allOnes 64, fun _ ↦ 1⟩, false, 0⟩ 0x1000 0 1

/-- The byte becomes `0xFF`. -/
theorem not_stosbFills_onesProcessor : ¬ StosbFills onesProcessor := by
  rintro ⟨s', hreturns, hfills⟩
  rw [hreturns.mem_eq] at hfills
  rcases (fillsWith_memset_iff (by decide)).mp hfills with hzero | hal
  · exact absurd hzero (by decide)
  · exact absurd hal (by decide)

end Hypervi.Freestanding
