import Hypervi.Freestanding.Segments
import Hypervi.Freestanding.X86Utils
import Hypervi.Mtrr.Model

/-!
# The values that the routines of `x86utils.S` return

* `result_returned`: the routines that read something compute what the C++ code is taken to
  get from them: `callLar`, `callLsl` and `callBsf` are the functions of the other
  modules, with the contents of `rax` where an instruction leaves it alone.
* `readMsr_writeMsr`: a 64-bit value goes through the two halves of `wrmsr` and `rdmsr`.
* `callCpuid_stores`: the four words that `cpuid` gives replace the leaf that was asked for.
-/

namespace Hypervi.Freestanding.X86Utils

open Memory X86 X86.Routine

universe u

section values

variable {σ : Type u} (hw : Hardware σ) (placement : Placement Label)

/-- `lar` and `lsl` as they are for a routine. -/
def segmentInstructions (s : State σ) : SegmentInstructions where
  lar selector := hw.lar selector s.sys
  lsl selector := hw.lsl selector s.sys
  rax _ := s.core.regs .rax

/-- What the routines that read something leave in `rax`. -/
def Routine.result (s : State σ) : Routine → Option (BitVec 64)
  | .readR16 r => some ((s.core.regs .rax).extractLsb' 16 48 ++
      hw.selector r.toSegmentRegister s.sys)
  | .readTr => some ((s.core.regs .rax).extractLsb' 16 48 ++ hw.selector .tr s.sys)
  | .readLdtr => some ((s.core.regs .rax).extractLsb' 16 48 ++ hw.selector .ldtr s.sys)
  | .callLar =>
      some (Freestanding.callLar (segmentInstructions hw s) ((s.core.regs .rdi).setWidth 16))
  | .callLsl =>
      some (Freestanding.callLsl (segmentInstructions hw s) ((s.core.regs .rdi).setWidth 16))
  | .callBsf => some (Mtrr.callBsf (s.core.regs .rax) (s.core.regs .rdi))
  | .readRflags => some s.rflags
  | .getRsp => some (s.core.rsp + 8)
  | .getRip => some (load64 s.core.mem s.core.rsp)
  | _ => none

/-- A routine returns a value, and leaves the processor as it was. -/
def Yields (code : Code) (s : State σ) (v : BitVec 64) (sys : σ) : Prop :=
  ∃ s', Finishes (system hw) (text placement) code s (.ok s') ∧ s'.core.regs .rax = v ∧ s'.sys = sys

variable {hw placement} {s : State σ}

theorem Yields.step {i : Instr Label SysInstr} {rest code : Code} {s' : State σ} {v : BitVec 64}
    {sys : σ} (hsem : sem (system hw) (text placement) i rest (.ok s) = (.ok s', code))
    (h : Yields hw placement code s' v sys) : Yields hw placement (i :: rest) s v sys := by
  obtain ⟨s'', hends, hvalue⟩ := h
  exact ⟨s'', hends.step hsem, hvalue⟩

/-- The return leaves `rax` alone. -/
theorem Yields.ret : Yields hw placement [.ret] s (s.core.regs .rax) s.sys :=
  ⟨_, ⟨1, rfl⟩, Machine.set_regs_of_ne _ _ (by decide), rfl⟩

theorem Yields.of_rax {v : BitVec 64} (h : s.core.regs .rax = v) :
    Yields hw placement [.ret] s v s.sys := h ▸ Yields.ret

/-- `call_lar` clears its result once more when the instruction failed. -/
theorem yields_lar (hrax : s.core.regs .rax = 0) :
    Yields hw placement
      [.system (.lar .rax .rdi), .jz .callLarDone, .alu .xor .rax (.reg .rax), .ret] s
      ((hw.lar ((s.core.regs .rdi).setWidth 16) s.sys).getD 0) s.sys := by
  refine Yields.step rfl (Yields.step rfl ?_)
  rw [State.zf, getLsbD_setFlag _ (by decide), if_pos rfl, hrax]
  cases hlar : hw.lar ((s.core.regs .rdi).setWidth 16) s.sys with
  | some rights => exact Yields.of_rax (Machine.set_regs_self _ _ _)
  | none =>
      refine Yields.step rfl (Yields.of_rax ((Machine.set_regs_self _ _ _).trans ?_))
      exact BitVec.xor_self

theorem yields_callLar :
    Yields hw placement Routine.callLar.code s
      (Freestanding.callLar (segmentInstructions hw s) ((s.core.regs .rdi).setWidth 16)) s.sys := by
  let cleared : State σ := { s with core := s.core.set .rax 0 }
  have hrdi : cleared.core.regs .rdi = s.core.regs .rdi := s.core.set_regs_of_ne 0 (by decide)
  have hlar : Yields hw placement _ cleared _ s.sys := yields_lar (s.core.set_regs_self .rax 0)
  rw [hrdi] at hlar
  exact Yields.step rfl hlar

/-- The routines that read something return what the other modules take them to return. -/
theorem result_returned (hw : Hardware σ) (placement : Placement Label) {r : Routine}
    {v : BitVec 64} (h : r.result hw s = some v) :
    Yields hw placement r.code s v s.sys := by
  cases r <;> cases h
  case callLar => exact yields_callLar
  case callLsl => exact Yields.step rfl (Yields.of_rax (Machine.set_regs_self _ _ _))
  case callBsf => exact Yields.step rfl (Yields.of_rax (Machine.set_regs_self _ _ _))
  case readR16 r => exact Yields.step rfl (Yields.of_rax (Machine.set_regs_self _ _ _))
  case readTr => exact Yields.step rfl (Yields.of_rax (Machine.set_regs_self _ _ _))
  case readLdtr => exact Yields.step rfl (Yields.of_rax (Machine.set_regs_self _ _ _))
  case getRip => exact Yields.step rfl (Yields.of_rax (Machine.set_regs_self _ _ _))
  case getRsp =>
    refine Yields.step rfl (Yields.step rfl (Yields.of_rax ?_))
    refine (Machine.set_regs_self _ _ _).trans ?_
    exact congrArg (· + 8) (Machine.set_regs_self _ _ _)
  case readRflags =>
    refine Yields.step rfl (Yields.step rfl (Yields.of_rax ?_))
    have hrsp : (s.core.push s.rflags).rsp = s.core.rsp - 8 := s.core.push_rsp s.rflags
    have hpop := (s.core.push s.rflags).pop_regs_self .rax
    rw [hrsp, Machine.push_mem, load64, store64, load_store_self (by decide)] at hpop
    exact hpop

/-- `call_lar` returns zero for a selector that cannot be read. -/
theorem result_returned_callLar :
    Yields plainHardware plainPlacement Routine.callLar.code plainState 0 plainState.sys :=
  result_returned plainHardware plainPlacement (r := .callLar) rfl

/-! ## Model-specific registers -/

/-- The two halves of a word, put together as `read_msr` does it. -/
theorem join_halves (v : BitVec 64) :
    (v.extractLsb' 0 32).setWidth 64 ||| (v.extractLsb' 32 32).setWidth 64 <<< 32 = v := by
  apply BitVec.eq_of_getLsbD_eq
  intro i hi
  by_cases hlow : i < 32
  · simp [BitVec.getLsbD_extractLsb', hlow, hi]
  · have hhigh : 32 + (i - 32) = i := by omega
    simp [BitVec.getLsbD_extractLsb', hlow, hi, hhigh, show i - 32 < 32 by omega]

/-- The two halves of a word, taken apart as `write_msr` does it. -/
theorem append_halves (v : BitVec 64) :
    (((v >>> 32).setWidth 32).setWidth 64).setWidth 32 ++ ((v.setWidth 32).setWidth 64).setWidth 32 =
      v := by
  apply BitVec.eq_of_getLsbD_eq
  intro i hi
  rw [BitVec.getLsbD_append]
  by_cases hlow : i < 32
  · simp [hlow]
  · have hhigh : 32 + (i - 32) = i := by omega
    simp [hlow, hhigh, show i - 32 < 32 by omega]

/-- The part of `read_msr` that follows the instruction. -/
theorem yields_halves (s : State σ) :
    Yields hw placement
      [.alu .shl .rdx (.imm 32), .alu .or .rax (.reg .rdx), .leave, .ret] s
      (s.core.regs .rax ||| s.core.regs .rdx <<< 32) s.sys := by
  refine Yields.step rfl (Yields.step rfl (Yields.step rfl (Yields.of_rax ?_)))
  refine (Machine.pop_regs_of_ne _ (by decide) (by decide)).trans ?_
  refine (Machine.set_regs_of_ne _ _ (by decide)).trans ((Machine.set_regs_self _ _ _).trans ?_)
  exact congrArg₂ (· ||| ·) (Machine.set_regs_of_ne _ _ (by decide)) (Machine.set_regs_self _ _ _)

theorem yields_rdmsr {id : BitVec 32} {v : BitVec 64}
    (hid : (s.core.regs .rcx).setWidth 32 = id) (hread : hw.rdmsr id s.sys = .ok v) :
    Yields hw placement
      [.system .rdmsr, .alu .shl .rdx (.imm 32), .alu .or .rax (.reg .rdx), .leave, .ret] s v
      s.sys := by
  let low := s.core.set .rax ((v.extractLsb' 0 32).setWidth 64)
  let read : State σ := { s with core := low.set .rdx ((v.extractLsb' 32 32).setWidth 64) }
  have hsem (rest : Code) : sem (system hw) (text placement) (.system .rdmsr) rest (.ok s) =
      (.ok read, rest) := by
    show ((hw.rdmsr ((s.core.regs .rcx).setWidth 32) s.sys).map _, rest) = _
    rw [hid, hread]
    rfl
  have hrax : read.core.regs .rax = (v.extractLsb' 0 32).setWidth 64 :=
    (low.set_regs_of_ne _ (by decide)).trans (s.core.set_regs_self .rax _)
  have hrdx : read.core.regs .rdx = (v.extractLsb' 32 32).setWidth 64 := low.set_regs_self .rdx _
  have hhalves : Yields hw placement _ read _ s.sys := yields_halves read
  rw [hrax, hrdx, join_halves] at hhalves
  exact Yields.step (hsem _) hhalves

/-- `read_msr` returns the register whose number is in the lower half of its argument. -/
theorem yields_readMsr {v : BitVec 64}
    (hread : hw.rdmsr ((s.core.regs .rdi).setWidth 32) s.sys = .ok v) :
    Yields hw placement Routine.readMsr.code s v s.sys := by
  let pushed := s.core.push (s.core.regs .rbp)
  let framed := pushed.set .rbp pushed.rsp
  let moved : State σ := { s with core := framed.set .rcx (framed.regs .rdi) }
  have hrdi : framed.regs .rdi = s.core.regs .rdi :=
    (pushed.set_regs_of_ne _ (by decide)).trans (s.core.push_regs_of_ne _ (by decide))
  have hrcx : (moved.core.regs .rcx).setWidth 32 = (s.core.regs .rdi).setWidth 32 :=
    congrArg (·.setWidth 32) ((framed.set_regs_self .rcx _).trans hrdi)
  have hrdmsr : Yields hw placement _ moved v s.sys := yields_rdmsr hrcx hread
  exact Yields.step rfl (Yields.step rfl (Yields.step rfl hrdmsr))

/-- `wrmsr` with the halves of a value in `rdx` and `rax`. -/
theorem finishes_wrmsr {id : BitVec 32} {v : BitVec 64} {s' : State σ}
    (h : Finishes (system hw) (text placement) [.system .wrmsr, .ret] s (.ok s'))
    (hid : (s.core.regs .rcx).setWidth 32 = id)
    (hv : (s.core.regs .rdx).setWidth 32 ++ (s.core.regs .rax).setWidth 32 = v) :
    hw.wrmsr id v s.sys = .ok s'.sys := by
  have hsem : sem (system hw) (text placement) (.system .wrmsr) [.ret] (.ok s) =
      ((hw.wrmsr id v s.sys).map fun sys ↦ { s with sys := sys }, [.ret]) := by
    rw [← hid, ← hv]
    rfl
  cases hwrite : hw.wrmsr id v s.sys with
  | error exit =>
      rw [hwrite] at hsem
      exact nomatch h.unique (Finishes.exit hsem)
  | ok sys =>
      rw [hwrite] at hsem
      have hends := Finishes.step hsem ⟨1, rfl⟩
      obtain rfl := Except.ok.inj (h.unique hends)
      rfl

/-- `write_msr` passes on the whole of its second argument. -/
theorem finishes_writeMsr {s' : State σ}
    (h : Finishes (system hw) (text placement) Routine.writeMsr.code s (.ok s')) :
    hw.wrmsr ((s.core.regs .rdi).setWidth 32) (s.core.regs .rsi) s.sys = .ok s'.sys := by
  let numbered := s.core.set .rcx (((s.core.regs .rdi).setWidth 32).setWidth 64)
  let low := numbered.set .rax (((numbered.regs .rsi).setWidth 32).setWidth 64)
  let shifted := low.set .rsi (low.regs .rsi >>> 32)
  let high := shifted.set .rdx (((shifted.regs .rsi).setWidth 32).setWidth 64)
  have hnumbered : numbered.regs .rsi = s.core.regs .rsi := s.core.set_regs_of_ne _ (by decide)
  have hlow : low.regs .rsi = s.core.regs .rsi :=
    (numbered.set_regs_of_ne _ (by decide)).trans hnumbered
  have hshifted : shifted.regs .rsi = s.core.regs .rsi >>> 32 := by
    rw [← hlow]
    exact low.set_regs_self .rsi _
  have hrcx : high.regs .rcx = ((s.core.regs .rdi).setWidth 32).setWidth 64 :=
    (shifted.set_regs_of_ne _ (by decide)).trans ((low.set_regs_of_ne _ (by decide)).trans
      ((numbered.set_regs_of_ne _ (by decide)).trans (s.core.set_regs_self .rcx _)))
  have hrax : high.regs .rax = ((s.core.regs .rsi).setWidth 32).setWidth 64 := by
    rw [← hnumbered]
    exact (shifted.set_regs_of_ne _ (by decide)).trans ((low.set_regs_of_ne _ (by decide)).trans
      (numbered.set_regs_self .rax _))
  have hrdx : high.regs .rdx = ((s.core.regs .rsi >>> 32).setWidth 32).setWidth 64 := by
    rw [← hshifted]
    exact shifted.set_regs_self .rdx _
  have hid : (high.regs .rcx).setWidth 32 = (s.core.regs .rdi).setWidth 32 := by
    rw [hrcx]
    simp
  have hv : (high.regs .rdx).setWidth 32 ++ (high.regs .rax).setWidth 32 = s.core.regs .rsi := by
    rw [hrdx, hrax, append_halves]
  have htail := (((h.of_step rfl).of_step rfl).of_step rfl).of_step rfl
  have hwrmsr := finishes_wrmsr htail hid hv
  exact hwrmsr

/-- What `write_msr` wrote to a register that reads back what is written to it is what
`read_msr` returns, whatever is in the upper half of the registers that carry the number. -/
theorem readMsr_writeMsr (hw : Hardware σ) (placement : Placement Label) {s s₁ s₂ : State σ}
    (hreads : ∀ v sys sys', hw.wrmsr ((s.core.regs .rdi).setWidth 32) v sys = .ok sys' →
      hw.rdmsr ((s.core.regs .rdi).setWidth 32) sys' = .ok v)
    (hwrite : Finishes (system hw) (text placement) Routine.writeMsr.code s (.ok s₁))
    (hsys : s₂.sys = s₁.sys)
    (hid : (s₂.core.regs .rdi).setWidth 32 = (s.core.regs .rdi).setWidth 32) :
    Yields hw placement Routine.readMsr.code s₂ (s.core.regs .rsi) s₂.sys := by
  refine yields_readMsr ?_
  rw [hsys, hid]
  exact hreads _ _ _ (finishes_writeMsr hwrite)

/-- The state that `write_msr` leaves, with the number of the register still in `rdi`. -/
theorem readMsr_writeMsr_plainState :
    ∃ s₁, Finishes (system plainHardware) (text plainPlacement) Routine.writeMsr.code plainState
        (.ok s₁) ∧
      Yields plainHardware plainPlacement Routine.readMsr.code { plainState with sys := s₁.sys }
        0x2000 s₁.sys := by
  have hends : ∃ s₁, Finishes (system plainHardware) (text plainPlacement) Routine.writeMsr.code
      plainState (.ok s₁) := ⟨_, 6, rfl⟩
  obtain ⟨s₁, hwrite⟩ := hends
  refine ⟨s₁, hwrite, readMsr_writeMsr plainHardware plainPlacement (fun v sys sys' h ↦ ?_)
    hwrite rfl rfl⟩
  obtain rfl := Except.ok.inj h
  exact congrArg Except.ok (Function.update_self (plainState.core.regs .rdi |>.setWidth 32) v sys)

/-! ## `cpuid` -/

/-- The structure that the argument of `call_cpuid` points to. -/
def cpuidAt (m : Mem) (regs : BitVec 64) : CpuidT where
  eax := member 4 m regs 0
  ebx := member 4 m regs 4
  ecx := member 4 m regs 8
  edx := member 4 m regs 12

/-- It is assigned. -/
def storeCpuid (m : Mem) (regs : BitVec 64) (r : CpuidT) : Mem :=
  let m := setMember 4 m regs 0 r.eax
  let m := setMember 4 m regs 4 r.ebx
  let m := setMember 4 m regs 8 r.ecx
  setMember 4 m regs 12 r.edx

theorem cpuidAt_storeCpuid (m : Mem) (regs : BitVec 64) (r : CpuidT) :
    cpuidAt (storeCpuid m regs r) regs = r := by
  have hself (m : Mem) (off : Nat) (v : BitVec 32) :
      member 4 (setMember 4 m regs off v) regs off = v := member_setMember_self (by decide)
  have hother (m : Mem) (off off' : Nat) (v : BitVec 32) (h : off + 4 ≤ off' ∨ off' + 4 ≤ off)
      (hoff : off ≤ 12) (hoff' : off' ≤ 12) :
      member 4 (setMember 4 m regs off v) regs off' = member 4 m regs off' :=
    member_setMember_of_disjoint (by decide) (by decide) (by omega) (by omega) h
  simp only [cpuidAt, storeCpuid, hself, hother, Nat.reduceAdd, Nat.reduceLeDiff, or_true]

/-- The part of `call_cpuid` that follows the instruction. -/
theorem finishes_storeCpuid {r : CpuidT} (hrax : s.core.regs .rax = r.eax.setWidth 64)
    (hrbx : s.core.regs .rbx = r.ebx.setWidth 64) (hrcx : s.core.regs .rcx = r.ecx.setWidth 64)
    (hrdx : s.core.regs .rdx = r.edx.setWidth 64) :
    ∃ s', Finishes (system hw) (text placement)
        [.store32 .rdi 0 .rax, .store32 .rdi 4 .rbx, .store32 .rdi 8 .rcx, .store32 .rdi 12 .rdx,
          .pop .rbx, .ret] s (.ok s') ∧
      s'.core.mem = storeCpuid s.core.mem (s.core.regs .rdi) r ∧ s'.sys = s.sys := by
  have hlow (v : BitVec 32) : (v.setWidth 64).setWidth 32 = v := by simp
  refine ⟨_, .step rfl (.step rfl (.step rfl (.step rfl (.step rfl ⟨1, rfl⟩)))), ?_, rfl⟩
  rw [storeCpuid, ← hlow r.eax, ← hlow r.ebx, ← hlow r.ecx, ← hlow r.edx, ← hrax, ← hrbx, ← hrcx,
    ← hrdx]
  rfl

theorem setCpuid_regs (m : Machine) (r : CpuidT) :
    (setCpuid m r).regs .rax = r.eax.setWidth 64 ∧ (setCpuid m r).regs .rbx = r.ebx.setWidth 64 ∧
    (setCpuid m r).regs .rcx = r.ecx.setWidth 64 ∧ (setCpuid m r).regs .rdx = r.edx.setWidth 64 ∧
    (setCpuid m r).regs .rdi = m.regs .rdi := by
  refine ⟨?_, ?_, ?_, ?_, ?_⟩ <;> simp [setCpuid, Machine.set_regs_of_ne]

theorem finishes_cpuid {eax ecx : BitVec 32} (hrax : s.core.regs .rax = eax.setWidth 64)
    (hrcx : s.core.regs .rcx = ecx.setWidth 64) :
    ∃ s', Finishes (system hw) (text placement)
        [.system .cpuid, .store32 .rdi 0 .rax, .store32 .rdi 4 .rbx, .store32 .rdi 8 .rcx,
          .store32 .rdi 12 .rdx, .pop .rbx, .ret] s (.ok s') ∧
      s'.core.mem = storeCpuid s.core.mem (s.core.regs .rdi) (hw.cpuid eax ecx s.sys) ∧
      s'.sys = s.sys := by
  have hlow (v : BitVec 32) : (v.setWidth 64).setWidth 32 = v := by simp
  let r := hw.cpuid eax ecx s.sys
  let answered : State σ := { s with core := setCpuid s.core r }
  have hsem (rest : Code) : sem (system hw) (text placement) (.system .cpuid) rest (.ok s) =
      (.ok answered, rest) := by
    show (Except.ok { s with core := setCpuid s.core (hw.cpuid _ _ _) }, rest) = _
    rw [hrax, hrcx, hlow, hlow]
  obtain ⟨hrax, hrbx, hrcx, hrdx, hrdi⟩ := setCpuid_regs s.core r
  have hstores : ∃ s', Finishes (system hw) (text placement) _ answered (.ok s') ∧
      s'.core.mem = storeCpuid s.core.mem (answered.core.regs .rdi) r ∧ s'.sys = s.sys :=
    finishes_storeCpuid hrax hrbx hrcx hrdx
  rw [hrdi] at hstores
  obtain ⟨s', hends, hstored⟩ := hstores
  exact ⟨s', hends.step (hsem _), hstored⟩

/-- The structure is apart from the word that is pushed. -/
theorem cpuidAt_push (hroom : Routine.callCpuid.contract.Room s.core) (v : BitVec 64) :
    cpuidAt (s.core.push v).mem (s.core.regs .rdi) = cpuidAt s.core.mem (s.core.regs .rdi) := by
  have hapart : Apart (s.core.rsp - 8) 8 (s.core.regs .rdi) 16 := by
    obtain ⟨hbuffer, hframe⟩ := hroom.apart (.rdi, 16) List.mem_cons_self
    exact ⟨Nat.le_trans (by decide) hframe, hbuffer⟩
  have hmember {off : Nat} (hoff : off + 4 ≤ 16) :
      member 4 (s.core.push v).mem (s.core.regs .rdi) off =
        member 4 s.core.mem (s.core.regs .rdi) off :=
    load_store_of_apart (hapart.sub (by decide) hoff)
  simp only [cpuidAt, hmember, Nat.reduceAdd, Nat.reduceLeDiff]

/-- `call_cpuid` replaces the leaf and the subleaf in the structure of its caller by what the
processor says of them. -/
theorem callCpuid_stores (hw : Hardware σ) (placement : Placement Label)
    (hroom : Routine.callCpuid.contract.Room s.core) :
    let asked := cpuidAt s.core.mem (s.core.regs .rdi)
    ∃ s', Finishes (system hw) (text placement) Routine.callCpuid.code s (.ok s') ∧
      cpuidAt s'.core.mem (s.core.regs .rdi) = hw.cpuid asked.eax asked.ecx s.sys ∧
      s'.sys = s.sys := by
  intro asked
  let pushed := s.core.push (s.core.regs .rbx)
  let leaf := pushed.set .rax ((member 4 pushed.mem (pushed.regs .rdi) 0).setWidth 64)
  let subleaf := leaf.set .rcx ((member 4 leaf.mem (leaf.regs .rdi) 8).setWidth 64)
  have hpushed : pushed.regs .rdi = s.core.regs .rdi := s.core.push_regs_of_ne _ (by decide)
  have hleaf : leaf.regs .rdi = s.core.regs .rdi :=
    (pushed.set_regs_of_ne _ (by decide)).trans hpushed
  have hsubleaf : subleaf.regs .rdi = s.core.regs .rdi :=
    (leaf.set_regs_of_ne _ (by decide)).trans hleaf
  have hasked : cpuidAt pushed.mem (s.core.regs .rdi) = asked := cpuidAt_push hroom _
  have hrax : subleaf.regs .rax = asked.eax.setWidth 64 := by
    rw [← hasked, ← hpushed]
    exact (leaf.set_regs_of_ne _ (by decide)).trans (pushed.set_regs_self .rax _)
  have hrcx : subleaf.regs .rcx = asked.ecx.setWidth 64 := by
    rw [← hasked, ← hleaf]
    exact leaf.set_regs_self .rcx _
  have hcpuid : ∃ s', Finishes (system hw) (text placement) _ { s with core := subleaf } (.ok s') ∧
      s'.core.mem = storeCpuid pushed.mem (subleaf.regs .rdi) (hw.cpuid asked.eax asked.ecx s.sys) ∧
      s'.sys = s.sys := finishes_cpuid hrax hrcx
  obtain ⟨s', hends, hmem, hsys⟩ := hcpuid
  refine ⟨s', Finishes.step rfl (Finishes.step rfl (Finishes.step rfl hends)), ?_, hsys⟩
  rw [hmem, hsubleaf, cpuidAt_storeCpuid]

end values

/-- The leaf comes back. -/
theorem callCpuid_stores_plainState :
    ∃ s', Finishes (system plainHardware) (text plainPlacement) Routine.callCpuid.code plainState
        (.ok s') ∧
      cpuidAt s'.core.mem 0x2000 = ⟨0, 0, 0, 0⟩ ∧ s'.sys = plainState.sys :=
  callCpuid_stores plainHardware plainPlacement room_plainState

end Hypervi.Freestanding.X86Utils
