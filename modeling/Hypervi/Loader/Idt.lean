import Hypervi.Freestanding.Macros

/-!
# The exception stubs of the loader

`idt.S` makes one stub of each exception that `efi_idt_init` hooks.  A stub saves the
general registers under the frame of the processor, passes the address of the whole to
its handler as an `idt_ctx *`, switches to the stack that the handler returns, takes the
registers back and ends in `iretq`.

The error code, pushed by the processor or as a zero by the stub, lies between the
registers and the frame, and nothing takes it off: `iretq` reads every field one word too
low.  `resumed_eq` says what it loads, `stub_resumes_iff` when that is the interrupted context.
-/

namespace Hypervi.Loader

open X86 Memory Freestanding

/-- The hooked exceptions. -/
inductive Exception where
  | pagefault | invalidOpcode | generalProtectionFault | stackSegmentFault | invalidTss
  | segmentNotPresent | doubleFault
  deriving DecidableEq

namespace Exception

/-- Its index in `hooks`. -/
def index : Exception → Nat
  | invalidOpcode => 0x6
  | doubleFault => 0x8
  | invalidTss => 0xA
  | segmentNotPresent => 0xB
  | stackSegmentFault => 0xC
  | generalProtectionFault => 0xD
  | pagefault => 0xE

/-- The exceptions for which the processor pushes an error code. -/
def pushesErrorCode (e : Exception) : Bool := e.index ∈ [8, 10, 11, 12, 13, 14, 17]

end Exception

/-- A handler that returns the pointer it was given and leaves the frame as it was. -/
structure Handler where
  run : Machine → Machine
  returns : ∀ s, (run s).regs .rax = s.regs .rcx
  keeps : ∀ s, ∀ i < 168, (run s).mem (s.regs .rcx + BitVec.ofNat 64 i) =
    s.mem (s.regs .rcx + BitVec.ofNat 64 i)

/-- `idt_ctx` -/
structure IdtCtx where
  r15 : BitVec 64
  r14 : BitVec 64
  r13 : BitVec 64
  r12 : BitVec 64
  r11 : BitVec 64
  r10 : BitVec 64
  r9 : BitVec 64
  r8 : BitVec 64
  rdi : BitVec 64
  rsi : BitVec 64
  rbp : BitVec 64
  rbx : BitVec 64
  rdx : BitVec 64
  rcx : BitVec 64
  rax : BitVec 64
  errorCode : BitVec 64
  rip : BitVec 64
  cs : BitVec 64
  rflags : BitVec 64
  rsp : BitVec 64
  ss : BitVec 64

/-- The `idt_ctx` at an address. -/
def IdtCtx.read (m : Mem) (a : BitVec 64) : IdtCtx where
  r15 := wordAt m a 0
  r14 := wordAt m a 1
  r13 := wordAt m a 2
  r12 := wordAt m a 3
  r11 := wordAt m a 4
  r10 := wordAt m a 5
  r9 := wordAt m a 6
  r8 := wordAt m a 7
  rdi := wordAt m a 8
  rsi := wordAt m a 9
  rbp := wordAt m a 10
  rbx := wordAt m a 11
  rdx := wordAt m a 12
  rcx := wordAt m a 13
  rax := wordAt m a 14
  errorCode := wordAt m a 15
  rip := wordAt m a 16
  cs := wordAt m a 17
  rflags := wordAt m a 18
  rsp := wordAt m a 19
  ss := wordAt m a 20

/-- The `idt_ctx` of an interrupted context. -/
def IdtCtx.ofContext (ctx : Context) (errorCode : BitVec 64) : IdtCtx where
  r15 := ctx.gpr .r15
  r14 := ctx.gpr .r14
  r13 := ctx.gpr .r13
  r12 := ctx.gpr .r12
  r11 := ctx.gpr .r11
  r10 := ctx.gpr .r10
  r9 := ctx.gpr .r9
  r8 := ctx.gpr .r8
  rdi := ctx.gpr .rdi
  rsi := ctx.gpr .rsi
  rbp := ctx.gpr .rbp
  rbx := ctx.gpr .rbx
  rdx := ctx.gpr .rdx
  rcx := ctx.gpr .rcx
  rax := ctx.gpr .rax
  errorCode := errorCode
  rip := ctx.rip
  cs := ctx.cs.setWidth 64
  rflags := ctx.rflags
  rsp := ctx.gpr .rsp
  ss := ctx.ss.setWidth 64

/-- What a stub saves, from the `idt_ctx` up. -/
def savedWords (ctx : Context) (errorWord : BitVec 64) : List (BitVec 64) :=
  gpRegs.map ctx.gpr ++ errorWord :: ctx.frame

theorem IdtCtx.read_of_holds {m : Mem} {a : BitVec 64} {ctx : Context} {errorWord : BitVec 64}
    (h : Holds m a (savedWords ctx errorWord)) :
    IdtCtx.read m a = IdtCtx.ofContext ctx errorWord := by
  simp only [IdtCtx.read, IdtCtx.ofContext, IdtCtx.mk.injEq]
  exact ⟨h 0 _ rfl, h 1 _ rfl, h 2 _ rfl, h 3 _ rfl, h 4 _ rfl, h 5 _ rfl, h 6 _ rfl, h 7 _ rfl,
    h 8 _ rfl, h 9 _ rfl, h 10 _ rfl, h 11 _ rfl, h 12 _ rfl, h 13 _ rfl, h 14 _ rfl,
    h 15 _ rfl, h 16 _ rfl, h 17 _ rfl, h 18 _ rfl, h 19 _ rfl, h 20 _ rfl⟩

/-! ## The stubs -/

/-- `idt_entry_end` as far as the call. -/
def idtEntrySave : List Instr := .cld :: (pushGpRegs ++ [.mov .rcx .rsp])

/-- `idt_entry_end` from the return of the handler to `iretq`. -/
def idtEntryRestore : List Instr := .mov .rsp .rax :: popGpRegs

/-- `idt_entry_with_error` as far as the call. -/
def idtEntryWithError : List Instr := idtEntrySave

/-- `idt_entry_without_error` as far as the call. -/
def idtEntryWithoutError : List Instr := .pushImm 0 :: idtEntrySave

/-- The stub of each exception as far as the call. -/
def stubSave : Exception → List Instr
  | .pagefault => idtEntryWithError
  | .invalidOpcode => idtEntryWithoutError
  | .generalProtectionFault => idtEntryWithError
  | .stackSegmentFault => idtEntryWithError
  | .invalidTss => idtEntryWithError
  | .segmentNotPresent => idtEntryWithError
  | .doubleFault => idtEntryWithError

section blocks

variable {s : Machine} {ctx : Context} {errorWord : BitVec 64}

/-- The registers are saved on top of the error word and the frame. -/
theorem holds_idtEntrySave (hregs : ∀ r, r ≠ .rsp → s.regs r = ctx.gpr r)
    (h : Holds s.mem s.rsp (errorWord :: ctx.frame)) :
    (run idtEntrySave s).regs .rcx = (run idtEntrySave s).rsp ∧
      Holds (run idtEntrySave s).mem (run idtEntrySave s).rsp (savedWords ctx errorWord) := by
  have hrun : run idtEntrySave s =
      (run pushGpRegs s).set .rcx (run pushGpRegs s).rsp :=
    run_append pushGpRegs [.mov .rcx .rsp] s
  have hrsp : (run idtEntrySave s).rsp = (run pushGpRegs s).rsp := by
    rw [hrun]
    exact Machine.set_regs_of_ne _ _ (by decide)
  have hgpr : gpRegs.map s.regs = gpRegs.map ctx.gpr :=
    List.map_congr_left fun r hr ↦ hregs r (mem_gpRegs_iff.mp hr)
  constructor
  · rw [hrsp, hrun, Machine.set_regs_self]
  · rw [hrsp, hrun, Machine.set_mem, savedWords, ← hgpr]
    exact holds_pushGpRegs (by simp [Context.frame]) h

/-- From the address that the handler returns the registers are taken back. -/
theorem run_idtEntryRestore (h : Holds s.mem (s.regs .rax) (savedWords ctx errorWord)) :
    (∀ r, r ≠ .rsp → (run idtEntryRestore s).regs r = ctx.gpr r) ∧
      Holds (run idtEntryRestore s).mem (run idtEntryRestore s).rsp (errorWord :: ctx.frame) := by
  have hrsp : (s.set .rsp (s.regs .rax)).rsp = s.regs .rax := s.set_regs_self .rsp (s.regs .rax)
  refine run_popGpRegs (s := s.set .rsp (s.regs .rax)) ?_
  rw [hrsp]
  exact h

end blocks

section stub

variable (e : Exception) (ctx : Context) (top : BitVec 64) (errorCode : BitVec 64) (mem : Mem)
  (returnAddress : BitVec 64) (handler : Handler)

/-- The processor delivers the exception. -/
def delivered : Machine :=
  deliver ctx top (if e.pushesErrorCode then some errorCode else none) mem

/-- The machine that the handler is called on. -/
def called : Machine := (run (stubSave e) (delivered e ctx top errorCode mem)).push returnAddress

/-- What the handler sees through its argument. -/
def seen : IdtCtx :=
  let s := called e ctx top errorCode mem returnAddress
  IdtCtx.read s.mem (s.regs .rcx)

/-- The whole stub, up to its `iretq`. -/
def stub : List Instr := stubSave e ++ .call returnAddress handler.run :: idtEntryRestore

/-- The context that the stub resumes. -/
def resumed : Context :=
  iretq (run (stub e returnAddress handler) (delivered e ctx top errorCode mem))

/-- The word between the saved registers and the frame. -/
def errorWord : BitVec 64 := if e.pushesErrorCode then errorCode else 0

/-- A stub saves the registers on top of the error word, whoever pushes that. -/
theorem holds_stubSave :
    let s := run (stubSave e) (delivered e ctx top errorCode mem)
    s.regs .rcx = s.rsp ∧ Holds s.mem s.rsp (savedWords ctx (errorWord e errorCode)) := by
  have hregs (code : Option (BitVec 64)) : ∀ r, r ≠ .rsp →
      (deliver ctx top code mem).regs r = ctx.gpr r :=
    fun r hr ↦ deliver_regs ctx top code mem hr
  have hwith := holds_idtEntrySave (hregs (some errorCode))
    (holds_deliver ctx top (some errorCode) mem)
  cases e with
  | invalidOpcode =>
      -- the stub pushes the error word itself
      have hpush := (holds_deliver ctx top none mem).push (v := 0) (by simp [Context.frame])
      have hpushRegs : ∀ r, r ≠ .rsp →
          ((deliver ctx top none mem).push 0).regs r = ctx.gpr r := by
        intro r hr
        rw [Machine.push_regs_of_ne _ _ hr, hregs none r hr]
      exact holds_idtEntrySave hpushRegs hpush
  | pagefault | generalProtectionFault | stackSegmentFault | invalidTss | segmentNotPresent
  | doubleFault => exact hwith

/-- The return address is pushed below the frame. -/
theorem holds_called :
    Holds (called e ctx top errorCode mem returnAddress).mem
      ((called e ctx top errorCode mem returnAddress).regs .rcx)
      (savedWords ctx (errorWord e errorCode)) := by
  obtain ⟨hrcx, hsaved⟩ := holds_stubSave e ctx top errorCode mem
  have hpush := hsaved.push (v := returnAddress) (by simp [savedWords, gpRegs, Context.frame])
  rw [Holds.cons_iff, Machine.push_rsp, BitVec.sub_add_cancel] at hpush
  rw [called, Machine.push_regs_of_ne _ _ (by decide), hrcx]
  exact hpush.2

/-- The handler sees the interrupted context. -/
theorem seen_eq :
    seen e ctx top errorCode mem returnAddress = IdtCtx.ofContext ctx (errorWord e errorCode) :=
  IdtCtx.read_of_holds (holds_called e ctx top errorCode mem returnAddress)

/-- The general registers come back, and the error word is left on top of the frame. -/
theorem holds_stub :
    let s := run (stub e returnAddress handler) (delivered e ctx top errorCode mem)
    (∀ r, r ≠ .rsp → s.regs r = ctx.gpr r) ∧
      Holds s.mem s.rsp (errorWord e errorCode :: ctx.frame) := by
  have hcalled := holds_called e ctx top errorCode mem returnAddress
  have hhandled : Holds (handler.run (called e ctx top errorCode mem returnAddress)).mem
      ((handler.run (called e ctx top errorCode mem returnAddress)).regs .rax)
      (savedWords ctx (errorWord e errorCode)) := by
    rw [handler.returns]
    exact hcalled.congr (handler.keeps _)
  rw [stub, run_append]
  exact run_idtEntryRestore hhandled

/-- What `iretq` loads: each field is the word below its own. -/
theorem resumed_eq :
    resumed e ctx top errorCode mem returnAddress handler =
      { gpr := Function.update ctx.gpr .rsp ctx.rflags
        rip := errorWord e errorCode
        cs := ctx.rip.setWidth 16
        rflags := ctx.cs.setWidth 64
        ss := (ctx.gpr .rsp).setWidth 16 } := by
  obtain ⟨hregs, hframe⟩ := holds_stub e ctx top errorCode mem returnAddress handler
  have hrip := hframe 0 _ rfl
  have hcs := hframe 1 _ rfl
  have hrflags := hframe 2 _ rfl
  have hrsp := hframe 3 _ rfl
  have hss := hframe 4 _ rfl
  rw [resumed, iretq, hrip, hcs, hrflags, hrsp, hss]
  congr 1
  funext r
  by_cases hr : r = .rsp
  · subst hr
    rw [Function.update_self, Function.update_self]
  · rw [Function.update_of_ne hr, Function.update_of_ne hr, hregs r hr]

/-- The interrupted context is one that a shift by a word does not change. -/
structure ShiftInvariant (ctx : Context) (errorWord : BitVec 64) : Prop where
  rip : errorWord = ctx.rip
  cs : ctx.rip.setWidth 16 = ctx.cs
  rflags : ctx.cs.setWidth 64 = ctx.rflags
  rsp : ctx.rflags = ctx.gpr .rsp
  ss : (ctx.gpr .rsp).setWidth 16 = ctx.ss

/-- The handler always sees the interrupted context and the general registers always come
back, but it is only when all the words of the frame coincide that the context is
resumed. -/
theorem stub_resumes_iff :
    (seen e ctx top errorCode mem returnAddress =
        IdtCtx.ofContext ctx (errorWord e errorCode) ∧
      resumed e ctx top errorCode mem returnAddress handler = ctx) ↔
    ShiftInvariant ctx (errorWord e errorCode) := by
  rw [resumed_eq]
  constructor
  · rintro ⟨-, h⟩
    have hrsp : ctx.rflags = ctx.gpr .rsp :=
      (Function.update_self Gpr.rsp ctx.rflags ctx.gpr).symm.trans
        (congrFun (congrArg Context.gpr h) .rsp)
    exact ⟨congrArg Context.rip h, congrArg Context.cs h, congrArg Context.rflags h, hrsp,
      congrArg Context.ss h⟩
  · rintro ⟨hrip, hcs, hrflags, hrsp, hss⟩
    have hgpr : Function.update ctx.gpr .rsp ctx.rflags = ctx.gpr := by
      rw [hrsp, Function.update_eq_self]
    refine ⟨seen_eq e ctx top errorCode mem returnAddress, ?_⟩
    rw [hrip, hcs, hrflags, hss, hgpr]

end stub

/-- A handler that returns its argument and does nothing else: `mov rax, rcx` and `ret`. -/
def idleHandler : Handler where
  run := fun s ↦ (s.set .rax (s.regs .rcx)).set .rsp (s.rsp + 8)
  returns := fun s ↦ (Machine.set_regs_of_ne _ _ (by decide)).trans (s.set_regs_self ..)
  keeps := fun _ _ _ ↦ rfl

/-- A kernel context. -/
def kernelContext : Context where
  gpr := fun r ↦ if r = .rsp then 0x8000 else 0
  rip := 0x1000
  cs := 0x38
  rflags := 0x202
  ss := 0x30

/-- A page fault of it is resumed at its error code. -/
theorem pagefault_resumed_at_errorCode :
    ¬ (seen .pagefault kernelContext 0x8000 2 (fun _ ↦ 0) 0x2000 =
        IdtCtx.ofContext kernelContext (errorWord .pagefault 2) ∧
      resumed .pagefault kernelContext 0x8000 2 (fun _ ↦ 0) 0x2000 idleHandler =
        kernelContext) := by
  rintro ⟨-, h⟩
  rw [resumed_eq] at h
  exact absurd (congrArg Context.rip h) (by decide)

end Hypervi.Loader
