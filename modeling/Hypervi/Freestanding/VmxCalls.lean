import Hypervi.Freestanding.X86Utils

/-!
# What the VMX routines return

The routines around the VMX instructions jump to `vmx_error_tail` for their result, which
reads the flags.  `callVmx_status` says what a caller asked of the processor, and that it
gets the answer: 0, 1 or 2 for the three outcomes, and for `vmread` the value as well.
-/

namespace Hypervi.Freestanding.X86Utils

open Memory X86 X86.Routine

universe u

/-- What the caller of a VMX routine asks for, by its arguments in `rdi` and `rsi`. -/
def Routine.asked (m : Machine) : Routine → Option Request
  | .callVmxon => some (.vmxon (m.regs .rdi))
  | .callVmclear => some (.vmclear (m.regs .rdi))
  | .callVmptrld => some (.vmptrld (m.regs .rdi))
  | .callInvept => some (.invept (m.regs .rdi) (VmxInstr.descriptor m .rsi))
  | .callInvvpid => some (.invvpid (m.regs .rdi) (VmxInstr.descriptor m .rsi))
  | .callVmwrite => some (.vmwrite (m.regs .rdi) (m.regs .rsi))
  | .callVmread => some (.vmread (m.regs .rdi))
  | .callVmlaunch => some .vmlaunch
  | _ => none

/-- The result of a VMX routine: 1 when there is an error code to be read, 2 when there is
none. -/
def Outcome.status : Outcome → BitVec 64
  | .succeed => 0
  | .failValid => 1
  | .failInvalid => 2

theorem Outcome.status_eq_zero_iff (o : Outcome) : o.status = 0 ↔ o = .succeed := by
  cases o <;> decide

/-- `vmx_error_tail` looks at the zero flag first. -/
theorem Outcome.zf_rflags (o : Outcome) (f : BitVec 64) :
    (o.rflags f).getLsbD zeroFlag = decide (o = .failValid) := by
  have hclear : (f &&& ~~~vmxFlags).getLsbD zeroFlag = false := by
    simp [vmxFlags, zeroFlag]
  cases o with
  | succeed => exact hclear
  | failInvalid =>
      rw [Outcome.rflags, getLsbD_setFlag _ (by decide), if_neg (by decide), hclear]
      rfl
  | failValid =>
      rw [Outcome.rflags, getLsbD_setFlag _ (by decide), if_pos rfl]
      rfl

theorem Outcome.cf_rflags (o : Outcome) (f : BitVec 64) :
    (o.rflags f).getLsbD carryFlag = decide (o = .failInvalid) := by
  have hclear : (f &&& ~~~vmxFlags).getLsbD carryFlag = false := by
    simp [vmxFlags, carryFlag]
  cases o with
  | succeed => exact hclear
  | failInvalid =>
      rw [Outcome.rflags, getLsbD_setFlag _ (by decide), if_pos rfl]
      rfl
  | failValid =>
      rw [Outcome.rflags, getLsbD_setFlag _ (by decide), if_neg (by decide), hclear]
      rfl

section calls

variable {σ : Type u} {hw : Hardware σ} {placement : Placement Label} {r : Routine}
  {s : State σ} {request : Request}

/-- A result for the caller, with memory and the processor as the instruction left them. -/
def Answered (hw : Hardware σ) (placement : Placement Label) (code : Code) (s : State σ)
    (outcome : Outcome) (mem : Mem) (sys : σ) : Prop :=
  ∃ s', Finishes (system hw) (text placement) code s (.ok s') ∧
    s'.core.regs .rax = outcome.status ∧ s'.core.mem = mem ∧ s'.sys = sys

theorem Answered.step {i : Instr Label SysInstr} {rest code : Code} {s s' : State σ}
    {outcome : Outcome} {mem : Mem} {sys : σ}
    (hsem : sem (system hw) (text placement) i rest (.ok s) = (.ok s', code))
    (h : Answered hw placement code s' outcome mem sys) :
    Answered hw placement (i :: rest) s outcome mem sys := by
  obtain ⟨s'', hends, hresult⟩ := h
  exact ⟨s'', hends.step hsem, hresult⟩

section jumps

variable {l : Label} {rest : Code} {outcome : Outcome} {mem : Mem} {sys : σ}

theorem Answered.jz
    (h : Answered hw placement (if s.zf then block l else rest) s outcome mem sys) :
    Answered hw placement (.jz l :: rest) s outcome mem sys := Answered.step rfl h

theorem Answered.jc
    (h : Answered hw placement (if s.cf then block l else rest) s outcome mem sys) :
    Answered hw placement (.jc l :: rest) s outcome mem sys := Answered.step rfl h

end jumps

/-- `vmx_error_tail` turns the flags into a result. -/
theorem answered_vmxErrorTail {outcome : Outcome} {f : BitVec 64}
    (hflags : s.rflags = outcome.rflags f) :
    Answered hw placement (block .vmxErrorTail) s outcome s.core.mem s.sys := by
  have hzf : s.zf = decide (outcome = .failValid) := by rw [State.zf, hflags, outcome.zf_rflags]
  have hcf : s.cf = decide (outcome = .failInvalid) := by rw [State.cf, hflags, outcome.cf_rflags]
  cases outcome with
  | succeed =>
      refine Answered.jz ?_
      rw [if_neg (by rw [hzf]; decide)]
      refine Answered.jc ?_
      rw [if_neg (by rw [hcf]; decide)]
      refine Answered.step rfl ⟨_, ⟨1, rfl⟩, ?_, rfl, rfl⟩
      exact (Machine.set_regs_of_ne _ _ (by decide)).trans
        ((Machine.set_regs_self _ _ _).trans BitVec.xor_self)
  | failValid =>
      refine Answered.jz ?_
      rw [if_pos (by rw [hzf]; decide)]
      refine Answered.step rfl ⟨_, ⟨1, rfl⟩, ?_, rfl, rfl⟩
      exact (Machine.set_regs_of_ne _ _ (by decide)).trans (Machine.set_regs_self _ _ _)
  | failInvalid =>
      refine Answered.jz ?_
      rw [if_neg (by rw [hzf]; decide)]
      refine Answered.jc ?_
      rw [if_pos (by rw [hcf]; decide)]
      refine Answered.step rfl ⟨_, ⟨1, rfl⟩, ?_, rfl, rfl⟩
      exact (Machine.set_regs_of_ne _ _ (by decide)).trans (Machine.set_regs_self _ _ _)

/-- The machine after a VMX instruction. -/
def VmxInstr.done (i : VmxInstr) (s : State σ) (reply : Reply σ) : State σ :=
  { s with
    core := { s.core with mem := i.deliver s.core reply.outcome reply.value }
    rflags := reply.outcome.rflags s.rflags
    sys := reply.sys }

theorem sem_vmx {i : VmxInstr} {rest : Code} {reply : Reply σ}
    (hreply : hw.vmx (i.request s.core) s.sys = .ok reply) :
    sem (system hw) (text placement) (.system (.vmx i)) rest (.ok s) =
      (.ok (i.done s reply), rest) := by
  show ((hw.vmx (i.request s.core) s.sys).map _, rest) = _
  rw [hreply]
  rfl

theorem sem_vmx_exit {i : VmxInstr} {rest : Code} {exit : Exit}
    (hexit : hw.vmx (i.request s.core) s.sys = .error exit) :
    sem (system hw) (text placement) (.system (.vmx i)) rest (.ok s) = (.error exit, rest) := by
  show ((hw.vmx (i.request s.core) s.sys).map _, rest) = _
  rw [hexit]
  rfl

/-- A code asks the processor for something and passes its answer on. -/
structure Asks (hw : Hardware σ) (placement : Placement Label) (code : Code) (s : State σ)
    (request : Request) (mem : Reply σ → Mem) : Prop where
  exit : ∀ exit, hw.vmx request s.sys = .error exit →
    Finishes (system hw) (text placement) code s (.error exit)
  answer : ∀ reply, hw.vmx request s.sys = .ok reply →
    Answered hw placement code s reply.outcome (mem reply) reply.sys

theorem Asks.step {i : Instr Label SysInstr} {rest code : Code} {s' : State σ}
    {mem : Reply σ → Mem} (hsys : s'.sys = s.sys)
    (hsem : sem (system hw) (text placement) i rest (.ok s) = (.ok s', code))
    (h : Asks hw placement code s' request mem) :
    Asks hw placement (i :: rest) s request mem where
  exit e he := (h.exit e (hsys ▸ he)).step hsem
  answer reply hreply := (h.answer reply (hsys ▸ hreply)).step hsem

/-- A VMX instruction and the tail. -/
theorem asks_vmx (i : VmxInstr) :
    Asks hw placement [.system (.vmx i), .jmp .vmxErrorTail] s (i.request s.core)
      fun reply ↦ i.deliver s.core reply.outcome reply.value where
  exit _ he := Finishes.exit (sem_vmx_exit he)
  answer _ hreply :=
    Answered.step (sem_vmx hreply) (Answered.step rfl (answered_vmxErrorTail rfl))

/-- The same with the operand to be taken off the stack; `pop` leaves the flags alone. -/
theorem asks_vmx_pop (i : VmxInstr) :
    Asks hw placement [.system (.vmx i), .pop .rdi, .jmp .vmxErrorTail] s (i.request s.core)
      fun reply ↦ i.deliver s.core reply.outcome reply.value where
  exit _ he := Finishes.exit (sem_vmx_exit he)
  answer reply hreply := by
    refine Answered.step (sem_vmx hreply) (Answered.step rfl (Answered.step rfl ?_))
    exact answered_vmxErrorTail (f := s.rflags) rfl

/-- What is pushed is what `vmxon`, `vmclear` and `vmptrld` find at the stack pointer. -/
theorem load_pushed (m : Machine) (v : BitVec 64) :
    load64 (m.push v).mem ((m.push v).regs .rsp) = v := by
  have hrsp : (m.push v).regs .rsp = m.rsp - 8 := m.push_rsp v
  rw [hrsp, Machine.push_mem, load64, store64, load_store_self (by decide)]

/-- The state after the operand is pushed. -/
def pushOperand (s : State σ) : State σ := { s with core := s.core.push (s.core.regs .rdi) }

theorem Asks.push {code : Code} {mem : Reply σ → Mem}
    (h : Asks hw placement code (pushOperand s) request mem) :
    Asks hw placement (.push .rdi :: code) s request mem := by
  have hsys : (pushOperand s).sys = s.sys := rfl
  exact Asks.step hsys rfl h

theorem Asks.clc {code : Code} {mem : Reply σ → Mem}
    (h : Asks hw placement code { s with rflags := setFlag s.rflags carryFlag false } request mem) :
    Asks hw placement (.clc :: code) s request mem := by
  have hsys : ({ s with rflags := setFlag s.rflags carryFlag false } : State σ).sys = s.sys := rfl
  exact Asks.step hsys rfl h

/-- The instructions whose operand is pushed ask for what was in `rdi`. -/
theorem request_pushed :
    (VmxInstr.vmxon .rsp).request (pushOperand s).core = .vmxon (s.core.regs .rdi) ∧
    (VmxInstr.vmclear .rsp).request (pushOperand s).core = .vmclear (s.core.regs .rdi) ∧
    (VmxInstr.vmptrld .rsp).request (pushOperand s).core = .vmptrld (s.core.regs .rdi) := by
  have hload := load_pushed s.core (s.core.regs .rdi)
  exact ⟨congrArg Request.vmxon hload, congrArg Request.vmclear hload,
    congrArg Request.vmptrld hload⟩

/-- A VMX routine asks for what its caller asked for. -/
theorem asks_asked (hw : Hardware σ) (placement : Placement Label)
    (hasked : r.asked s.core = some request) :
    ∃ mem, Asks hw placement r.code s request mem ∧
      (r = .callVmread → ∀ reply : Reply σ, mem reply =
        if reply.outcome = .succeed then store64 s.core.mem (s.core.regs .rsi) reply.value
        else s.core.mem) := by
  obtain ⟨hvmxon, hvmclear, hvmptrld⟩ := request_pushed (s := s)
  cases r <;> cases hasked
  case callVmread => exact ⟨_, asks_vmx (.vmread .rsi .rdi), fun _ _ ↦ rfl⟩
  case callVmwrite => exact ⟨_, asks_vmx (.vmwrite .rdi .rsi), fun h ↦ nomatch h⟩
  case callInvept => exact ⟨_, asks_vmx (.invept .rdi .rsi), fun h ↦ nomatch h⟩
  case callInvvpid => exact ⟨_, asks_vmx (.invvpid .rdi .rsi), fun h ↦ nomatch h⟩
  case callVmlaunch => exact ⟨_, asks_vmx .vmlaunch, fun h ↦ nomatch h⟩
  case callVmxon =>
    rw [← hvmxon]
    exact ⟨_, Asks.push (Asks.clc (asks_vmx_pop (.vmxon .rsp))), fun h ↦ nomatch h⟩
  case callVmclear =>
    rw [← hvmclear]
    exact ⟨_, Asks.push (asks_vmx_pop (.vmclear .rsp)), fun h ↦ nomatch h⟩
  case callVmptrld =>
    rw [← hvmptrld]
    exact ⟨_, Asks.push (asks_vmx_pop (.vmptrld .rsp)), fun h ↦ nomatch h⟩

/-- A VMX routine asks the processor for what its caller asked for.  It leaves with an exit
when the processor does; else it returns the status of the outcome, and `call_vmread` stores
the value of the field when, and only when, the status is 0. -/
theorem callVmx_status (hw : Hardware σ) (placement : Placement Label)
    (hasked : r.asked s.core = some request) :
    (∀ exit, hw.vmx request s.sys = .error exit →
      Finishes (system hw) (text placement) r.code s (.error exit)) ∧
    (∀ reply, hw.vmx request s.sys = .ok reply →
      ∃ s', Finishes (system hw) (text placement) r.code s (.ok s') ∧
        s'.core.regs .rax = reply.outcome.status ∧ s'.sys = reply.sys ∧
        (r = .callVmread → s'.core.mem =
          if s'.core.regs .rax = 0 then store64 s.core.mem (s.core.regs .rsi) reply.value
          else s.core.mem)) := by
  obtain ⟨mem, hasks, hvmread⟩ := asks_asked hw placement hasked
  refine ⟨hasks.exit, fun reply hreply ↦ ?_⟩
  obtain ⟨s', hends, hrax, hmem, hsys⟩ := hasks.answer reply hreply
  refine ⟨s', hends, hrax, hsys, fun hr ↦ ?_⟩
  rw [hmem, hvmread hr reply, hrax]
  exact if_congr reply.outcome.status_eq_zero_iff.symm rfl rfl

end calls

/-- Outside of VMX operation `vmwrite` fails without an error code. -/
theorem callVmx_status_callVmwrite :
    ∃ s', Finishes (system plainHardware) (text plainPlacement) Routine.callVmwrite.code plainState
        (.ok s') ∧ s'.core.regs .rax = 2 := by
  obtain ⟨s', hends, hrax, -⟩ := (callVmx_status plainHardware plainPlacement (r := .callVmwrite)
    (s := plainState) rfl).2 ⟨.failInvalid, 0, plainState.sys⟩ rfl
  exact ⟨s', hends, hrax⟩

end Hypervi.Freestanding.X86Utils
