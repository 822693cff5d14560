import Hypervi.Ia32.Vmx
import Hypervi.X86.Convention

/-!
# The routines of `x86utils.S`

The instructions that C++ has no words for, each behind a function with the calling
convention of the System V ABI.  What the system instructions do is up to a `Hardware`:
it may refuse any of them with an exception, and refuses those that do not exist.

* `code` is the text of the routines as the source has it, `block` that of its labels.
* `x86utils_keeps`: every routine keeps the calling convention, whatever the hardware does.
-/

namespace Hypervi.Freestanding.X86Utils

open Memory Ia32 X86 X86.Routine

universe u

/-! ## System instructions -/

/-- The registers that the macro `rw_cr` is for. -/
inductive ControlRegister where
  | cr0 | cr1 | cr2 | cr3 | cr4 | dr7
  deriving DecidableEq

/-- The registers that the macro `rw_r16` is for. -/
inductive R16 where
  | es | cs | ss | ds | fs | gs
  deriving DecidableEq

def R16.toSegmentRegister : R16 → SegmentRegister
  | .es => .es
  | .cs => .cs
  | .ss => .ss
  | .ds => .ds
  | .fs => .fs
  | .gs => .gs

inductive Table where
  | gdt | idt
  deriving DecidableEq

/-- What a VMX instruction asks of the processor. -/
inductive Request where
  | vmxon (vmxon : BitVec 64)
  | vmclear (vmcs : BitVec 64)
  | vmptrld (vmcs : BitVec 64)
  | invept (type : BitVec 64) (descriptor : BitVec 64 × BitVec 64)
  | invvpid (type : BitVec 64) (descriptor : BitVec 64 × BitVec 64)
  | vmwrite (field value : BitVec 64)
  | vmread (field : BitVec 64)
  | vmlaunch

/-- VMsucceed, VMfailInvalid and VMfailValid. -/
inductive Outcome where
  | succeed | failInvalid | failValid
  deriving DecidableEq

/-- The answer to a request, with the value that `vmread` stores. -/
structure Reply (σ : Type u) where
  outcome : Outcome
  value : BitVec 64
  sys : σ

/-- `cpuid_t` -/
structure CpuidT where
  eax : BitVec 32
  ebx : BitVec 32
  ecx : BitVec 32
  edx : BitVec 32

/-- The system registers and instructions of a processor.  `lar` and `lsl` give nothing when
they clear `ZF`. -/
structure Hardware (σ : Type u) where
  control : ControlRegister → σ → Except Exit (BitVec 64)
  setControl : ControlRegister → BitVec 64 → σ → Except Exit σ
  selector : SegmentRegister → σ → BitVec 16
  setSelector : SegmentRegister → BitVec 16 → σ → Except Exit σ
  /-- The far return with a new code segment. -/
  farReturn : BitVec 16 → σ → Except Exit σ
  table : Table → σ → BitVec 80
  setTable : Table → BitVec 80 → σ → Except Exit σ
  rdmsr : BitVec 32 → σ → Except Exit (BitVec 64)
  wrmsr : BitVec 32 → BitVec 64 → σ → Except Exit σ
  cpuid : BitVec 32 → BitVec 32 → σ → CpuidT
  lar : BitVec 16 → σ → Option (BitVec 64)
  lsl : BitVec 16 → σ → Option (BitVec 64)
  clts : σ → Except Exit σ
  vmx : Request → σ → Except Exit (Reply σ)
  /-- `cr1` is reserved. -/
  control_cr1 : ∀ sys, control .cr1 sys = .error .exception
  setControl_cr1 : ∀ value sys, setControl .cr1 value sys = .error .exception
  /-- `mov` does not load `cs`. -/
  setSelector_cs : ∀ value sys, setSelector .cs value sys = .error .exception

/-- The VMX instructions, with the registers of their operands: a base stands for a memory
operand. -/
inductive VmxInstr where
  | vmxon (base : Gpr)
  | vmclear (base : Gpr)
  | vmptrld (base : Gpr)
  | invept (type base : Gpr)
  | invvpid (type base : Gpr)
  | vmwrite (field value : Gpr)
  | vmread (base field : Gpr)
  | vmlaunch

inductive SysInstr where
  | movFrom (d : Gpr) (r : ControlRegister)
  | movTo (r : ControlRegister) (src : Gpr)
  /-- `mov ax, es`, `str ax` and `sldt ax`. -/
  | storeSelector (d : Gpr) (s : SegmentRegister)
  /-- `mov es, di` and `ltr di`. -/
  | loadSelector (s : SegmentRegister) (src : Gpr)
  | storeTable (table : Table) (base : Gpr)
  | loadTable (table : Table) (base : Gpr)
  | rdmsr
  | wrmsr
  | cpuid
  | lar (d src : Gpr)
  | lsl (d src : Gpr)
  | clts
  | cli
  | sti
  | vmx (i : VmxInstr)

def SysInstr.effects : Effects SysInstr where
  clobbers
    | .movFrom d _ | .storeSelector d _ | .lar d _ | .lsl d _ => [d]
    | .rdmsr => [.rax, .rdx]
    | .cpuid => [.rax, .rbx, .rcx, .rdx]
    | _ => []
  writes
    | .storeTable _ base => [(base, 10)]
    | .vmx (.vmread base _) => [(base, 8)]
    | _ => []

/-- The flags that a VMX instruction writes: `CF`, `PF`, `AF`, `ZF`, `SF` and `OF`. -/
def vmxFlags : BitVec 64 := 0x8D5

def Outcome.rflags (rflags : BitVec 64) : Outcome → BitVec 64
  | .succeed => rflags &&& ~~~vmxFlags
  | .failInvalid => setFlag (rflags &&& ~~~vmxFlags) carryFlag true
  | .failValid => setFlag (rflags &&& ~~~vmxFlags) zeroFlag true

namespace VmxInstr

/-- The two words of the descriptor that a register points to. -/
def descriptor (m : Machine) (base : Gpr) : BitVec 64 × BitVec 64 :=
  (load64 m.mem (m.regs base), load64 m.mem (m.regs base + 8))

def request (m : Machine) : VmxInstr → Request
  | .vmxon base => .vmxon (load64 m.mem (m.regs base))
  | .vmclear base => .vmclear (load64 m.mem (m.regs base))
  | .vmptrld base => .vmptrld (load64 m.mem (m.regs base))
  | .invept type base => .invept (m.regs type) (descriptor m base)
  | .invvpid type base => .invvpid (m.regs type) (descriptor m base)
  | .vmwrite field value => .vmwrite (m.regs field) (m.regs value)
  | .vmread _ field => .vmread (m.regs field)
  | .vmlaunch => .vmlaunch

/-- Memory after an instruction: only a `vmread` that succeeds stores something. -/
def deliver (m : Machine) (outcome : Outcome) (value : BitVec 64) : VmxInstr → Mem
  | .vmread base _ =>
      if outcome = .succeed then store64 m.mem (m.regs base) value else m.mem
  | _ => m.mem

end VmxInstr

/-- A register of 16 bits is written, and the rest of its register stays. -/
def set16 (m : Machine) (d : Gpr) (v : BitVec 16) : Machine :=
  m.set d ((m.regs d).extractLsb' 16 48 ++ v)

def setCpuid (m : Machine) (r : CpuidT) : Machine :=
  let m := m.set .rax (r.eax.setWidth 64)
  let m := m.set .rbx (r.ebx.setWidth 64)
  let m := m.set .rcx (r.ecx.setWidth 64)
  m.set .rdx (r.edx.setWidth 64)

section system

variable {σ : Type u} (hw : Hardware σ)

def SysInstr.exec (i : SysInstr) (s : State σ) : Except Exit (State σ) :=
  let m := s.core
  match i with
  | .movFrom d r => (hw.control r s.sys).map fun v ↦ { s with core := m.set d v }
  | .movTo r src => (hw.setControl r (m.regs src) s.sys).map fun sys ↦ { s with sys := sys }
  | .storeSelector d r => .ok { s with core := set16 m d (hw.selector r s.sys) }
  | .loadSelector r src =>
      (hw.setSelector r ((m.regs src).setWidth 16) s.sys).map fun sys ↦ { s with sys := sys }
  | .storeTable table base =>
      .ok { s with core := { m with mem := store 10 m.mem (m.regs base) (hw.table table s.sys) } }
  | .loadTable table base =>
      (hw.setTable table (load 10 m.mem (m.regs base)) s.sys).map fun sys ↦ { s with sys := sys }
  | .rdmsr =>
      (hw.rdmsr ((m.regs .rcx).setWidth 32) s.sys).map fun v ↦
        let m := m.set .rax ((v.extractLsb' 0 32).setWidth 64)
        { s with core := m.set .rdx ((v.extractLsb' 32 32).setWidth 64) }
  | .wrmsr =>
      let value := (m.regs .rdx).setWidth 32 ++ (m.regs .rax).setWidth 32
      (hw.wrmsr ((m.regs .rcx).setWidth 32) value s.sys).map fun sys ↦ { s with sys := sys }
  | .cpuid =>
      let r := hw.cpuid ((m.regs .rax).setWidth 32) ((m.regs .rcx).setWidth 32) s.sys
      .ok { s with core := setCpuid m r }
  | .lar d src =>
      let result := hw.lar ((m.regs src).setWidth 16) s.sys
      .ok { s with
        core := m.set d (result.getD (m.regs d))
        rflags := setFlag s.rflags zeroFlag result.isSome }
  | .lsl d src =>
      let result := hw.lsl ((m.regs src).setWidth 16) s.sys
      .ok { s with
        core := m.set d (result.getD (m.regs d))
        rflags := setFlag s.rflags zeroFlag result.isSome }
  | .clts => (hw.clts s.sys).map fun sys ↦ { s with sys := sys }
  | .cli => .ok { s with rflags := setFlag s.rflags interruptFlag false }
  | .sti => .ok { s with rflags := setFlag s.rflags interruptFlag true }
  | .vmx i =>
      (hw.vmx (i.request m) s.sys).map fun reply ↦
        { s with
          core := { m with mem := i.deliver m reply.outcome reply.value }
          rflags := reply.outcome.rflags s.rflags
          sys := reply.sys }

/-- What is mapped over a result that is not an error. -/
theorem map_eq_ok {α β : Type*} {f : α → β} {x : Except Exit α} {y : β} (h : x.map f = .ok y) :
    ∃ a, x = .ok a ∧ f a = y := by
  cases x with
  | error exit => cases h
  | ok a => exact ⟨a, rfl, Except.ok.inj h⟩

theorem SysInstr.exec_regs {i : SysInstr} {s s' : State σ} (h : i.exec hw s = .ok s') {r : Gpr}
    (hr : r ∉ effects.clobbers i) : s'.core.regs r = s.core.regs r := by
  cases i with
  | movFrom d c =>
      obtain ⟨v, -, rfl⟩ := map_eq_ok h
      exact s.core.set_regs_of_ne v (List.ne_of_not_mem_cons hr)
  | movTo c src => obtain ⟨v, -, rfl⟩ := map_eq_ok h; rfl
  | storeSelector d c =>
      obtain rfl := Except.ok.inj h
      exact s.core.set_regs_of_ne _ (List.ne_of_not_mem_cons hr)
  | loadSelector c src => obtain ⟨v, -, rfl⟩ := map_eq_ok h; rfl
  | storeTable table base => obtain rfl := Except.ok.inj h; rfl
  | loadTable table base => obtain ⟨v, -, rfl⟩ := map_eq_ok h; rfl
  | rdmsr =>
      obtain ⟨v, -, rfl⟩ := map_eq_ok h
      simp only [effects, List.mem_cons, List.not_mem_nil, or_false, not_or] at hr
      exact (Machine.set_regs_of_ne _ _ hr.2).trans (Machine.set_regs_of_ne _ _ hr.1)
  | wrmsr => obtain ⟨v, -, rfl⟩ := map_eq_ok h; rfl
  | cpuid =>
      obtain rfl := Except.ok.inj h
      simp only [effects, List.mem_cons, List.not_mem_nil, or_false, not_or] at hr
      obtain ⟨hrax, hrbx, hrcx, hrdx⟩ := hr
      simp only [setCpuid, Machine.set_regs_of_ne _ _ hrax, Machine.set_regs_of_ne _ _ hrbx,
        Machine.set_regs_of_ne _ _ hrcx, Machine.set_regs_of_ne _ _ hrdx]
  | lar d src =>
      obtain rfl := Except.ok.inj h
      exact s.core.set_regs_of_ne _ (List.ne_of_not_mem_cons hr)
  | lsl d src =>
      obtain rfl := Except.ok.inj h
      exact s.core.set_regs_of_ne _ (List.ne_of_not_mem_cons hr)
  | clts => obtain ⟨v, -, rfl⟩ := map_eq_ok h; rfl
  | cli => obtain rfl := Except.ok.inj h; rfl
  | sti => obtain rfl := Except.ok.inj h; rfl
  | vmx i => obtain ⟨v, -, rfl⟩ := map_eq_ok h; rfl

theorem SysInstr.exec_mem {i : SysInstr} {s s' : State σ} (h : i.exec hw s = .ok s')
    {x : BitVec 64} (hx : ∀ w ∈ effects.writes i, w.2 ≤ (x - s.core.regs w.1).toNat) :
    s'.core.mem x = s.core.mem x := by
  cases i with
  | storeTable table base =>
      obtain rfl := Except.ok.inj h
      exact if_neg (Nat.not_lt.mpr (hx _ List.mem_cons_self))
  | vmx i =>
      obtain ⟨reply, -, rfl⟩ := map_eq_ok h
      cases i with
      | vmread base field =>
          simp only [VmxInstr.deliver]
          split
          · exact if_neg (Nat.not_lt.mpr (hx _ List.mem_cons_self))
          · rfl
      | _ => rfl
  | movFrom d c => obtain ⟨v, -, rfl⟩ := map_eq_ok h; rfl
  | movTo c src => obtain ⟨v, -, rfl⟩ := map_eq_ok h; rfl
  | loadSelector c src => obtain ⟨v, -, rfl⟩ := map_eq_ok h; rfl
  | loadTable table base => obtain ⟨v, -, rfl⟩ := map_eq_ok h; rfl
  | rdmsr => obtain ⟨v, -, rfl⟩ := map_eq_ok h; rfl
  | wrmsr => obtain ⟨v, -, rfl⟩ := map_eq_ok h; rfl
  | clts => obtain ⟨v, -, rfl⟩ := map_eq_ok h; rfl
  | storeSelector d c => obtain rfl := Except.ok.inj h; rfl
  | cpuid => obtain rfl := Except.ok.inj h; rfl
  | lar d src => obtain rfl := Except.ok.inj h; rfl
  | lsl d src => obtain rfl := Except.ok.inj h; rfl
  | cli => obtain rfl := Except.ok.inj h; rfl
  | sti => obtain rfl := Except.ok.inj h; rfl

/-- The processor, as the routines run on it. -/
def system : System SysInstr.effects σ where
  exec i s := i.exec hw s
  loadCs := hw.farReturn
  regs h _ hr := SysInstr.exec_regs hw h hr
  mem h _ hx := SysInstr.exec_mem hw h hx

end system

/-! ## The text -/

/-- The labels that are jumped to; those of `call_lar` and of `set_cs` are both called
`.done`. -/
inductive Label where
  | callLarDone
  | setCsDone
  | vmxErrorTail
  | errorWithCode
  | errorNoCode
  deriving DecidableEq

abbrev Code := List (Instr Label SysInstr)

/-- The exported routines.  Those of the macros carry the register they are expanded for. -/
inductive Routine where
  | readCr (r : ControlRegister)
  | writeCr (r : ControlRegister)
  | readR16 (r : R16)
  | writeR16 (r : R16)
  | readGdtr
  | writeGdtr
  | readMsr
  | writeMsr
  | readIdtr
  | writeIdtr
  | readTr
  | writeTr
  | clearTr
  | readLdtr
  | callLsl
  | callLar
  | readRflags
  | callCpuid
  | setCs
  | callBsf
  | getRsp
  | getRip
  | callVmxon
  | callInvept
  | callInvvpid
  | callVmclear
  | callVmptrld
  | callVmwrite
  | callVmread
  | callVmlaunch

/-- The blocks at the labels. -/
def block : Label → Code
  | .callLarDone => [.ret]
  | .setCsDone => [.ret]
  | .vmxErrorTail =>
      [.jz .errorWithCode, .jc .errorNoCode, .alu .xor .rax (.reg .rax), .ret]
  | .errorWithCode => [.mov .rax (.imm 1), .ret]
  | .errorNoCode => [.mov .rax (.imm 2), .ret]

def Routine.code : Routine → Code
  | .readCr r => [.system (.movFrom .rax r), .ret]
  | .writeCr r => [.system (.movTo r .rdi), .ret]
  | .readR16 r => [.system (.storeSelector .rax r.toSegmentRegister), .ret]
  | .writeR16 r => [.system (.loadSelector r.toSegmentRegister .rdi), .ret]
  | .readGdtr => [.system (.storeTable .gdt .rdi), .ret]
  | .writeGdtr => [.system (.loadTable .gdt .rdi), .ret]
  | .readMsr =>
      [ .push .rbp,
        .mov .rbp (.reg .rsp),
        .mov .rcx (.reg .rdi),
        .system .rdmsr,
        .alu .shl .rdx (.imm 32),
        .alu .or .rax (.reg .rdx),
        .leave,
        .ret ]
  | .writeMsr =>
      [ .mov .rcx (.reg32 .rdi),
        .mov .rax (.reg32 .rsi),
        .alu .shr .rsi (.imm 32),
        .mov .rdx (.reg32 .rsi),
        .system .wrmsr,
        .ret ]
  | .readIdtr => [.system (.storeTable .idt .rdi), .ret]
  | .writeIdtr => [.system .cli, .system (.loadTable .idt .rdi), .system .sti, .ret]
  | .readTr => [.system (.storeSelector .rax .tr), .ret]
  | .writeTr => [.system (.loadSelector .tr .rdi), .ret]
  | .clearTr => [.system .clts, .ret]
  | .readLdtr => [.system (.storeSelector .rax .ldtr), .ret]
  | .callLsl => [.system (.lsl .rax .rdi), .ret]
  | .callLar =>
      [ .mov .rax (.imm 0),
        .system (.lar .rax .rdi),
        .jz .callLarDone,
        .alu .xor .rax (.reg .rax) ] ++ block .callLarDone
  | .readRflags => [.pushfq, .pop .rax, .ret]
  | .callCpuid =>
      [ .push .rbx,
        .mov .rax (.dword .rdi 0),
        .mov .rcx (.dword .rdi 8),
        .system .cpuid,
        .store32 .rdi 0 .rax,
        .store32 .rdi 4 .rbx,
        .store32 .rdi 8 .rcx,
        .store32 .rdi 12 .rdx,
        .pop .rbx,
        .ret ]
  | .setCs =>
      [ .movLabel .rax .setCsDone,
        .push .rdi,
        .push .rax,
        .retf ]
  | .callBsf => [.bsf .rax .rdi, .ret]
  | .getRsp => [.mov .rax (.reg .rsp), .alu .add .rax (.imm 8), .ret]
  | .getRip => [.mov .rax (.word .rsp), .ret]
  | .callVmxon => [.push .rdi, .clc, .system (.vmx (.vmxon .rsp)), .pop .rdi, .jmp .vmxErrorTail]
  | .callInvept => [.system (.vmx (.invept .rdi .rsi)), .jmp .vmxErrorTail]
  | .callInvvpid => [.system (.vmx (.invvpid .rdi .rsi)), .jmp .vmxErrorTail]
  | .callVmclear => [.push .rdi, .system (.vmx (.vmclear .rsp)), .pop .rdi, .jmp .vmxErrorTail]
  | .callVmptrld => [.push .rdi, .system (.vmx (.vmptrld .rsp)), .pop .rdi, .jmp .vmxErrorTail]
  | .callVmwrite => [.system (.vmx (.vmwrite .rdi .rsi)), .jmp .vmxErrorTail]
  | .callVmread => [.system (.vmx (.vmread .rsi .rdi)), .jmp .vmxErrorTail]
  | .callVmlaunch => [.system (.vmx .vmlaunch), .jmp .vmxErrorTail]

def text (placement : Placement Label) : Text Label SysInstr := { placement with block := block }

/-! ## The calling convention -/

/-- How far a routine goes down the stack, and the buffer it fills. -/
def Routine.contract : Routine → Contract
  | .readGdtr | .readIdtr => ⟨0, [(.rdi, 10)]⟩
  | .readMsr | .readRflags | .callVmxon | .callVmclear | .callVmptrld => ⟨1, []⟩
  | .callCpuid => ⟨1, [(.rdi, 16)]⟩
  | .setCs => ⟨2, []⟩
  | .callVmread => ⟨0, [(.rsi, 8)]⟩
  | _ => ⟨0, []⟩

theorem Routine.check_code (r : Routine) :
    check SysInstr.effects block r.contract 16 r.code Shape.start = true := by
  cases r <;> rfl

/-- `cr1` and the code segment are not for `mov`: their routines never return. -/
theorem reserved_exits {σ : Type u} (hw : Hardware σ) (placement : Placement Label) {r : Routine}
    (hr : r = .readCr .cr1 ∨ r = .writeCr .cr1 ∨ r = .writeR16 .cs) (s : State σ) :
    Finishes (system hw) (text placement) r.code s (.error .exception) := by
  rcases hr with rfl | rfl | rfl
  · have hexec : (SysInstr.movFrom .rax .cr1).exec hw s = .error .exception := by
      rw [SysInstr.exec, hw.control_cr1]
      rfl
    exact Finishes.system_exit hexec
  · have hexec : (SysInstr.movTo .cr1 .rdi).exec hw s = .error .exception := by
      rw [SysInstr.exec, hw.setControl_cr1]
      rfl
    exact Finishes.system_exit hexec
  · have hexec : (SysInstr.loadSelector .cs .rdi).exec hw s = .error .exception := by
      rw [SysInstr.exec, hw.setSelector_cs]
      rfl
    exact Finishes.system_exit hexec

/-- A processor outside of VMX operation, with nothing but model-specific registers. -/
def plainHardware : Hardware (BitVec 32 → BitVec 64) where
  control r _ := if r = .cr1 then .error .exception else .ok 0
  setControl r _ sys := if r = .cr1 then .error .exception else .ok sys
  selector _ _ := 8
  setSelector r _ sys := if r = .cs then .error .exception else .ok sys
  farReturn _ sys := .ok sys
  table _ _ := 0
  setTable _ _ sys := .ok sys
  rdmsr id sys := .ok (sys id)
  wrmsr id v sys := .ok (Function.update sys id v)
  cpuid leaf _ _ := ⟨leaf, 0, 0, 0⟩
  lar _ _ := none
  lsl _ _ := none
  clts sys := .ok sys
  vmx _ sys := .ok ⟨.failInvalid, 0, sys⟩
  control_cr1 _ := rfl
  setControl_cr1 _ _ := rfl
  setSelector_cs _ _ := rfl

/-- The labels one after the other. -/
def plainPlacement : Placement Label where
  address
    | .callLarDone => 0
    | .setCsDone => 1
    | .vmxErrorTail => 2
    | .errorWithCode => 3
    | .errorNoCode => 4
  labelAt a :=
    if a = 0 then some .callLarDone
    else if a = 1 then some .setCsDone
    else if a = 2 then some .vmxErrorTail
    else if a = 3 then some .errorWithCode
    else if a = 4 then some .errorNoCode
    else none
  labelAt_address l := by cases l <;> rfl

/-- A caller with its stack below `0x1000` and its arguments above. -/
def plainState : State (BitVec 32 → BitVec 64) where
  core := ⟨fun r ↦ if r = .rsp then 0x1000 else 0x2000, fun _ ↦ 0⟩
  rflags := 2
  rip := 0
  sys _ := 0

theorem room_plainState : Routine.callCpuid.contract.Room plainState.core where
  depth := by decide
  apart := by decide +kernel

end Hypervi.Freestanding.X86Utils
