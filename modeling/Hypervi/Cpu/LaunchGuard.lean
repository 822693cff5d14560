import Hypervi.Cpu.Capture
import Hypervi.Cpu.Launch

/-!
# What `cpu_init` makes sure of before `vmlaunch`

Between `visor_init_core` and `vmlaunch` lie some hundred VMX instructions, five control
words that the capability MSRs adjust, and `cpu_vmxcheck`.  Only `cpuid` and `vmxon` can
keep the host from `vmlaunch`; every other failure is logged, and an adjusted word is
written as it comes out.

`launch_complete_iff` is the exact condition under which nothing is launched with a step
missing: the host does not come to `vmlaunch` at all, or everything it does not guard
against goes well.
-/

namespace Hypervi.Cpu

open Bits Ia32 Store Program

/-! ## The host on its way -/

section host

variable {l : Launch}

/-- What an operation of the host can do: return, launch the guest, or go on. -/
theorem hostStep_cases (op : Op) (rest : List Op) (s : LaunchState) :
    (hostStep l op rest s).2 = [] ∨
      (hostStep l op rest s).1.mode = .guest ∨
      (hostStep l op rest s = (op.exec l s, rest) ∧
        (op = .visorIsVmxSupported → l.cpuidVmx = true) ∧ (op = .vmxon → l.vmxon = 0)) := by
  cases op with
  | visorIsVmxSupported =>
      cases hcpuid : l.cpuidVmx with
      | true =>
          refine .inr (.inr ⟨by simp [hostStep, hcpuid, Op.exec], fun _ ↦ rfl, ?_⟩)
          rintro ⟨⟩
      | false => exact .inl (by simp [hostStep, hcpuid])
  | vmxon =>
      by_cases hvmxon : l.vmxon = 0
      · refine .inr (.inr ⟨by simp [hostStep, hvmxon, Op.exec], ?_, fun _ ↦ hvmxon⟩)
        rintro ⟨⟩
      · exact .inl (if_neg hvmxon)
  | vmlaunch =>
      by_cases hlaunch : l.vmlaunch = 0
      · exact .inr (.inl (by rw [hostStep, if_pos hlaunch]))
      · refine .inr (.inr ⟨if_neg hlaunch, ?_, ?_⟩)
        all_goals rintro ⟨⟩
  | _ =>
      refine .inr (.inr ⟨rfl, ?_, ?_⟩)
      all_goals rintro ⟨⟩

/-- The host has executed the beginning of the program. -/
structure OnTheWay (l : Launch) (done : List Op) (c : LaunchState × List Op) : Prop where
  program : visorInitCore l = done ++ c.2
  state : c.1 = execs (Op.exec l) done ⟨.host, l.statusCode, l.vmcs, 0, []⟩
  cpuid : .visorIsVmxSupported ∈ done → l.cpuidVmx = true
  vmxon : .vmxon ∈ done → l.vmxon = 0

/-- The host has returned or is on its way. -/
def HostInvariant (l : Launch) (c : LaunchState × List Op) : Prop :=
  c.1.mode = .host → c.2 = [] ∨ ∃ done, OnTheWay l done c

/-- The guest does not come back. -/
theorem guestStep_mode (op : Op) (rest : List Op) (s : LaunchState) :
    (guestStep l op rest s).1.mode = s.mode := by
  rw [guestStep]
  split
  · rfl
  · exact op.exec_mode s

theorem OnTheWay.step {done : List Op} {op : Op} {rest : List Op} {s : LaunchState}
    (h : OnTheWay l done (s, op :: rest)) (hcpuid : op = .visorIsVmxSupported → l.cpuidVmx = true)
    (hvmxon : op = .vmxon → l.vmxon = 0) : OnTheWay l (done ++ [op]) (op.exec l s, rest) where
  program := by
    rw [List.append_assoc]
    exact h.program
  state := by
    rw [execs_append, ← h.state]
    rfl
  cpuid := by
    intro hmem
    rcases List.mem_append.mp hmem with hmem | hmem
    · exact h.cpuid hmem
    · exact hcpuid (List.mem_singleton.mp hmem).symm
  vmxon := by
    intro hmem
    rcases List.mem_append.mp hmem with hmem | hmem
    · exact h.vmxon hmem
    · exact hvmxon (List.mem_singleton.mp hmem).symm

theorem hostInvariant_step (c : LaunchState × List Op) (h : HostInvariant l c) :
    HostInvariant l (step (launchStep l) c) := by
  obtain ⟨s, rest⟩ := c
  cases rest with
  | nil => exact h
  | cons op rest =>
      cases hmode : s.mode with
      | guest =>
          rw [step, launchStep, hmode]
          intro hhost
          rw [guestStep_mode, hmode] at hhost
          exact absurd hhost (by decide)
      | host =>
          rw [step, launchStep, hmode]
          intro hhost
          obtain hreturn | hlaunch | ⟨hstep, hcpuid, hvmxon⟩ := hostStep_cases (l := l) op rest s
          · exact .inl hreturn
          · exact absurd (hlaunch.symm.trans hhost) (by decide)
          · obtain hnil | ⟨done, hdone⟩ := h hmode
            · exact absurd hnil (List.cons_ne_nil op rest)
            · rw [hstep]
              exact .inr ⟨done ++ [op], hdone.step hcpuid hvmxon⟩

theorem hostInvariant_launchRun (n : Nat) : HostInvariant l (launchRun l n) := by
  apply run_induction
  · exact fun _ ↦ .inr ⟨[], rfl, rfl, nofun, nofun⟩
  · exact hostInvariant_step

/-- When the host is at `vmlaunch`, it has VMX, `vmxon` succeeded, and the VMCS is the one
that `cpu_init` writes. -/
theorem of_vmlaunch_reached {n : Nat} {s : LaunchState} {rest : List Op}
    (hrun : launchRun l n = (s, .vmlaunch :: rest)) (hmode : s.mode = .host) :
    l.cpuidVmx = true ∧ l.vmxon = 0 ∧ s.vmcs = l.written := by
  have hinv := hostInvariant_launchRun (l := l) n
  rw [hrun] at hinv
  obtain hnil | ⟨done, hdone⟩ := hinv hmode
  · exact absurd hnil (List.cons_ne_nil _ _)
  · have hprogram : (toGetRip ++ toVmlaunch l) ++ Op.vmlaunch :: [.return0] =
        done ++ Op.vmlaunch :: rest := by
      rw [List.append_assoc]
      exact hdone.program
    obtain ⟨rfl, -, -⟩ :=
      (List.append_cons_inj_of_notMem vmlaunch_notMem (by decide)).mp hprogram
    obtain ⟨logged, hexecs⟩ := execs_toVmlaunch (l := l)
    have hstate := hdone.state
    rw [hexecs] at hstate
    refine ⟨hdone.cpuid ?_, hdone.vmxon ?_, congrArg LaunchState.vmcs hstate⟩
    · exact List.mem_append_left _ (by decide)
    · exact List.mem_append_left _ (by decide)

end host

/-! ## The controls -/

/-- A control word of the VMCS: the capability MSR that adjusts it and the controls that
`cpu_init` asks for. -/
structure ControlGroup where
  field : VmcsField
  msr : Msrs → BitVec 32
  requested : List Field

def controlGroups : List ControlGroup :=
  [ ⟨.ctrlVmexitControls, fun msrs ↦ controlsMsr msrs ia32VmxTrueExitCtls ia32VmxExitCtls,
      [ExitControls.hostAddressSpaceSize, ExitControls.loadIa32Efer, ExitControls.saveIa32Efer]⟩,
    ⟨.ctrlVmentryControls, fun msrs ↦ controlsMsr msrs ia32VmxTrueEntryCtls ia32VmxEntryCtls,
      [EntryControls.loadIa32Efer, EntryControls.ia32eModeGuest]⟩,
    ⟨.ctrlPinBasedVmExecutionControls,
      fun msrs ↦ controlsMsr msrs ia32VmxTruePinbasedCtls ia32VmxPinbasedCtls,
      [PinBasedControls.nmiExiting, PinBasedControls.virtualNmi]⟩,
    ⟨.ctrlProcessorBasedVmExecutionControls,
      fun msrs ↦ controlsMsr msrs ia32VmxTrueProcbasedCtls ia32VmxProcbasedCtls,
      [ProcBasedControls.useMsrBitmaps, ProcBasedControls.activateSecondaryControls]⟩,
    ⟨.ctrlSecondaryProcessorBasedVmExecutionControls, fun _ ↦ ia32VmxProcbasedCtls2,
      [ProcBasedControls2.enableEpt, ProcBasedControls2.enableRdtscp,
        ProcBasedControls2.unrestrictedGuest, ProcBasedControls2.enableInvpcid,
        ProcBasedControls2.enableXsaves]⟩ ]

/-- The capability MSR offers a control: it must be one, or may be. -/
def Offers (msrs : Msrs) (msr : BitVec 32) (f : Field) : Prop :=
  (msrs msr).getLsbD f.off = true ∨ (msrs msr).getLsbD (32 + f.off) = true

/-- An adjusted word keeps the controls that its MSR offers, and drops the others. -/
theorem get_cpuAlterVmxControlRegister {f : Field} (hlen : f.len = 1) (hoff : f.off < 32)
    {flags : BitVec 64} (hflags : f.get flags = 1) (msrs : Msrs) (msr : BitVec 32) :
    f.get (cpuAlterVmxControlRegister msrs flags msr) = 1 ↔ Offers msrs msr f := by
  rw [Field.get_eq_one_iff hlen, Field.test_eq_getLsbD hlen] at hflags ⊢
  have hoff' : f.off < 64 := by omega
  rw [cpuAlterVmxControlRegister, BitVec.getLsbD_or, BitVec.getLsbD_and, hflags,
    Field.getLsbD_get, Field.getLsbD_get, Offers]
  simp [TrueControls.allowed0Settings, TrueControls.allowed1Settings, hoff, or_comm]

/-- The capability MSR forces a control: it must be one. -/
def Forces (msrs : Msrs) (msr : BitVec 32) (f : Field) : Prop := (msrs msr).getLsbD f.off = true

/-- A control that is not requested is one when its MSR forces it. -/
theorem get_cpuAlterVmxControlRegister_of_clear {f : Field} (hlen : f.len = 1) (hoff : f.off < 32)
    {flags : BitVec 64} (hflags : flags.getLsbD f.off = false) (msrs : Msrs) (msr : BitVec 32) :
    f.get (cpuAlterVmxControlRegister msrs flags msr) = 1 ↔ Forces msrs msr f := by
  rw [Field.get_eq_one_iff hlen, Field.test_eq_getLsbD hlen, cpuAlterVmxControlRegister,
    BitVec.getLsbD_or, BitVec.getLsbD_and, hflags, Bool.false_and, Bool.false_or,
    Field.getLsbD_get, Forces]
  simp [TrueControls.allowed0Settings, hoff]

/-- The words that `cpu_init` writes are adjusted ones, of flags with the requested
controls. -/
theorem lookup_controlGroup (l : Launch) : ∀ g ∈ controlGroups, ∃ flags,
    l.writes.lookup g.field =
      some (cpuAlterVmxControlRegister l.host.msrs flags (g.msr l.host.msrs)) ∧
    ∀ f ∈ g.requested, f.len = 1 ∧ f.off < 32 ∧ f.get flags = 1 := by
  simp only [controlGroups, List.forall_mem_cons]
  refine ⟨?_, ?_, ?_, ?_, ?_, by simp⟩
  · exact ⟨_, rfl, by decide, by decide, by decide, by simp⟩
  · exact ⟨_, rfl, by decide, by decide, by simp⟩
  · exact ⟨_, rfl, by decide, by decide, by simp⟩
  · exact ⟨_, rfl, by decide, by decide, by simp⟩
  · exact ⟨_, rfl, by decide, by decide, by decide, by decide, by decide, by simp⟩

/-- Every requested control is set in the word that is written to the VMCS. -/
def ControlsKept (l : Launch) : Prop :=
  ∀ g ∈ controlGroups, ∀ f ∈ g.requested,
    ∃ word, l.writes.lookup g.field = some word ∧ f.get word = 1

/-- The capability MSRs offer every requested control. -/
def ControlsOffered (msrs : Msrs) : Prop :=
  ∀ g ∈ controlGroups, ∀ f ∈ g.requested, Offers msrs (g.msr msrs) f

theorem controlsKept_iff {l : Launch} : ControlsKept l ↔ ControlsOffered l.host.msrs := by
  apply forall₄_congr
  intro g hg f hf
  obtain ⟨flags, hlookup, hrequested⟩ := lookup_controlGroup l g hg
  obtain ⟨hlen, hoff, hflags⟩ := hrequested f hf
  rw [← get_cpuAlterVmxControlRegister hlen hoff hflags, hlookup]
  constructor
  · rintro ⟨word, hword, hget⟩
    obtain rfl := Option.some.inj hword
    exact hget
  · intro hget
    exact ⟨_, rfl, hget⟩

/-! ## What is missing at `vmlaunch` -/

/-- Everything before `vmlaunch` went well, and `vmcs` is what is launched. -/
structure Complete (l : Launch) (vmcs : Vmcs) : Prop where
  vmxon : l.vmxon = 0
  vmclear : l.vmclear = 0
  vmptrld : l.vmptrld = 0
  vmwrite : ∀ w ∈ l.writes, l.instructions.vmwrite w.1 = 0
  vmxcheck : cpuVmxcheck l.instructions vmcs = true
  controls : ControlsKept l

/-- The state that `cpu_init` captures: the table of its writes over the contents of the VMCS
before. -/
def Launch.captured (l : Launch) : Vmcs := fun field ↦ (l.writes.lookup field).getD (l.vmcs field)

/-- What has to go well because nothing guards against it. -/
structure Unguarded (l : Launch) : Prop where
  vmclear : l.vmclear = 0
  vmptrld : l.vmptrld = 0
  vmwrite : ∀ w ∈ l.writes, l.instructions.vmwrite w.1 = 0
  captured : cpuVmxcheck l.instructions l.captured = true
  controls : ControlsOffered l.host.msrs

section complete

variable {l : Launch}

/-- When every write succeeds, the VMCS is the captured state. -/
theorem written_eq_captured (h : ∀ w ∈ l.writes, l.instructions.vmwrite w.1 = 0) :
    l.written = l.captured := by
  funext field
  rw [Launch.captured]
  cases hlookup : l.writes.lookup field with
  | none =>
      rw [Option.getD_none]
      apply applyWrites_of_not_mem
      intro hmem
      obtain ⟨w, hw, rfl⟩ := List.mem_map.mp hmem
      exact absurd (List.lookup_eq_none_iff.mp hlookup w hw) (by simp)
  | some value =>
      rw [Option.getD_some]
      obtain ⟨before, behind, hwrites, -⟩ := List.lookup_eq_some_iff.mp hlookup
      have hmem : (field, value) ∈ l.writes := by
        rw [hwrites]
        exact List.mem_append_right _ List.mem_cons_self
      exact applyWrites_of_lookup (vmcsWrites_nodup (setControlRegisters l.host) l.core)
        (beq_iff_eq.mpr (h _ hmem)) hlookup

theorem complete_iff (hvmxon : l.vmxon = 0) : Complete l l.written ↔ Unguarded l := by
  constructor
  · rintro ⟨-, hvmclear, hvmptrld, hvmwrite, hcheck, hcontrols⟩
    rw [written_eq_captured hvmwrite] at hcheck
    exact ⟨hvmclear, hvmptrld, hvmwrite, hcheck, controlsKept_iff.mp hcontrols⟩
  · rintro ⟨hvmclear, hvmptrld, hvmwrite, hcheck, hcontrols⟩
    rw [← written_eq_captured hvmwrite] at hcheck
    exact ⟨hvmxon, hvmclear, hvmptrld, hvmwrite, hcheck, controlsKept_iff.mpr hcontrols⟩

end complete

/-- The host launches nothing incomplete exactly when it is kept from `vmlaunch` by `cpuid`
or `vmxon`, or nothing goes wrong of what it does not guard against. -/
theorem launch_complete_iff (l : Launch) :
    (∀ n s rest, launchRun l n = (s, .vmlaunch :: rest) → s.mode = .host → Complete l s.vmcs) ↔
      (l.cpuidVmx = false ∨ l.vmxon ≠ 0 ∨ Unguarded l) := by
  constructor
  · intro hcomplete
    cases hcpuid : l.cpuidVmx with
    | false => exact .inl rfl
    | true =>
        by_cases hvmxon : l.vmxon = 0
        · obtain ⟨logged, hrun⟩ := launchRun_steps hcpuid hvmxon
          exact .inr (.inr ((complete_iff hvmxon).mp (hcomplete _ _ _ hrun rfl)))
        · exact .inr (.inl hvmxon)
  · intro hcondition n s rest hrun hmode
    obtain ⟨hcpuid, hvmxon, hvmcs⟩ := of_vmlaunch_reached hrun hmode
    rcases hcondition with hno | hfail | hunguarded
    · exact absurd (hcpuid.symm.trans hno) (by decide)
    · exact absurd hvmxon hfail
    · rw [hvmcs]
      exact (complete_iff hvmxon).mpr hunguarded

/-- A launch by a host in long mode whose processor offers every control. -/
def capableLaunch : Launch :=
  { flatLaunch fun _ rest ↦ rest with
    host := { longModeHost with
      msrs := fun msr ↦
        if msr = ia32Efer then 0xD01
        else if msr = ia32VmxCr0Fixed1 ∨ msr = ia32VmxCr4Fixed1 then 0xFFFFFFFF
        else 0xFFFFFFFF00000000 } }

example : Unguarded capableLaunch where
  vmclear := rfl
  vmptrld := rfl
  vmwrite := fun _ _ ↦ rfl
  captured := by decide +kernel
  controls := by
    simp only [ControlsOffered, controlGroups, List.forall_mem_cons, Offers]
    decide +kernel

/-- `vmptrld` fails and `vmlaunch` is reached. -/
theorem vmptrld_failure_reaches_vmlaunch :
    ¬ ∀ n s rest,
      launchRun { flatLaunch fun _ rest ↦ rest with vmptrld := 2 } n = (s, .vmlaunch :: rest) →
      s.mode = .host → Complete { flatLaunch fun _ rest ↦ rest with vmptrld := 2 } s.vmcs := by
  intro hcomplete
  obtain ⟨logged, hrun⟩ :=
    launchRun_steps (l := { flatLaunch fun _ rest ↦ rest with vmptrld := 2 }) rfl rfl
  exact absurd (hcomplete _ _ _ hrun rfl).vmptrld (by decide)

end Hypervi.Cpu
