import Hypervi.Cpu.Check
import Hypervi.Program

/-!
# The run of `visor_init_core` and `cpu_init` on a core

The two functions as one program, executed first by the host and, when `vmlaunch`
succeeds, from the call of `get_rip` on by the guest: the VMCS has `saved_rip` for the
`RIP` of the guest, and the guest shares the memory of the host.

* The program is a list of operations, and the early returns drop the rest of it.  The
  results of the VMX instructions are those of a `Launch`, which is arbitrary.
* In the guest a VMX instruction and `cpuid` exit to the host.  How the guest goes on
  from there is up to the handler, which is arbitrary as well.

`status_code` tells the two passes apart, but the branch that tests it only logs.
`launchRun_eptInitCore` follows the guest to its own call of `ept_init_core`.
-/

namespace Hypervi.Cpu

open Ia32 Store Program

/-! ## The program -/

/-- The operations of the two functions. -/
inductive Op where
  /-- `visor_is_vmx_supported` -/
  | visorIsVmxSupported
  /-- The initialisation of the core state. -/
  | initCoreState
  /-- The assignments to `cr0` and `cr4`. -/
  | setControlRegisters
  /-- The second `call_cpuid`. -/
  | readPhysicalSize
  /-- `call_vmxon`, and the return when it fails. -/
  | vmxon
  /-- `ept_invalidate_ept_cache` and `ept_invalidate_vpid_cache` -/
  | invalidateCaches
  /-- `call_vmclear` and `call_vmptrld`, whose failure is logged. -/
  | setUpVmcs
  /-- The adjustment of the control words. -/
  | adjustControls
  /-- `read_gdtr` and `read_idtr` -/
  | readTables
  | getRsp
  | getRip
  /-- `if (state->status_code == 1)`, whose branch logs. -/
  | testStatusCode
  /-- `state->status_code = 1` -/
  | setStatusCode
  | eptInitCore
  /-- `cpu_vmxwrite` -/
  | vmxwrite (field : VmcsField) (value : BitVec 64)
  /-- `cpu_dumpvmcs` -/
  | dumpVmcs
  | eptResolveEntries
  /-- `cpu_vmxcheck`, whose failure is logged. -/
  | vmxcheck
  /-- `call_vmlaunch` -/
  | vmlaunch
  /-- The logging of its failure, and `return 0`. -/
  | return0
  deriving DecidableEq

namespace Op

/-- The operations that execute a VMX instruction or `cpuid`. -/
def exits : Op → Bool
  | visorIsVmxSupported | readPhysicalSize | vmxon | invalidateCaches | setUpVmcs | vmxwrite _ _
  | dumpVmcs | eptResolveEntries | vmxcheck | vmlaunch => true
  | _ => false

/-- The operations that set a core up. -/
def isSetUp : Op → Bool
  | eptInitCore | vmxwrite _ _ | vmlaunch => true
  | _ => false

end Op

/-- What a run depends on. -/
structure Launch where
  host : Host
  core : Core
  /-- The contents of the VMCS before. -/
  vmcs : Vmcs
  statusCode : BitVec 64
  /-- What `cpuid` and the VMX instructions return. -/
  cpuidVmx : Bool
  vmxon : BitVec 64
  vmclear : BitVec 64
  vmptrld : BitVec 64
  vmlaunch : BitVec 64
  instructions : VmxInstructions
  /-- What the guest has to execute after each VM exit. -/
  handler : Nat → List Op → List Op
  /-- The code of a guest that does not start at `saved_rip` with `saved_stack`. -/
  elsewhere : Vmcs → List Op

inductive Mode where
  | host | guest
  deriving DecidableEq

structure LaunchState where
  mode : Mode
  statusCode : BitVec 64
  vmcs : Vmcs
  /-- The number of VM exits. -/
  exits : Nat
  /-- The operations that took the branch in which they log. -/
  logged : List Op

/-- A branch that logs. -/
def LaunchState.logIf (s : LaunchState) (c : Prop) [Decidable c] (op : Op) : LaunchState :=
  { s with logged := if c then op :: s.logged else s.logged }

section program

variable (l : Launch)

/-- The values that `cpu_init` writes to the VMCS, in order. -/
def Launch.writes : List (VmcsField × BitVec 64) := vmcsWrites (setControlRegisters l.host) l.core

/-- As far as the return of `get_rip`. -/
def toGetRip : List Op :=
  [ .visorIsVmxSupported, .initCoreState, .setControlRegisters, .readPhysicalSize, .vmxon,
    .invalidateCaches, .setUpVmcs, .adjustControls, .readTables, .getRsp, .getRip ]

/-- From there as far as `call_vmlaunch`. -/
def toVmlaunch : List Op :=
  [ .testStatusCode, .setStatusCode, .eptInitCore ] ++
    (l.writes.map (fun w ↦ .vmxwrite w.1 w.2) ++ [ .dumpVmcs, .eptResolveEntries, .vmxcheck ])

/-- What `saved_rip` points to. -/
def fromGetRip : List Op := toVmlaunch l ++ [ .vmlaunch, .return0 ]

def visorInitCore : List Op := toGetRip ++ fromGetRip l

/-- What an operation does to the state when it neither returns nor exits. -/
def Op.exec : Op → LaunchState → LaunchState
  | .initCoreState, s => { s with statusCode := 0 }
  | .setUpVmcs, s => s.logIf (l.vmclear ≠ 0 ∨ l.vmptrld ≠ 0) .setUpVmcs
  | .testStatusCode, s => s.logIf (s.statusCode = 1) .testStatusCode
  | .setStatusCode, s => { s with statusCode := 1 }
  | .vmxwrite field value, s =>
      { s with vmcs := cpuVmxwrite l.instructions s.vmcs field value }.logIf
        (l.instructions.vmwrite field ≠ 0) (.vmxwrite field value)
  | .vmxcheck, s => s.logIf (cpuVmxcheck l.instructions s.vmcs = false) .vmxcheck
  | _, s => s

/-- Where the guest starts. -/
def guestEntry (vmcs : Vmcs) : List Op :=
  if vmcs .guestRip = l.core.savedRip ∧ vmcs .guestRsp = l.core.savedStack then fromGetRip l
  else l.elsewhere vmcs

/-- One operation of the host. -/
def hostStep : Semantics LaunchState Op
  | .visorIsVmxSupported, rest, s => (s, if l.cpuidVmx then rest else [])
  | .vmxon, rest, s => (s, if l.vmxon = 0 then rest else [])
  | .vmlaunch, rest, s =>
      if l.vmlaunch = 0 then ({ s with mode := .guest }, guestEntry l s.vmcs) else (s, rest)
  | op, rest, s => (op.exec l s, rest)

/-- One operation of the guest. -/
def guestStep : Semantics LaunchState Op := fun op rest s ↦
  if op.exits then ({ s with exits := s.exits + 1 }, l.handler s.exits (op :: rest))
  else (op.exec l s, rest)

def launchStep : Semantics LaunchState Op := fun op rest s ↦
  match s.mode with
  | .host => hostStep l op rest s
  | .guest => guestStep l op rest s

/-- The run, step by step. -/
def launchRun (n : Nat) : LaunchState × List Op :=
  run (launchStep l) n (⟨.host, l.statusCode, l.vmcs, 0, []⟩, visorInitCore l)

end program

/-! ## The way to `vmlaunch` -/

section host

variable {l : Launch}

theorem Op.exec_mode (op : Op) (s : LaunchState) : (op.exec l s).mode = s.mode := by
  cases op <;> rfl

/-- The host passes every operation but `vmlaunch`, when it has VMX and `vmxon` succeeds. -/
theorem fallsThrough_host (hcpuid : l.cpuidVmx = true) (hvmxon : l.vmxon = 0) {op : Op}
    (hop : op ≠ .vmlaunch) :
    FallsThrough (launchStep l) (Op.exec l) (fun s ↦ s.mode = .host) op := by
  intro rest s hs
  refine ⟨?_, (op.exec_mode s).trans hs⟩
  rw [launchStep, hs]
  cases op with
  | vmlaunch => exact absurd rfl hop
  | visorIsVmxSupported =>
      simp only [hostStep, hcpuid, if_pos]
      rfl
  | vmxon =>
      simp only [hostStep, hvmxon, if_pos]
      rfl
  | _ => rfl

theorem vmlaunch_notMem_toVmlaunch : Op.vmlaunch ∉ toVmlaunch l := by
  simp [toVmlaunch]

theorem vmlaunch_notMem : Op.vmlaunch ∉ toGetRip ++ toVmlaunch l := by
  intro h
  rcases List.mem_append.mp h with h | h
  · exact absurd h (by decide)
  · exact vmlaunch_notMem_toVmlaunch h

/-- The VMCS that the host launches. -/
def Launch.written (l : Launch) : Vmcs := cpuInitVmcs l.instructions l.host l.core l.vmcs

theorem execs_vmxwrite (writes : List (VmcsField × BitVec 64)) (s : LaunchState) :
    ∃ logged, execs (Op.exec l) (writes.map fun w ↦ .vmxwrite w.1 w.2) s =
      { s with
        vmcs := writes.foldl (fun vmcs w ↦ cpuVmxwrite l.instructions vmcs w.1 w.2) s.vmcs
        logged := logged } := by
  induction writes generalizing s with
  | nil => exact ⟨s.logged, rfl⟩
  | cons w writes ih => exact ih ((Op.vmxwrite w.1 w.2).exec l s)

/-- The state in which the host reaches `vmlaunch`. -/
theorem execs_toVmlaunch :
    ∃ logged, execs (Op.exec l) (toGetRip ++ toVmlaunch l) ⟨.host, l.statusCode, l.vmcs, 0, []⟩ =
      ⟨.host, 1, l.written, 0, logged⟩ := by
  rw [execs_append, toVmlaunch, execs_append, execs_append]
  obtain ⟨logged, hwrites⟩ := execs_vmxwrite (l := l) l.writes
    (execs (Op.exec l) [.testStatusCode, .setStatusCode, .eptInitCore]
      (execs (Op.exec l) toGetRip ⟨.host, l.statusCode, l.vmcs, 0, []⟩))
  rw [hwrites]
  exact ⟨_, rfl⟩

/-- The number of steps to `vmlaunch`. -/
def Launch.steps (l : Launch) : Nat := (toGetRip ++ toVmlaunch l).length

theorem launchRun_steps (hcpuid : l.cpuidVmx = true) (hvmxon : l.vmxon = 0) :
    ∃ logged, launchRun l l.steps =
      (⟨.host, 1, l.written, 0, logged⟩, [.vmlaunch, .return0]) := by
  obtain ⟨logged, hexecs⟩ := execs_toVmlaunch (l := l)
  refine ⟨logged, ?_⟩
  have hline : ∀ op ∈ toGetRip ++ toVmlaunch l,
      FallsThrough (launchStep l) (Op.exec l) (fun s ↦ s.mode = .host) op := by
    intro op hop
    apply fallsThrough_host hcpuid hvmxon
    rintro rfl
    exact vmlaunch_notMem hop
  have hrun := run_append hline (s := ⟨.host, l.statusCode, l.vmcs, 0, []⟩) rfl
    [.vmlaunch, .return0]
  rw [hexecs, List.append_assoc] at hrun
  exact hrun.1

end host

/-! ## The guest -/

/-- VMX is there, `vmxon` and `vmlaunch` succeed, and the guest starts at `saved_rip` with
`saved_stack`. -/
structure Launches (l : Launch) : Prop where
  cpuid : l.cpuidVmx = true
  vmxon : l.vmxon = 0
  vmlaunch : l.vmlaunch = 0
  guestRip : l.instructions.vmwrite .guestRip = 0
  guestRsp : l.instructions.vmwrite .guestRsp = 0

section guest

variable {l : Launch}

theorem guestEntry_written (h : Launches l) : guestEntry l l.written = fromGetRip l := by
  have hnodup := vmcsWrites_nodup (setControlRegisters l.host) l.core
  have hrip : l.written .guestRip = l.core.savedRip :=
    applyWrites_of_lookup hnodup (beq_iff_eq.mpr h.guestRip) rfl
  have hrsp : l.written .guestRsp = l.core.savedStack :=
    applyWrites_of_lookup hnodup (beq_iff_eq.mpr h.guestRsp) rfl
  exact if_pos ⟨hrip, hrsp⟩

/-- The guest starts behind `get_rip`, and sees `1` in `status_code`. -/
theorem launchRun_guest (h : Launches l) :
    ∃ logged, launchRun l (l.steps + 1) =
      (⟨.guest, 1, l.written, 0, logged⟩, fromGetRip l) := by
  obtain ⟨logged, hsteps⟩ := launchRun_steps h.cpuid h.vmxon
  refine ⟨logged, ?_⟩
  rw [launchRun, run_succ', ← launchRun, hsteps, ← guestEntry_written h]
  exact if_pos h.vmlaunch

/-- It passes the test and comes to `ept_init_core`. -/
theorem launchRun_eptInitCore (h : Launches l) :
    ∃ s rest, launchRun l (l.steps + 1 + 2) = (s, .eptInitCore :: rest) ∧ s.mode = .guest := by
  obtain ⟨logged, hguest⟩ := launchRun_guest h
  rw [launchRun, run_add, ← launchRun, hguest]
  exact ⟨_, _, rfl, rfl⟩

/-- When the handler has the guest go on behind the instruction that exited, the guest comes
to a second `vmlaunch`. -/
theorem launchRun_vmlaunch_again (h : Launches l) (hskip : ∀ n rest, l.handler n rest = rest.tail) :
    ∃ n s rest, launchRun l n = (s, .vmlaunch :: rest) ∧ s.mode = .guest := by
  have hline : ∀ op ∈ toVmlaunch l, FallsThrough (launchStep l)
      (fun op s ↦ if op.exits then { s with exits := s.exits + 1 } else op.exec l s)
      (fun s ↦ s.mode = .guest) op := by
    intro op _ rest s hs
    cases hexits : op.exits with
    | true => simp [launchStep, hs, guestStep, hexits, hskip]
    | false => simp [launchStep, hs, guestStep, hexits, Op.exec_mode]
  obtain ⟨logged, hguest⟩ := launchRun_guest h
  have hrun := run_append hline (s := ⟨.guest, 1, l.written, 0, logged⟩) rfl [.vmlaunch, .return0]
  refine ⟨l.steps + 1 + (toVmlaunch l).length, _, [.return0], ?_, hrun.2⟩
  rw [launchRun, run_add, ← launchRun, hguest]
  exact hrun.1

/-- No operation of the guest sets the core up, and `vmlaunch` is executed once. -/
structure SetUpOnce (l : Launch) : Prop where
  guest : ∀ n s op rest, launchRun l n = (s, op :: rest) → s.mode = .guest → op.isSetUp = false
  vmlaunch : ∀ n k s t rest rest', launchRun l n = (s, .vmlaunch :: rest) →
    launchRun l k = (t, .vmlaunch :: rest') → n = k

/-- Whenever the guest is launched it sets the core up again. -/
theorem not_setUpOnce (h : Launches l) : ¬ SetUpOnce l := by
  intro honce
  obtain ⟨s, rest, hrun, hmode⟩ := launchRun_eptInitCore h
  exact absurd (honce.guest _ s .eptInitCore rest hrun hmode) (by decide)

end guest

/-- A launch of which every VMX instruction succeeds, with the given handler. -/
def flatLaunch (handler : Nat → List Op → List Op) : Launch where
  host := flatHost
  core := ⟨0x100000, 0, 0, 0x8000, 0x1000⟩
  vmcs := fun _ ↦ 0
  statusCode := 0
  cpuidVmx := true
  vmxon := 0
  vmclear := 0
  vmptrld := 0
  vmlaunch := 0
  instructions := ⟨fun _ ↦ 0, fun _ ↦ 0⟩
  handler := handler
  elsewhere := fun _ ↦ []

/-- A handler that skips the instruction. -/
theorem not_setUpOnce_skipping : ¬ SetUpOnce (flatLaunch fun _ rest ↦ rest.tail) :=
  not_setUpOnce ⟨rfl, rfl, rfl, rfl, rfl⟩

/-- A handler that leaves the guest where it was. -/
theorem flatLaunch_sets_up_again :
    Launches (flatLaunch fun _ rest ↦ rest) ∧ ¬ SetUpOnce (flatLaunch fun _ rest ↦ rest) := by
  have hlaunches : Launches (flatLaunch fun _ rest ↦ rest) := ⟨rfl, rfl, rfl, rfl, rfl⟩
  refine ⟨hlaunches, fun honce ↦ ?_⟩
  obtain ⟨s, rest, hrun, hmode⟩ := launchRun_eptInitCore hlaunches
  exact absurd (honce.guest _ s .eptInitCore rest hrun hmode) (by decide)

end Hypervi.Cpu
