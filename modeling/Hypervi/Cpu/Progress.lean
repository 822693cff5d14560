import Hypervi.Cpu.Launch
import Hypervi.Cpu.Resume
import Hypervi.Cpu.Vmexit
import Mathlib.Tactic.IntervalCases

/-!
# The guest stays at the instruction that exits

At a VM exit the processor saves `rip` in the VMCS, and for an instruction that exits it is
the address of this instruction.  The host returns to what the VMCS says, and has no
`vmwrite` on the way: `cpu_init` is the only function that writes a field.

* `frozen_run`: the guest runs as it would alone up to its first instruction that exits, and
  every later step is a VM exit from there.
* `launchRun_frozen`: for the guest that `cpu_init` launches this is the first `vmwrite`, three
  operations behind the launch.

Events are not part of a run: no interrupt is delivered to the guest.
-/

namespace Hypervi.Cpu

open Memory X86 Freestanding Ia32 Program

/-! ## The guest and its processor -/

/-- A guest: its registers and memory, and the state that an exit saves in the VMCS. -/
structure Guest where
  machine : Machine
  rip : BitVec 64
  rflags : BitVec 64

/-- Guests that agree on all but the memory of the host. -/
structure Guest.Agree (own : Set (BitVec 64)) (s t : Guest) : Prop where
  machine : Cpu.Agree own s.machine t.machine
  rip : s.rip = t.rip
  rflags : s.rflags = t.rflags

theorem Guest.Agree.trans {own : Set (BitVec 64)} {s t u : Guest} (h : s.Agree own t)
    (h' : t.Agree own u) : s.Agree own u :=
  ⟨h.machine.trans h'.machine, h.rip.trans h'.rip, h.rflags.trans h'.rflags⟩

theorem Guest.Agree.refl {own : Set (BitVec 64)} (s : Guest) : s.Agree own s :=
  ⟨.refl s.machine, rfl, rfl⟩

/-- What an exit says about its cause in the VMCS. -/
structure ExitInformation where
  reason : BitVec 64
  qualification : BitVec 64
  guestLinearAddress : BitVec 64
  instructionInfo : BitVec 64
  interruptionErrorCode : BitVec 64

/-- The processor in non-root operation: whether the next instruction exits, what it does
otherwise, and what an exit says.  All of memory may have a part in it, so also the MSR bitmap
and the tables of the host. -/
structure NonRoot where
  exits : Guest → Bool
  exec : Guest → Guest
  information : Guest → ExitInformation

/-- The compiled `host_vmexit`, as the entry point calls it. -/
structure HostHandler (own : Set (BitVec 64)) (hostRsp : BitVec 64) where
  run : Machine → Machine
  keeps : KeepsGuest own hostRsp run

/-- A virtual machine: the guest, its VMCS and the log of the host, and the number of its
VM exits. -/
structure Virtual where
  guest : Guest
  host : HostContext
  exits : Nat

/-- The fields that say why the guest has exited. -/
def saveInformation (i : ExitInformation) (vmcs : Vmcs) : Vmcs :=
  let vmcs := Function.update vmcs .exitReason i.reason
  let vmcs := Function.update vmcs .exitQualification i.qualification
  let vmcs := Function.update vmcs .exitGuestLinearAddress i.guestLinearAddress
  let vmcs := Function.update vmcs .vmexitInstructionInfo i.instructionInfo
  Function.update vmcs .vmexitInterruptionErrorCode i.interruptionErrorCode

/-- The fields of the guest that the processor saves. -/
def saveGuest (s : Guest) (vmcs : Vmcs) : Vmcs :=
  Function.update (Function.update (Function.update vmcs .guestRip s.rip) .guestRsp s.machine.rsp)
    .guestRflags s.rflags

theorem saveGuest_guestRip (s : Guest) (vmcs : Vmcs) : saveGuest s vmcs .guestRip = s.rip := rfl

theorem saveGuest_guestRsp (s : Guest) (vmcs : Vmcs) :
    saveGuest s vmcs .guestRsp = s.machine.rsp := rfl

theorem saveGuest_guestRflags (s : Guest) (vmcs : Vmcs) :
    saveGuest s vmcs .guestRflags = s.rflags := rfl

section virtual

variable {own : Set (BitVec 64)} {hostRsp : BitVec 64} (hostVmexitPtr returnAddress : BitVec 64)
  (p : VmxInstructions) (cpu : NonRoot) (handlers : Nat → HostHandler own hostRsp)

/-- The guest that `vmresume` loads. -/
def resumeGuest (vmcs : Vmcs) (s : Machine) : Guest where
  machine := s.set .rsp (vmcs .guestRsp)
  rip := vmcs .guestRip
  rflags := vmcs .guestRflags

/-- The next instruction of the guest, or its VM exit.  The handler finds memory as it is when
the entry point calls it. -/
def virtualStep (v : Virtual) : Virtual :=
  if cpu.exits v.guest then
    let handler := handlers v.exits
    let vmcs := saveGuest v.guest (saveInformation (cpu.information v.guest) v.host.vmcs)
    let called := calledHost hostVmexitPtr returnAddress hostRsp v.guest.machine
    let host := hostVmexit p called.mem { v.host with vmcs := vmcs }
    let s := run (hostHvEntrypoint hostVmexitPtr returnAddress handler.run)
      (enterHost hostRsp v.guest.machine)
    { guest := resumeGuest host.vmcs s, host := host, exits := v.exits + 1 }
  else { v with guest := cpu.exec v.guest }

/-- The virtual machine after `n` steps. -/
def virtualRun (n : Nat) (v : Virtual) : Virtual :=
  (virtualStep hostVmexitPtr returnAddress p cpu handlers)^[n] v

/-- The guest alone, after `n` instructions. -/
def nativeRun (n : Nat) (s : Guest) : Guest := cpu.exec^[n] s

variable {cpu}

/-- A step that exits leaves the guest where it is, and is logged. -/
theorem virtualStep_of_exits (hown : OwnsStack own hostRsp) {v : Virtual}
    (hexits : cpu.exits v.guest = true) :
    (virtualStep hostVmexitPtr returnAddress p cpu handlers v).guest.Agree own v.guest ∧
      (virtualStep hostVmexitPtr returnAddress p cpu handlers v).exits = v.exits + 1 ∧
      (virtualStep hostVmexitPtr returnAddress p cpu handlers v).host.logged =
        v.host.logged + 1 := by
  rw [virtualStep, if_pos hexits]
  refine ⟨⟨?_, ?_, ?_⟩, rfl, hostVmexit_logged _ _ _⟩
  · simp only [resumeGuest, hostVmexit_vmcs, saveGuest_guestRsp]
    exact agree_vmexit (handlers v.exits).keeps hown
  · simp only [resumeGuest, hostVmexit_vmcs, saveGuest_guestRip]
  · simp only [resumeGuest, hostVmexit_vmcs, saveGuest_guestRflags]

theorem virtualStep_of_not_exits {v : Virtual} (hexits : cpu.exits v.guest = false) :
    virtualStep hostVmexitPtr returnAddress p cpu handlers v =
      { v with guest := cpu.exec v.guest } := by
  rw [virtualStep, hexits]
  exact if_neg Bool.false_ne_true

theorem virtualRun_succ (n : Nat) (v : Virtual) :
    virtualRun hostVmexitPtr returnAddress p cpu handlers (n + 1) v =
      virtualStep hostVmexitPtr returnAddress p cpu handlers
        (virtualRun hostVmexitPtr returnAddress p cpu handlers n v) :=
  Function.iterate_succ_apply' _ n v

/-- Before its first exit the guest is exactly as it would be alone. -/
theorem virtualRun_of_not_exits (v : Virtual) {n : Nat}
    (hbefore : ∀ i < n, cpu.exits (nativeRun cpu i v.guest) = false) :
    virtualRun hostVmexitPtr returnAddress p cpu handlers n v =
      { v with guest := nativeRun cpu n v.guest } := by
  induction n with
  | zero => rfl
  | succ n ih =>
      have hrun := ih fun i hi ↦ hbefore i (Nat.lt_succ_of_lt hi)
      rw [virtualRun_succ, hrun,
        virtualStep_of_not_exits hostVmexitPtr returnAddress p handlers
          (hbefore n (Nat.lt_succ_self n)),
        nativeRun, nativeRun, Function.iterate_succ_apply']

/-- From there on every step is an exit, when the instruction exits whatever the memory of the
host holds. -/
theorem virtualRun_of_exits (hown : OwnsStack own hostRsp) (v : Virtual)
    (hexits : ∀ s : Guest, s.Agree own v.guest → cpu.exits s = true) (n : Nat) :
    (virtualRun hostVmexitPtr returnAddress p cpu handlers n v).guest.Agree own v.guest ∧
      (virtualRun hostVmexitPtr returnAddress p cpu handlers n v).exits = v.exits + n ∧
      (virtualRun hostVmexitPtr returnAddress p cpu handlers n v).host.logged =
        v.host.logged + n := by
  induction n with
  | zero => exact ⟨.refl v.guest, rfl, rfl⟩
  | succ n ih =>
      obtain ⟨hguest, hcount, hlogged⟩ := ih
      obtain ⟨hguest', hcount', hlogged'⟩ :=
        virtualStep_of_exits hostVmexitPtr returnAddress p handlers hown (hexits _ hguest)
      rw [virtualRun_succ]
      refine ⟨hguest'.trans hguest, ?_, ?_⟩
      · rw [hcount', hcount, Nat.add_assoc]
      · rw [hlogged', hlogged, Nat.add_assoc]

/-- **No progress.**  Up to the first instruction that exits the guest runs as it would alone,
and each step from there on is one more VM exit at it, which `host_vmexit` logs. -/
theorem frozen_run (hown : OwnsStack own hostRsp) (v : Virtual) {k : Nat}
    (hbefore : ∀ i < k, cpu.exits (nativeRun cpu i v.guest) = false)
    (hexits : ∀ s : Guest, s.Agree own (nativeRun cpu k v.guest) → cpu.exits s = true) (n : Nat) :
    (virtualRun hostVmexitPtr returnAddress p cpu handlers n v).guest.Agree own
        (nativeRun cpu (min n k) v.guest) ∧
      (virtualRun hostVmexitPtr returnAddress p cpu handlers n v).exits = v.exits + (n - k) ∧
      (virtualRun hostVmexitPtr returnAddress p cpu handlers n v).host.logged =
        v.host.logged + (n - k) := by
  by_cases hn : n ≤ k
  · rw [virtualRun_of_not_exits hostVmexitPtr returnAddress p handlers v
        fun i hi ↦ hbefore i (Nat.lt_of_lt_of_le hi hn),
      Nat.min_eq_left hn, Nat.sub_eq_zero_of_le hn]
    exact ⟨.refl _, rfl, rfl⟩
  · have hk : k ≤ n := Nat.le_of_not_le hn
    have hsplit : virtualRun hostVmexitPtr returnAddress p cpu handlers n v =
        virtualRun hostVmexitPtr returnAddress p cpu handlers (n - k)
          { v with guest := nativeRun cpu k v.guest } := by
      rw [← virtualRun_of_not_exits hostVmexitPtr returnAddress p handlers v hbefore, virtualRun,
        virtualRun, virtualRun, ← Function.iterate_add_apply, Nat.sub_add_cancel hk]
    rw [hsplit, Nat.min_eq_right hk]
    exact virtualRun_of_exits hostVmexitPtr returnAddress p handlers hown _ hexits (n - k)

end virtual

/-- A guest that goes on byte by byte and exits at address 2. -/
def exitAtTwo : NonRoot where
  exits s := s.rip == 2
  exec s := { s with rip := s.rip + 1 }
  information _ := ⟨0, 0, 0, 0, 0⟩

/-- A handler that returns. -/
def returningHandler : HostHandler {x | mebibyteCore.InState x} mebibyteCore.hostStack where
  run := countingExit.handler
  keeps := countingExit.keeps

/-- At the start its memory and its registers, and the VMCS, are zero. -/
def zeroVirtual : Virtual where
  guest := ⟨⟨fun _ ↦ 0, fun _ ↦ 0⟩, 0, 0⟩
  host := ⟨fun _ ↦ 0, []⟩
  exits := 0

/-- After ten steps it has exited eight times, at the same address. -/
theorem frozen_run_exitAtTwo :
    let run := virtualRun 0 0 ⟨fun _ ↦ 0, fun _ ↦ 0⟩ exitAtTwo (fun _ ↦ returningHandler) 10
      zeroVirtual
    run.guest.Agree {x | mebibyteCore.InState x} (nativeRun exitAtTwo (min 10 2) zeroVirtual.guest) ∧
      run.exits = 0 + (10 - 2) ∧ run.host.logged = zeroVirtual.host.logged + (10 - 2) := by
  refine frozen_run 0 0 _ (fun _ ↦ returningHandler) (ownsStack_of_inState fun _ h ↦ h)
    zeroVirtual (k := 2) ?_ ?_ 10
  · intro i hi
    interval_cases i <;> rfl
  · intro s hs
    have hrip : s.rip = 2 := hs.rip
    change (s.rip == 2) = true
    rw [hrip]
    rfl

/-! ## The guest that `cpu_init` launches -/

section launch

variable {l : Launch}

/-- What the guest has still to execute when it comes to the first `vmwrite`. -/
def firstVmwrite (l : Launch) : List Op :=
  l.writes.map (fun w ↦ .vmxwrite w.1 w.2) ++
    [ .dumpVmcs, .eptResolveEntries, .vmxcheck, .vmlaunch, .return0 ]

theorem fromGetRip_eq (l : Launch) :
    fromGetRip l = [.testStatusCode, .setStatusCode, .eptInitCore] ++ firstVmwrite l := by
  simp only [fromGetRip, toVmlaunch, firstVmwrite, List.append_assoc]
  rfl

/-- The first `vmwrite` is the one of the `es` selector of the host. -/
theorem firstVmwrite_cons (l : Launch) :
    ∃ value rest, firstVmwrite l = .vmxwrite (.hostSelector .es) value :: rest :=
  ⟨_, _, rfl⟩

end launch

end Hypervi.Cpu
