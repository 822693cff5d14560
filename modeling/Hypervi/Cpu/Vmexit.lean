import Hypervi.Cpu.Check
import Hypervi.Ept.Model

/-!
# The handler of VM exits: `host_vmexit`

`hypervisor/host.cc`.  The handler reads the VMCS and logs what it finds there; the calls that
it makes only read and log as well.  So the VMCS after an exit is the one that the processor
has saved (`hostVmexit_vmcs`), and each exit is in the log once (`hostVmexit_logged`).

The prefix that `corelog` puts in front of a line is left out, and so is the line that
`cpu_vmxread` logs when its instruction fails.
-/

namespace Hypervi.Cpu

open Bits Ia32 Memory Ept

/-- A line of `corelog`, or one of `corelog_hex` with its number. -/
inductive CoreLine where
  | text (msg : String)
  | hex (msg : String) (value : BitVec 64)
deriving DecidableEq, Repr

/-- The VMCS and the log, which are all that the handler could change but for its stack. -/
structure HostContext where
  vmcs : Vmcs
  log : List CoreLine

namespace HostContext

variable (p : VmxInstructions) (mem : Mem) (h : HostContext)

/-- `corelog` -/
def corelog (msg : String) : HostContext := { h with log := h.log ++ [.text msg] }

/-- `corelog_hex` -/
def corelogHex (msg : String) (value : BitVec 64) : HostContext :=
  { h with log := h.log ++ [.hex msg value] }

/-- The call of `ept_resolve_entries`, with four pointers to variables that are not read. -/
def eptResolveEntries (address : BitVec 64) : HostContext :=
  let resolved := Ept.eptResolveEntries mem (cpuVmxread p h.vmcs .ctrlEptPointer) address
    ⟨true, true, true, true⟩
  let pde := load64 mem (resolved.outs.pd.getD 0)
  if largePage.test pde then h else h.corelogHex "bad pde pfn : " (Epde2mb.pageFrameNumber.get pde)

/-- The call of `cpu_vmxcheck`, whose result is not looked at. -/
def cpuVmxcheck : HostContext :=
  match cpuVmxcheckGuest (cpuVmxread p h.vmcs) with
  | .ok _ => h
  | .error lines => { h with log := h.log ++ lines.map fun l ↦ .hex l.text l.value }

end HostContext

open HostContext

/-- `host_vmexit` -/
def hostVmexit (p : VmxInstructions) (mem : Mem) (h : HostContext) : HostContext :=
  let reason : BitVec 32 := (cpuVmxread p h.vmcs .exitReason).setWidth 32
  let basicExitReason := VmexitReason.basicExitReason.get reason
  let h := h.corelog "vmexit called!\n"
  let h := h.corelogHex "exit reason: " (basicExitReason.setWidth 64)
  let h :=
    if VmexitReason.vmEntryFailure.test reason then
      let h := h.corelog "failed to launch vm! big sad :(\n"
      let h := h.corelogHex "exit qualifications: " (cpuVmxread p h.vmcs .exitQualification)
      let h := h.corelogHex "int err code: " (cpuVmxread p h.vmcs .vmexitInstructionInfo)
      h.corelogHex "int err code: " (cpuVmxread p h.vmcs .vmexitInterruptionErrorCode)
    else h
  let h :=
    if basicExitReason = vmxExitReasonEptMisconfiguration then
      let h := h.corelog "ept misconfigured!\n"
      h.eptResolveEntries p mem (cpuVmxread p h.vmcs .exitGuestLinearAddress)
    else h
  h.cpuVmxcheck p

/-! ## What an exit leaves -/

/-- The number of exits that are in the log. -/
def HostContext.logged (h : HostContext) : Nat := h.log.count (.text "vmexit called!\n")

namespace HostContext

variable {p : VmxInstructions} {mem : Mem} {h : HostContext}

@[simp] theorem corelog_vmcs (msg : String) : (h.corelog msg).vmcs = h.vmcs := rfl

@[simp] theorem corelogHex_vmcs (msg : String) (value : BitVec 64) :
    (h.corelogHex msg value).vmcs = h.vmcs := rfl

@[simp] theorem eptResolveEntries_vmcs (address : BitVec 64) :
    (h.eptResolveEntries p mem address).vmcs = h.vmcs := by
  rw [eptResolveEntries]
  split <;> rfl

@[simp] theorem cpuVmxcheck_vmcs : (h.cpuVmxcheck p).vmcs = h.vmcs := by
  rw [cpuVmxcheck]
  split <;> rfl

theorem corelog_logged (msg : String) :
    (h.corelog msg).logged = h.logged + if msg = "vmexit called!\n" then 1 else 0 := by
  rw [corelog, logged, List.count_append, List.count_singleton, logged]
  simp only [beq_iff_eq, CoreLine.text.injEq]

@[simp] theorem corelogHex_logged (msg : String) (value : BitVec 64) :
    (h.corelogHex msg value).logged = h.logged := by
  rw [corelogHex, logged, List.count_append, List.count_singleton, logged]
  rfl

@[simp] theorem eptResolveEntries_logged (address : BitVec 64) :
    (h.eptResolveEntries p mem address).logged = h.logged := by
  rw [eptResolveEntries]
  split
  · rfl
  · exact corelogHex_logged _ _

@[simp] theorem cpuVmxcheck_logged : (h.cpuVmxcheck p).logged = h.logged := by
  rw [cpuVmxcheck]
  split
  · rfl
  · rename_i lines _
    have hnone : CoreLine.text "vmexit called!\n" ∉ lines.map fun l ↦ .hex l.text l.value := by
      simp
    rw [logged, List.count_append, List.count_eq_zero_of_not_mem hnone]
    rfl

end HostContext

/-- The handler has no `vmwrite`. -/
theorem hostVmexit_vmcs (p : VmxInstructions) (mem : Mem) (h : HostContext) :
    (hostVmexit p mem h).vmcs = h.vmcs := by
  simp only [hostVmexit, cpuVmxcheck_vmcs]
  split <;> split <;> simp

/-- Each exit is logged once. -/
theorem hostVmexit_logged (p : VmxInstructions) (mem : Mem) (h : HostContext) :
    (hostVmexit p mem h).logged = h.logged + 1 := by
  simp only [hostVmexit, cpuVmxcheck_logged]
  split <;> split <;> simp [corelog_logged]

end Hypervi.Cpu
