import Hypervi.Freestanding.Segments
import Hypervi.Store

/-!
# The VMCS that `cpu_init` writes

`cpu_init` adjusts the control registers of the core, asks the capability MSRs
which VMX controls it may use, captures the state of the running host and writes
it to the VMCS, as the state of the guest to be launched and as that of the host to
return to.  The check of the written VMCS is in `Cpu.Check`.

* A `Host` is what the instructions of `x86utils.S` read; `setControlRegisters` is
  what the assignments to `cr0` and `cr4` make of it.
* `vmcsWrites` is the sequence of calls of `cpu_vmxwrite`, in the order of the
  source, and `writeVmcs` the VMCS they leave; `cpuInitVmcs` sets the control
  registers before.
* A field holds the value written to it whole, also where the VMCS keeps 16 or 32
  bits of it.
* Log output is left out.  `vmxon`, `vmclear`, `vmptrld` and `vmlaunch`, and the order of
  all steps, are in `Cpu.Launch`.
-/

namespace Hypervi.Cpu

open Bits Ia32 Memory Freestanding Store

/-! ## The host -/

/-- `segment_descriptor_register_64` -/
structure SegmentDescriptorRegister64 where
  limit : BitVec 16
  baseAddress : BitVec 64

/-- The registers and the memory of the core that runs `cpu_init`. -/
structure Host where
  cr0 : BitVec 64
  cr3 : BitVec 64
  cr4 : BitVec 64
  rflags : BitVec 64
  selector : SegmentRegister → BitVec 16
  gdtr : SegmentDescriptorRegister64
  idtr : SegmentDescriptorRegister64
  msrs : Msrs
  segments : SegmentInstructions
  mem : Mem

/-- What `cpu_init` has of the core: the address of its `cpu_state`, the pointer
that `ept_init_core` left there, the address of `host_hv_entrypoint`, and the
`saved_stack` and `saved_rip` it took. -/
structure Core where
  state : BitVec 64
  eptPtr : BitVec 64
  hostHvEntrypoint : BitVec 64
  savedStack : BitVec 64
  savedRip : BitVec 64

/-- `&state->core_msr_bitmap` -/
def Core.coreMsrBitmap (c : Core) : BitVec 64 := c.state + 0x205000

/-- `state->host_stack` -/
def Core.hostStack (c : Core) : BitVec 64 := c.state + 0x206000

/-! ## Control registers and controls -/

/-- `cpu_alter_control_register`.  Both MSRs are read into a `u32`. -/
def cpuAlterControlRegister (msrs : Msrs) (originalValue : BitVec 64) (msrId0 msrId1 : BitVec 32) :
    BitVec 64 :=
  let orData : BitVec 32 := (msrs msrId0).setWidth 32
  let andData : BitVec 32 := (msrs msrId1).setWidth 32
  (originalValue &&& andData.setWidth 64) ||| orData.setWidth 64

/-- `cpu_alter_vmx_control_register` -/
def cpuAlterVmxControlRegister (msrs : Msrs) (original : BitVec 64) (msr : BitVec 32) : BitVec 64 :=
  let msrData := msrs msr
  (original &&& TrueControls.allowed1Settings.get msrData) |||
    TrueControls.allowed0Settings.get msrData

/-- The assignments to the control registers. -/
def setControlRegisters (h : Host) : Host :=
  let h := { h with cr4 := Cr4.vmxEnable.set h.cr4 1 }
  let h := { h with cr0 := cpuAlterControlRegister h.msrs h.cr0 ia32VmxCr0Fixed0 ia32VmxCr0Fixed1 }
  { h with cr4 := cpuAlterControlRegister h.msrs h.cr4 ia32VmxCr4Fixed0 ia32VmxCr4Fixed1 }

/-- The capability MSR of a group of controls: the "true" one, when the processor
has it. -/
def controlsMsr (msrs : Msrs) (trueCtls ctls : BitVec 32) : BitVec 32 :=
  if vmxControls.get (msrs ia32VmxBasic) ≠ 0 then trueCtls else ctls

/-- `vmexit_ctls` -/
def vmexitCtls (msrs : Msrs) : BitVec 64 :=
  let flags := ExitControls.hostAddressSpaceSize.set 0 1
  let flags := ExitControls.loadIa32Efer.set flags 1
  let flags := ExitControls.saveIa32Efer.set flags 1
  cpuAlterVmxControlRegister msrs flags (controlsMsr msrs ia32VmxTrueExitCtls ia32VmxExitCtls)

/-- `vmentry_ctls` -/
def vmentryCtls (msrs : Msrs) : BitVec 64 :=
  let flags := EntryControls.loadIa32Efer.set 0 1
  let flags := EntryControls.ia32eModeGuest.set flags 1
  cpuAlterVmxControlRegister msrs flags (controlsMsr msrs ia32VmxTrueEntryCtls ia32VmxEntryCtls)

/-- `pinbased_ctls` -/
def pinbasedCtls (msrs : Msrs) : BitVec 64 :=
  let flags := PinBasedControls.nmiExiting.set 0 1
  let flags := PinBasedControls.virtualNmi.set flags 1
  cpuAlterVmxControlRegister msrs flags
    (controlsMsr msrs ia32VmxTruePinbasedCtls ia32VmxPinbasedCtls)

/-- `procbased_ctls` -/
def procbasedCtls (msrs : Msrs) : BitVec 64 :=
  let flags := ProcBasedControls.useMsrBitmaps.set 0 1
  let flags := ProcBasedControls.activateSecondaryControls.set flags 1
  cpuAlterVmxControlRegister msrs flags
    (controlsMsr msrs ia32VmxTrueProcbasedCtls ia32VmxProcbasedCtls)

/-- `procbased2_ctls` -/
def procbased2Ctls (msrs : Msrs) : BitVec 64 :=
  let flags := ProcBasedControls2.enableEpt.set 0 1
  let flags := ProcBasedControls2.enableVpid.set flags 0
  let flags := ProcBasedControls2.enableRdtscp.set flags 1
  let flags := ProcBasedControls2.unrestrictedGuest.set flags 1
  let flags := ProcBasedControls2.enableInvpcid.set flags 1
  let flags := ProcBasedControls2.enableXsaves.set flags 1
  cpuAlterVmxControlRegister msrs flags ia32VmxProcbasedCtls2

/-! ## The writes -/

section writes

variable (h : Host) (c : Core)

/-- `read_es() & ~selector_mask`, and so for the other registers. -/
def maskedSelector (s : SegmentRegister) : BitVec 64 :=
  let selectorMask : BitVec 32 := 0x7
  ((h.selector s).setWidth 32 &&& ~~~selectorMask).setWidth 64

/-- `get_segment_base(gdtr.base_address, read_es())`, and so for the others. -/
def segmentBase (s : SegmentRegister) : BitVec 64 :=
  getSegmentBase h.mem h.gdtr.baseAddress (h.selector s)

/-- `get_segment_limit(read_es())`, and so for the others. -/
def segmentLimit (s : SegmentRegister) : BitVec 64 :=
  (getSegmentLimit h.segments (h.selector s)).setWidth 64

/-- `get_segment_access_rights_vmx(read_es())`, and so for the others. -/
def segmentAccessRights (s : SegmentRegister) : BitVec 64 :=
  (getSegmentAccessRightsVmx h.segments (h.selector s)).setWidth 64

/-- The writes to the host state fields. -/
def hostStateWrites : List (VmcsField × BitVec 64) :=
  [ (.hostSelector .es, maskedSelector h .es),
    (.hostSelector .cs, maskedSelector h .cs),
    (.hostSelector .ss, maskedSelector h .ss),
    (.hostSelector .ds, maskedSelector h .ds),
    (.hostSelector .fs, maskedSelector h .fs),
    (.hostSelector .gs, maskedSelector h .gs),
    (.hostSelector .tr, maskedSelector h .tr),
    (.hostEfer, h.msrs ia32Efer),
    (.hostSysenterCs, h.msrs ia32SysenterCs),
    (.hostCr0, h.cr0),
    (.hostCr3, h.cr3),
    (.hostCr4, h.cr4),
    (.hostFsBase, h.msrs ia32FsBase),
    (.hostGsBase, h.msrs ia32GsBase),
    (.hostTrBase, segmentBase h .tr),
    (.hostGdtrBase, h.gdtr.baseAddress),
    (.hostIdtrBase, h.idtr.baseAddress),
    (.hostSysenterEsp, h.msrs ia32SysenterEsp),
    (.hostSysenterEip, h.msrs ia32SysenterEip),
    (.hostRsp, c.hostStack),
    (.hostRip, c.hostHvEntrypoint) ]

/-- The writes to the control fields. -/
def controlWrites : List (VmcsField × BitVec 64) :=
  [ (.ctrlVirtualProcessorIdentifier, 1),
    (.ctrlMsrBitmapAddress, c.coreMsrBitmap),
    (.ctrlEptPointer, c.eptPtr),
    (.ctrlExceptionBitmap, 0),
    (.ctrlPinBasedVmExecutionControls, pinbasedCtls h.msrs),
    (.ctrlProcessorBasedVmExecutionControls, procbasedCtls h.msrs),
    (.ctrlVmexitControls, vmexitCtls h.msrs),
    (.ctrlVmentryControls, vmentryCtls h.msrs),
    (.ctrlSecondaryProcessorBasedVmExecutionControls, procbased2Ctls h.msrs),
    (.ctrlCr0GuestHostMask, cr0NumericErrorFlag ||| cr0PagingEnableFlag),
    (.ctrlCr0ReadShadow, h.cr0),
    (.ctrlCr4GuestHostMask, cr4VmxEnableFlag),
    (.ctrlCr4ReadShadow, h.cr4) ]

/-- The writes to the guest state fields. -/
def guestStateWrites : List (VmcsField × BitVec 64) :=
  [ (.guestSelector .es, (h.selector .es).setWidth 64),
    (.guestSelector .cs, (h.selector .cs).setWidth 64),
    (.guestSelector .ss, (h.selector .ss).setWidth 64),
    (.guestSelector .ds, (h.selector .ds).setWidth 64),
    (.guestSelector .fs, (h.selector .fs).setWidth 64),
    (.guestSelector .gs, (h.selector .gs).setWidth 64),
    (.guestSelector .ldtr, (h.selector .ldtr).setWidth 64),
    (.guestSelector .tr, (h.selector .tr).setWidth 64),
    (.guestBase .es, segmentBase h .es),
    (.guestBase .cs, segmentBase h .cs),
    (.guestBase .ss, segmentBase h .ss),
    (.guestBase .ds, segmentBase h .ds),
    (.guestVmcsLinkPointer, ~~~0),
    (.guestEfer, h.msrs ia32Efer),
    (.guestLimit .es, segmentLimit h .es),
    (.guestLimit .cs, segmentLimit h .cs),
    (.guestLimit .ss, segmentLimit h .ss),
    (.guestLimit .ds, segmentLimit h .ds),
    (.guestLimit .fs, segmentLimit h .fs),
    (.guestLimit .gs, segmentLimit h .gs),
    (.guestLimit .ldtr, segmentLimit h .ldtr),
    (.guestLimit .tr, segmentLimit h .tr),
    (.guestGdtrLimit, h.gdtr.limit.setWidth 64),
    (.guestIdtrLimit, h.idtr.limit.setWidth 64),
    (.guestAccessRights .es, segmentAccessRights h .es),
    (.guestAccessRights .cs, segmentAccessRights h .cs),
    (.guestAccessRights .ss, segmentAccessRights h .ss),
    (.guestAccessRights .ds, segmentAccessRights h .ds),
    (.guestAccessRights .fs, segmentAccessRights h .fs),
    (.guestAccessRights .gs, segmentAccessRights h .gs),
    (.guestAccessRights .ldtr, segmentAccessRights h .ldtr),
    (.guestAccessRights .tr, segmentAccessRights h .tr),
    (.guestSysenterCs, h.msrs ia32SysenterCs),
    (.guestCr0, h.cr0),
    (.guestCr3, h.cr3),
    (.guestCr4, h.cr4),
    (.guestBase .fs, h.msrs ia32FsBase),
    (.guestBase .gs, h.msrs ia32GsBase),
    (.guestBase .ldtr, segmentBase h .ldtr),
    (.guestBase .tr, segmentBase h .tr),
    (.guestGdtrBase, h.gdtr.baseAddress),
    (.guestIdtrBase, h.idtr.baseAddress),
    (.guestRsp, c.savedStack),
    (.guestRip, c.savedRip),
    (.guestRflags, h.rflags),
    (.guestSysenterEsp, h.msrs ia32SysenterEsp),
    (.guestSysenterEip, h.msrs ia32SysenterEip) ]

/-- All writes, in order. -/
def vmcsWrites : List (VmcsField × BitVec 64) :=
  hostStateWrites h c ++ (controlWrites h c ++ guestStateWrites h c)

end writes

/-! ## The VMCS -/

/-- The results of `call_vmread` and `call_vmwrite`, which are zero for the fields
that the processor has. -/
structure VmxInstructions where
  vmread : VmcsField → BitVec 64
  vmwrite : VmcsField → BitVec 64

/-- Every `vmread` and every `vmwrite` succeeds. -/
def VmxInstructions.Succeed (p : VmxInstructions) : Prop :=
  ∀ field, p.vmread field = 0 ∧ p.vmwrite field = 0

/-- `cpu_vmxwrite` -/
def cpuVmxwrite (p : VmxInstructions) (vmcs : Vmcs) (field : VmcsField) (value : BitVec 64) : Vmcs :=
  write (fun field ↦ p.vmwrite field == 0) vmcs field value

/-- `cpu_vmxread` -/
def cpuVmxread (p : VmxInstructions) (vmcs : Vmcs) (field : VmcsField) : BitVec 64 :=
  if p.vmread field = 0 then vmcs field else 0x1337420

/-- The writes, for a host whose control registers are set. -/
def writeVmcs (p : VmxInstructions) (h : Host) (c : Core) (vmcs : Vmcs) : Vmcs :=
  (vmcsWrites h c).foldl (fun vmcs w ↦ cpuVmxwrite p vmcs w.1 w.2) vmcs

/-- The VMCS when `cpu_init` is done with it. -/
def cpuInitVmcs (p : VmxInstructions) (h : Host) (c : Core) (vmcs : Vmcs) : Vmcs :=
  writeVmcs p (setControlRegisters h) c vmcs

/-- No field is written twice. -/
theorem vmcsWrites_nodup (h : Host) (c : Core) : ((vmcsWrites h c).map Prod.fst).Nodup := by
  simp only [vmcsWrites, hostStateWrites, controlWrites, guestStateWrites, List.map_append,
    List.map_cons, List.map_nil]
  decide +kernel

section read

variable {p : VmxInstructions} {h : Host} {c : Core} {field : VmcsField} {value : BitVec 64}

/-- A field that is written reads the value written to it. -/
theorem cpuVmxread_of_lookup (hp : p.Succeed) (hlookup : (vmcsWrites h c).lookup field = some value)
    (vmcs : Vmcs) : cpuVmxread p (writeVmcs p h c vmcs) field = value := by
  obtain ⟨hread, hwrite⟩ := hp field
  rw [cpuVmxread, if_pos hread]
  exact applyWrites_of_lookup (vmcsWrites_nodup h c) (beq_iff_eq.mpr hwrite) hlookup

/-- A field that is not written keeps its value. -/
theorem cpuVmxread_of_not_mem (hp : p.Succeed) (hfield : field ∉ (vmcsWrites h c).map Prod.fst)
    (vmcs : Vmcs) : cpuVmxread p (writeVmcs p h c vmcs) field = vmcs field := by
  rw [cpuVmxread, if_pos (hp field).1]
  exact applyWrites_of_not_mem hfield

end read

/-! ## The segments -/

section segments

variable (h : Host) (c : Core) (s : SegmentRegister)

theorem lookup_guestSelector :
    (vmcsWrites h c).lookup (.guestSelector s) = some ((h.selector s).setWidth 64) := by
  cases s <;> rfl

theorem lookup_guestLimit :
    (vmcsWrites h c).lookup (.guestLimit s) = some (segmentLimit h s) := by
  cases s <;> rfl

theorem lookup_guestAccessRights :
    (vmcsWrites h c).lookup (.guestAccessRights s) = some (segmentAccessRights h s) := by
  cases s <;> rfl

end segments

/-- `get_segment_limit` returns a `u16`, so that the limit of a segment is captured
when it is below 64 KiB: for byte granularity a raw limit of 16 bits, for page
granularity one below 16. -/
theorem guestLimit_captured_iff (h : Host) (c : Core) (raw : BitVec 20) (g : Bool) :
    (∀ selector, h.segments.lsl selector = some (expandedLimit raw g) →
      ((getSegmentLimit h.segments selector).setWidth 64 = expandedLimit raw g ↔
        (g = false ∧ raw.toNat < 2 ^ 16) ∨ (g = true ∧ raw.toNat < 16))) ∧
    (∀ s, h.segments.lsl (h.selector s) = some (expandedLimit raw g) →
      ((vmcsWrites (setControlRegisters h) c).lookup (.guestLimit s) =
          some (expandedLimit raw g) ↔
        (g = false ∧ raw.toNat < 2 ^ 16) ∨ (g = true ∧ raw.toNat < 16))) := by
  refine ⟨fun selector hlsl ↦ getSegmentLimit_eq_iff hlsl, fun s hlsl ↦ ?_⟩
  rw [lookup_guestLimit, Option.some_inj]
  exact getSegmentLimit_eq_iff hlsl

/-- A host whose segment registers all select a flat segment: raw limit `0xFFFFF`
in pages. -/
def flatHost : Host where
  cr0 := 0x80000031
  cr3 := 0
  cr4 := 0x20
  rflags := 2
  selector := fun _ ↦ 8
  gdtr := ⟨0xF, 0⟩
  idtr := ⟨0, 0⟩
  msrs := fun _ ↦ 0
  segments := ⟨fun _ ↦ some 0xCF9B00, fun _ ↦ some 0xFFFFFFFF, fun _ ↦ 0⟩
  mem := fun _ ↦ 0

/-- The same with a task state segment of `0x68` bytes. -/
def smallHost : Host :=
  { flatHost with segments := ⟨fun _ ↦ some 0x8B00, fun _ ↦ some 0x67, fun _ ↦ 0⟩ }

/-- A flat segment has the limit `0xFFFFFFFF`; `0xFFFF` is captured. -/
theorem guestLimit_flat_truncated :
    flatHost.segments.lsl (flatHost.selector .ds) = some (expandedLimit 0xFFFFF true) ∧
      (getSegmentLimit flatHost.segments (flatHost.selector .ds)).setWidth 64 ≠
        expandedLimit 0xFFFFF true ∧
      (vmcsWrites (setControlRegisters flatHost) ⟨0, 0, 0, 0, 0⟩).lookup (.guestLimit .ds) =
        some 0xFFFF := by
  refine ⟨?_, ?_, ?_⟩ <;> decide +kernel

/-- The limit of the small segment is captured, that of the flat one is not. -/
theorem guestLimit_captured_small :
    (vmcsWrites (setControlRegisters flatHost) ⟨0, 0, 0, 0, 0⟩).lookup (.guestLimit .ds) ≠
        some (expandedLimit 0xFFFFF true) ∧
      (vmcsWrites (setControlRegisters smallHost) ⟨0, 0, 0, 0, 0⟩).lookup (.guestLimit .tr) =
        some (expandedLimit 0x67 false) := by
  constructor
  · intro h
    have hflat := (guestLimit_captured_iff flatHost ⟨0, 0, 0, 0, 0⟩ 0xFFFFF true).2 .ds
      (by decide +kernel)
    exact absurd (hflat.mp h) (by decide)
  · have hsmall := (guestLimit_captured_iff smallHost ⟨0, 0, 0, 0, 0⟩ 0x67 false).2 .tr
      (by decide +kernel)
    exact hsmall.mpr (by decide)

end Hypervi.Cpu
