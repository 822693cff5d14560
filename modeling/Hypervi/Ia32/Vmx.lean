import Hypervi.Ia32.Memory

/-!
# Segments, control registers and the VMCS of the processor

The second part of what the sources take from the `external/ia32-doc` submodule:
the layouts of selectors, descriptors, access rights, control registers and VMX
controls (Intel SDM vol. 3A, "Segment Descriptors", and vol. 3C, "Guest-State
Area" and "VMX Capability Reporting Facility"), the numbers of the
model-specific registers that `cpu_init` reads, and the fields of the VMCS.
-/

namespace Hypervi.Ia32

open Bits

/-! ## Segments -/

/-- The segment registers whose state a VMCS holds. -/
inductive SegmentRegister where
  | es | cs | ss | ds | fs | gs | ldtr | tr
deriving DecidableEq, Repr

namespace SegmentSelector

def requestPrivilegeLevel : Field := ⟨0, 2⟩
def table : Field := ⟨2, 1⟩
def index : Field := ⟨3, 13⟩

end SegmentSelector

/-- The two words of an 8-byte descriptor.  `baseAddressLow` and
`segmentLimitLow` belong to the first word, the other fields to the second. -/
structure SegmentDescriptor32 where
  low : BitVec 32
  high : BitVec 32
deriving DecidableEq, Repr

namespace SegmentDescriptor32

def segmentLimitLow : Field := ⟨0, 16⟩
def baseAddressLow : Field := ⟨16, 16⟩

def baseAddressMiddle : Field := ⟨0, 8⟩
def type : Field := ⟨8, 4⟩
def descriptorType : Field := ⟨12, 1⟩
def descriptorPrivilegeLevel : Field := ⟨13, 2⟩
def present : Field := ⟨15, 1⟩
def segmentLimitHigh : Field := ⟨16, 4⟩
/-- The bit available to software (AVL), which `ia32-doc` calls `system`. -/
def system : Field := ⟨20, 1⟩
def longMode : Field := ⟨21, 1⟩
def defaultBig : Field := ⟨22, 1⟩
def granularity : Field := ⟨23, 1⟩
def baseAddressHigh : Field := ⟨24, 8⟩

/-- The three parts of the base, put together. -/
def base (d : SegmentDescriptor32) : BitVec 32 :=
  d.high.extractLsb' 24 8 ++ (d.high.extractLsb' 0 8 ++ d.low.extractLsb' 16 16)

/-- The two parts of the limit, put together. -/
def rawLimit (d : SegmentDescriptor32) : BitVec 20 :=
  d.high.extractLsb' 16 4 ++ d.low.extractLsb' 0 16

/-- The descriptor of a code or data segment, and not of the system. -/
def isSegment (d : SegmentDescriptor32) : Bool := descriptorType.test d.high

end SegmentDescriptor32

/-- The limit in bytes, as `lsl` gives it: the raw limit counts pages when the
granularity bit is set. -/
def expandedLimit (raw : BitVec 20) (granularity : Bool) : BitVec 64 :=
  if granularity then raw.setWidth 64 * 0x1000 + 0xFFF else raw.setWidth 64

/-! ### `vmx_segment_access_rights` -/

namespace AccessRights

def type : Field := ⟨0, 4⟩
def descriptorType : Field := ⟨4, 1⟩
def descriptorPrivilegeLevel : Field := ⟨5, 2⟩
def present : Field := ⟨7, 1⟩
def reserved1 : Field := ⟨8, 4⟩
def availableBit : Field := ⟨12, 1⟩
def longMode : Field := ⟨13, 1⟩
def defaultBig : Field := ⟨14, 1⟩
def granularity : Field := ⟨15, 1⟩
def unusable : Field := ⟨16, 1⟩
def reserved2 : Field := ⟨17, 15⟩

end AccessRights

/-! ### Descriptor types -/

/-- LDT; the sources do not name it. -/
def segmentDescriptorTypeLdt : BitVec 32 := 2
def segmentDescriptorTypeTssAvailable : BitVec 32 := 9
def segmentDescriptorTypeTssBusy : BitVec 32 := 11
def segmentDescriptorTypeDataReadWriteAccessed : BitVec 32 := 3
def segmentDescriptorTypeDataReadWriteExpandDownAccessed : BitVec 32 := 7
def segmentDescriptorTypeCodeExecuteOnlyAccessed : BitVec 32 := 9
def segmentDescriptorTypeCodeExecuteReadAccessed : BitVec 32 := 11
def segmentDescriptorTypeCodeExecuteOnlyConformingAccessed : BitVec 32 := 13
def segmentDescriptorTypeCodeExecuteReadConformingAccessed : BitVec 32 := 15

namespace SegmentDescriptor32

/-- The type is that of a task state segment, if the descriptor is one of the
system; code segments use the same encodings. -/
def HasTssType (d : SegmentDescriptor32) : Prop :=
  type.get d.high = segmentDescriptorTypeTssAvailable ∨
    type.get d.high = segmentDescriptorTypeTssBusy

/-- The bit available to software is clear. -/
def AvailableClear (d : SegmentDescriptor32) : Prop :=
  system.get d.high = 0

/-- The type is that of an LDT, if the descriptor is one of the system. -/
def HasLdtType (d : SegmentDescriptor32) : Prop :=
  type.get d.high = segmentDescriptorTypeLdt

instance (d : SegmentDescriptor32) : Decidable d.HasTssType :=
  inferInstanceAs (Decidable (_ ∨ _))

instance (d : SegmentDescriptor32) : Decidable d.AvailableClear :=
  inferInstanceAs (Decidable (_ = _))

instance (d : SegmentDescriptor32) : Decidable d.HasLdtType :=
  inferInstanceAs (Decidable (_ = _))

end SegmentDescriptor32

/-! ## Control registers, flags and EFER -/

namespace Cr0

def protectionEnable : Field := ⟨0, 1⟩
def writeProtect : Field := ⟨16, 1⟩
def pagingEnable : Field := ⟨31, 1⟩

end Cr0

/-- `CR0_NUMERIC_ERROR_FLAG` -/
def cr0NumericErrorFlag : BitVec 64 := 0x20
/-- `CR0_PAGING_ENABLE_FLAG` -/
def cr0PagingEnableFlag : BitVec 64 := 0x80000000
/-- `CR4_VMX_ENABLE_FLAG` -/
def cr4VmxEnableFlag : BitVec 64 := 0x2000

namespace Cr4

def physicalAddressExtension : Field := ⟨5, 1⟩
def vmxEnable : Field := ⟨13, 1⟩
def controlFlowEnforcementEnable : Field := ⟨23, 1⟩

end Cr4

namespace Efer

def reserved1 : Field := ⟨1, 7⟩
def ia32eModeEnable : Field := ⟨8, 1⟩
def reserved2 : Field := ⟨9, 1⟩
def ia32eModeActive : Field := ⟨10, 1⟩
def reserved3 : Field := ⟨12, 52⟩

end Efer

namespace Rflags

def readAs1 : Field := ⟨1, 1⟩
def reserved1 : Field := ⟨3, 1⟩
def reserved2 : Field := ⟨5, 1⟩
def interruptEnableFlag : Field := ⟨9, 1⟩
def reserved3 : Field := ⟨15, 1⟩
def virtual8086ModeFlag : Field := ⟨17, 1⟩
def reserved4 : Field := ⟨22, 42⟩

end Rflags

/-! ## VMX controls -/

/-- `ia32_vmx_basic_register.vmx_controls` -/
def vmxControls : Field := ⟨55, 1⟩

namespace TrueControls

/-- The controls that must be one. -/
def allowed0Settings : Field := ⟨0, 32⟩
/-- The controls that may be one. -/
def allowed1Settings : Field := ⟨32, 32⟩

end TrueControls

namespace ExitControls

def hostAddressSpaceSize : Field := ⟨9, 1⟩
def loadIa32PerfGlobalCtrl : Field := ⟨12, 1⟩
def loadIa32Pat : Field := ⟨19, 1⟩
def saveIa32Efer : Field := ⟨20, 1⟩
def loadIa32Efer : Field := ⟨21, 1⟩
def loadCetState : Field := ⟨28, 1⟩
def loadIa32Pkrs : Field := ⟨29, 1⟩

end ExitControls

namespace EntryControls

def ia32eModeGuest : Field := ⟨9, 1⟩
def loadIa32PerfGlobalCtrl : Field := ⟨13, 1⟩
def loadIa32Efer : Field := ⟨15, 1⟩
def loadIa32Bndcfgs : Field := ⟨16, 1⟩
def loadIa32RtitCtl : Field := ⟨18, 1⟩
def loadCetState : Field := ⟨20, 1⟩

end EntryControls

namespace PinBasedControls

def nmiExiting : Field := ⟨3, 1⟩
def virtualNmi : Field := ⟨5, 1⟩

end PinBasedControls

namespace ProcBasedControls

def useMsrBitmaps : Field := ⟨28, 1⟩
def activateSecondaryControls : Field := ⟨31, 1⟩

end ProcBasedControls

namespace ProcBasedControls2

def enableEpt : Field := ⟨1, 1⟩
def enableRdtscp : Field := ⟨3, 1⟩
def enableVpid : Field := ⟨5, 1⟩
def unrestrictedGuest : Field := ⟨7, 1⟩
def enableInvpcid : Field := ⟨12, 1⟩
def enableXsaves : Field := ⟨20, 1⟩

end ProcBasedControls2

/-! ### `vmx_interruptibility_state` -/

namespace Interruptibility

def blockingBySti : Field := ⟨0, 1⟩
def blockingByMovSs : Field := ⟨1, 1⟩
def enclaveInterruption : Field := ⟨4, 1⟩

end Interruptibility

/-! ### `vmx_guest_activity_state` -/

def vmxActive : BitVec 32 := 0
def vmxHlt : BitVec 32 := 1
def vmxShutdown : BitVec 32 := 2
def vmxWaitForSipi : BitVec 32 := 3

/-! ### `vmx_vmexit_reason` -/

namespace VmexitReason

def basicExitReason : Field := ⟨0, 16⟩
def vmEntryFailure : Field := ⟨31, 1⟩

end VmexitReason

/-- `VMX_EXIT_REASON_EPT_MISCONFIGURATION` -/
def vmxExitReasonEptMisconfiguration : BitVec 32 := 0x31

/-! ## Model-specific registers -/

def ia32SysenterCs : BitVec 32 := 0x174
def ia32SysenterEsp : BitVec 32 := 0x175
def ia32SysenterEip : BitVec 32 := 0x176
def ia32VmxBasic : BitVec 32 := 0x480
def ia32VmxPinbasedCtls : BitVec 32 := 0x481
def ia32VmxProcbasedCtls : BitVec 32 := 0x482
def ia32VmxExitCtls : BitVec 32 := 0x483
def ia32VmxEntryCtls : BitVec 32 := 0x484
def ia32VmxCr0Fixed0 : BitVec 32 := 0x486
def ia32VmxCr0Fixed1 : BitVec 32 := 0x487
def ia32VmxCr4Fixed0 : BitVec 32 := 0x488
def ia32VmxCr4Fixed1 : BitVec 32 := 0x489
def ia32VmxProcbasedCtls2 : BitVec 32 := 0x48B
def ia32VmxTruePinbasedCtls : BitVec 32 := 0x48D
def ia32VmxTrueProcbasedCtls : BitVec 32 := 0x48E
def ia32VmxTrueExitCtls : BitVec 32 := 0x48F
def ia32VmxTrueEntryCtls : BitVec 32 := 0x490
def ia32Efer : BitVec 32 := 0xC0000080
def ia32FsBase : BitVec 32 := 0xC0000100
def ia32GsBase : BitVec 32 := 0xC0000101

/-! ## The VMCS -/

/-- The fields of the VMCS that the sources read or write, and the other fields of the host
state, which no source writes.  A field that exists for every segment register takes the
register as its argument: `VMCS_GUEST_ES_LIMIT` is `guestLimit es`. -/
inductive VmcsField where
  | hostSelector (s : SegmentRegister)
  | hostEfer | hostSysenterCs
  | hostCr0 | hostCr3 | hostCr4
  | hostFsBase | hostGsBase | hostTrBase | hostGdtrBase | hostIdtrBase
  | hostSysenterEsp | hostSysenterEip | hostRsp | hostRip
  | ctrlVirtualProcessorIdentifier | ctrlMsrBitmapAddress | ctrlEptPointer
  | ctrlExceptionBitmap | ctrlPinBasedVmExecutionControls
  | ctrlProcessorBasedVmExecutionControls | ctrlVmexitControls | ctrlVmentryControls
  | ctrlSecondaryProcessorBasedVmExecutionControls
  | ctrlCr0GuestHostMask | ctrlCr0ReadShadow | ctrlCr4GuestHostMask | ctrlCr4ReadShadow
  | guestSelector (s : SegmentRegister)
  | guestBase (s : SegmentRegister)
  | guestLimit (s : SegmentRegister)
  | guestAccessRights (s : SegmentRegister)
  | guestVmcsLinkPointer | guestEfer
  | guestGdtrLimit | guestIdtrLimit | guestSysenterCs
  | guestCr0 | guestCr3 | guestCr4
  | guestGdtrBase | guestIdtrBase | guestRsp | guestRip | guestRflags
  | guestSysenterEsp | guestSysenterEip
  | guestInterruptibilityState | guestActivityState
  | exitReason | exitQualification | exitGuestLinearAddress
  | vmexitInstructionInfo | vmexitInterruptionErrorCode
  | hostPerfGlobalCtrl | hostPat | hostSCet | hostSsp | hostInterruptSspTableAddr | hostPkrs
deriving DecidableEq, Repr

/-- The contents of a VMCS, as `vmread` returns them. -/
abbrev Vmcs := VmcsField → BitVec 64

end Hypervi.Ia32
