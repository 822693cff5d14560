import Hypervi.Control
import Hypervi.Cpu.Init

/-!
# The check of the VMCS: `vmxcheck.cc`

`cpu_vmxcheck` reads the VMCS back and repeats, before `vmlaunch`, the checks that
the processor makes of the guest state on a VM entry.  The functions return at the
first failed check and log its name; a `Checked` carries the lines that were logged.

* `read` stands for `cpu_vmxread` on the current VMCS.
* `cpu_vmxcheck_guest` is one sequence of checks in the source.  Here it is cut where
  the source turns to other fields, and `cpuVmxcheckGuest` runs the parts in order.
* The `_eq_ok` lemmas say what holds when a part passes; nothing below unfolds the
  checks again.
-/

namespace Hypervi.Cpu

open Bits Ia32 Checked

/-! ## The macros -/

/-- `check_bad` -/
def checkBad (name : String) (value : Bool) (bad : BitVec 64) : Checked :=
  if value then .ok () else .error [⟨"check failed: " ++ name, bad⟩]

/-- `check` -/
def check (name : String) (value : Bool) : Checked := checkBad name value 0x1337

/-- `check` of a call that makes checks of its own, and has logged its failure. -/
def checkCall (name : String) (value : Checked) : Checked :=
  match value with
  | .ok _ => .ok ()
  | .error log => .error (log ++ [⟨"check failed: " ++ name, 0x1337⟩])

/-- `is_flag_set` -/
def isFlagSet (thing flag : BitVec 32) : Bool := (thing &&& flag) != 0

@[simp] theorem checkBad_eq_ok {name : String} {value : Bool} {bad : BitVec 64} :
    checkBad name value bad = .ok () ↔ value = true := by
  cases value <;> simp [checkBad]

@[simp] theorem check_eq_ok {name : String} {value : Bool} :
    check name value = .ok () ↔ value = true := checkBad_eq_ok

@[simp] theorem checkCall_eq_ok {name : String} {value : Checked} :
    checkCall name value = .ok () ↔ value = .ok () := by
  cases value <;> simp [checkCall]

/-! ## One segment -/

/-- `segment_type` -/
inductive SegmentType where
  | cs | ss | ds | es | fs | gs
deriving DecidableEq, Repr

/-- The register whose fields `cpu_vmxcheck_guest` passes with the segment type. -/
def SegmentType.register : SegmentType → SegmentRegister
  | .cs => .cs
  | .ss => .ss
  | .ds => .ds
  | .es => .es
  | .fs => .fs
  | .gs => .gs

section check

variable (read : VmcsField → BitVec 64)

/-- `static_cast<u32>(cpu_vmxread(VMCS_GUEST_CS_ACCESS_RIGHTS))`, and so for the
other registers. -/
def accessRights (s : SegmentRegister) : BitVec 32 := (read (.guestAccessRights s)).setWidth 32

/-- `static_cast<u32>(cpu_vmxread(VMCS_GUEST_CS_LIMIT))`, and so for the others. -/
def segLimit (s : SegmentRegister) : BitVec 32 := (read (.guestLimit s)).setWidth 32

/-- `static_cast<u16>(cpu_vmxread(VMCS_GUEST_CS_SELECTOR))`, and so for the others. -/
def segSelector (s : SegmentRegister) : BitVec 16 := (read (.guestSelector s)).setWidth 16

/-- The first `switch` of `check_segment_access_rights`. -/
def checkArType (seg : SegmentType) (ar : BitVec 32) (unrestrictedGuest : Bool) : Checked :=
  let type := AccessRights.type.get ar
  let code :=
    type == segmentDescriptorTypeCodeExecuteOnlyAccessed ||
    type == segmentDescriptorTypeCodeExecuteReadAccessed ||
    type == segmentDescriptorTypeCodeExecuteOnlyConformingAccessed ||
    type == segmentDescriptorTypeCodeExecuteReadConformingAccessed
  match seg with
  | .cs =>
      if !unrestrictedGuest then check "ar type" code
      else
        checkBad "ar type" (type == segmentDescriptorTypeDataReadWriteAccessed || code)
          (type.setWidth 64)
  | .ss =>
      onlyIf (AccessRights.unusable.get ar == 0)
        (check "ar type"
          (type == segmentDescriptorTypeDataReadWriteAccessed ||
            type == segmentDescriptorTypeDataReadWriteExpandDownAccessed))
  | _ =>
      onlyIf (AccessRights.unusable.get ar == 0)
        (andThen (check "ar accessed" (isFlagSet type (1#32 <<< 0)))
          (onlyIf (isFlagSet type (1#32 <<< 3)) (check "ar readable" (isFlagSet type (1#32 <<< 1)))))

/-- The second `switch`.  For `cs` it returns without a message when the type is not
one of two, and for a data segment it shifts the type to the left. -/
def checkArDpl (seg : SegmentType) (ar : BitVec 32) (selector : BitVec 16)
    (unrestrictedGuest : Bool) : Checked :=
  let type := AccessRights.type.get ar
  let dpl := AccessRights.descriptorPrivilegeLevel.get ar
  let arSs := accessRights read .ss
  let arCs := accessRights read .cs
  let rpl := (SegmentSelector.requestPrivilegeLevel.get selector).setWidth 32
  match seg with
  | .cs =>
      if type == segmentDescriptorTypeCodeExecuteOnlyAccessed ||
          type == segmentDescriptorTypeCodeExecuteReadAccessed then
        check "ar dpl" (dpl == AccessRights.descriptorPrivilegeLevel.get arSs)
      else .error []
  | .ss =>
      andThen (onlyIf (!unrestrictedGuest) (check "ar dpl" (dpl == rpl)))
        (onlyIf
          (AccessRights.type.get arCs == segmentDescriptorTypeDataReadWriteAccessed ||
            Cr0.protectionEnable.test (read .guestCr0))
          (check "ar dpl" (dpl == 0)))
  | _ =>
      onlyIf (!unrestrictedGuest && (AccessRights.unusable.get ar == 0) && (type <<< 11 != 0))
        (check "ar dpl" (decide (rpl ≤ dpl)))

/-- The checks of the granularity, which both functions make. -/
def checkGranularity (name : String) (ar limit : BitVec 32) : Checked :=
  andThen
    (onlyIf (!isFlagSet limit 0xfff) (check name (AccessRights.granularity.get ar == 0)))
    (onlyIf (isFlagSet limit 0xfff00000) (check name (AccessRights.granularity.test ar)))

/-- `check_segment_access_rights` -/
def checkSegmentAccessRights (seg : SegmentType) (ar limit : BitVec 32) (selector : BitVec 16)
    (ia32ModeGuest unrestrictedGuest : Bool) : Checked :=
  let checked := seg == .cs || AccessRights.unusable.get ar == 0
  all
    [ checkArType seg ar unrestrictedGuest,
      onlyIf checked (check "ar desc type" (AccessRights.descriptorType.get ar == 1)),
      checkArDpl read seg ar selector unrestrictedGuest,
      onlyIf checked (check "ar present" (AccessRights.present.test ar)),
      onlyIf checked
        (check "ar reserved"
          (AccessRights.reserved1.get ar == 0 && AccessRights.reserved2.get ar == 0)),
      onlyIf (seg == .cs && (ia32ModeGuest && AccessRights.longMode.test ar))
        (check "ar default_big" (AccessRights.defaultBig.get ar == 0)),
      onlyIf checked (checkGranularity "granularity" ar limit) ]

/-! ## The guest state -/

/-- `vmentry.ia32e_mode_guest` -/
def ia32eModeGuest : Bool := EntryControls.ia32eModeGuest.test (read .ctrlVmentryControls)

/-- `unrestricted_guest` -/
def unrestrictedGuest : Bool :=
  ProcBasedControls.activateSecondaryControls.test
      (read .ctrlProcessorBasedVmExecutionControls) &&
    ProcBasedControls2.unrestrictedGuest.test
      (read .ctrlSecondaryProcessorBasedVmExecutionControls)

/-- The checks of the guest's EFER. -/
def checkEfer : Checked :=
  let vmentry := read .ctrlVmentryControls
  let efer := read .guestEfer
  all
    [ check "efer" (Efer.reserved1.get efer == 0),
      check "efer" (Efer.reserved2.get efer == 0),
      check "efer" (Efer.reserved3.get efer == 0),
      check "efer" (Efer.ia32eModeActive.get efer == EntryControls.ia32eModeGuest.get vmentry),
      onlyIf (Cr0.pagingEnable.test (read .guestCr0))
        (check "efer" (Efer.ia32eModeActive.get efer == Efer.ia32eModeEnable.get efer)) ]

/-- The checks of control registers, entry controls and EFER. -/
def checkControlRegisters : Checked :=
  let vmentry := read .ctrlVmentryControls
  let guestCr0 := read .guestCr0
  let guestCr4 := read .guestCr4
  all
    [ onlyIf (Cr0.pagingEnable.test guestCr0 && !unrestrictedGuest read)
        (check "cr0" (Cr0.protectionEnable.get guestCr0 == 1)),
      check "vmentry" (EntryControls.loadIa32PerfGlobalCtrl.get vmentry == 0),
      onlyIf (ia32eModeGuest read)
        (andThen (check "cr0" (Cr0.pagingEnable.test guestCr0))
          (check "cr4" (Cr4.physicalAddressExtension.test guestCr4))),
      onlyIf (EntryControls.loadIa32Efer.test vmentry) (checkEfer read),
      check "vmentry" (EntryControls.loadIa32Bndcfgs.get vmentry == 0),
      check "vmentry" (EntryControls.loadIa32RtitCtl.get vmentry == 0),
      check "vmentry" (EntryControls.loadCetState.get vmentry == 0) ]

/-- The checks of the selectors of `TR` and `LDTR`. -/
def checkSystemSelectors : Checked :=
  all
    [ check "tr sel" (SegmentSelector.table.get (segSelector read .tr) == 0),
      onlyIf (AccessRights.unusable.get (accessRights read .ldtr) == 0)
        (check "ldtr sel" (SegmentSelector.table.get (segSelector read .ldtr) == 0)) ]

/-- One of the calls of `check_segment_access_rights`. -/
def checkSegment (name : String) (seg : SegmentType) : Checked :=
  checkCall name
    (checkSegmentAccessRights read seg (accessRights read seg.register)
      (segLimit read seg.register) (segSelector read seg.register) (ia32eModeGuest read)
      (unrestrictedGuest read))

/-- The calls for the six segments. -/
def checkSegments : Checked :=
  all
    [ checkSegment read "cs ar" .cs,
      checkSegment read "ss ar" .ss,
      checkSegment read "ds ar" .ds,
      checkSegment read "es ar" .es,
      checkSegment read "fs ar" .fs,
      checkSegment read "gs ar" .gs ]

/-- The checks of the access rights of `TR`. -/
def checkTr : Checked :=
  let access := accessRights read .tr
  all
    [ if ia32eModeGuest read then
        check "tr ar type"
          (AccessRights.type.get access == segmentDescriptorTypeCodeExecuteReadAccessed)
      else check "tr ar type" false,
      check "tr ar dt" (AccessRights.descriptorType.get access == 0),
      check "tr ar p" (AccessRights.present.test access),
      check "tr ar res" (AccessRights.reserved1.get access == 0),
      check "tr ar res2" (AccessRights.reserved2.get access == 0),
      check "tr unusable" (AccessRights.unusable.get access == 0),
      checkGranularity "tr ar gran" access (segLimit read .tr) ]

/-- The check of the fixed bits of `RFLAGS`. -/
def checkRflags : Checked :=
  let guestRflags := read .guestRflags
  check "rflags"
    (Rflags.reserved1.get guestRflags == 0 && Rflags.reserved2.get guestRflags == 0 &&
      Rflags.reserved3.get guestRflags == 0 && Rflags.reserved4.get guestRflags == 0 &&
      Rflags.readAs1.test guestRflags)

/-- The checks of the activity and interruptibility states. -/
def checkActivity : Checked :=
  let guestRflags := read .guestRflags
  let interruptibilityState : BitVec 32 := (read .guestInterruptibilityState).setWidth 32
  let activityState : BitVec 32 := (read .guestActivityState).setWidth 32
  all
    [ check "activity state"
        (activityState == vmxActive || activityState == vmxHlt || activityState == vmxShutdown ||
          activityState == vmxWaitForSipi),
      onlyIf (AccessRights.descriptorPrivilegeLevel.get (accessRights read .ss) != 0)
        (check "activity state" (activityState != vmxHlt)),
      onlyIf (Interruptibility.blockingBySti.get interruptibilityState == 1 ||
          Interruptibility.blockingByMovSs.test interruptibilityState)
        (check "activity state" (activityState != vmxActive)),
      onlyIf (Rflags.interruptEnableFlag.get guestRflags == 0)
        (check "interrupt" (Interruptibility.blockingBySti.get interruptibilityState == 0)),
      onlyIf (Interruptibility.enclaveInterruption.test interruptibilityState)
        (check "interrpt" (Interruptibility.blockingByMovSs.get interruptibilityState == 0)) ]

/-- `cpu_vmxcheck_guest` -/
def cpuVmxcheckGuest : Checked :=
  all
    [ checkControlRegisters read, checkSystemSelectors read, checkSegments read, checkTr read,
      checkRflags read, checkActivity read ]

end check

/-- `cpu_vmxcheck` -/
def cpuVmxcheck (p : VmxInstructions) (vmcs : Vmcs) : Bool :=
  (cpuVmxcheckGuest (cpuVmxread p vmcs)).passed

/-! ## What passes -/

/-- A bit of a word, as `is_flag_set` tests it. -/
theorem isFlagSet_shift {thing : BitVec 32} {i : Nat} (hi : i < 32) :
    isFlagSet thing (1#32 <<< i) = thing.getLsbD i := by
  rw [isFlagSet, ← BitVec.twoPow_eq, BitVec.and_twoPow]
  have hne : BitVec.twoPow 32 i ≠ 0 := by
    intro h
    have hbit := congrArg (fun x ↦ x.getLsbD i) h
    simp [hi] at hbit
  cases thing.getLsbD i with
  | true => simpa using hne
  | false => simp

/-- The granularity bit is that of an expanded limit. -/
def GranularityFits (ar limit : BitVec 32) : Prop :=
  (limit &&& 0xfff = 0 → AccessRights.granularity.get ar = 0) ∧
    (limit &&& 0xfff00000 ≠ 0 → AccessRights.granularity.get ar = 1)

theorem checkGranularity_eq_ok {name : String} {ar limit : BitVec 32} :
    checkGranularity name ar limit = .ok () ↔ GranularityFits ar limit := by
  have hg : AccessRights.granularity.get ar = 1 ↔ AccessRights.granularity.test ar = true :=
    Field.get_eq_one_iff rfl
  rw [GranularityFits, hg]
  simp [checkGranularity, isFlagSet]

section segment

variable {read : VmcsField → BitVec 64} {ar limit : BitVec 32} {selector : BitVec 16}
  {ia32e unrestricted : Bool}

/-- The form of a code or data segment: `S` and `P` set, the reserved bits clear. -/
structure CodeOrDataForm (ar : BitVec 32) : Prop where
  descriptorType : AccessRights.descriptorType.get ar = 1
  present : AccessRights.present.get ar = 1
  reserved1 : AccessRights.reserved1.get ar = 0
  reserved2 : AccessRights.reserved2.get ar = 0

/-- The check of a segment passes when both switches do, the segment has its form and
granularity unless it is unusable, and a 64-bit code segment has `D` clear. -/
theorem checkSegmentAccessRights_eq_ok {seg : SegmentType} :
    checkSegmentAccessRights read seg ar limit selector ia32e unrestricted = .ok () ↔
      checkArType seg ar unrestricted = .ok () ∧
      checkArDpl read seg ar selector unrestricted = .ok () ∧
      (seg = .cs ∨ AccessRights.unusable.get ar = 0 →
        CodeOrDataForm ar ∧ GranularityFits ar limit) ∧
      (seg = .cs → ia32e = true → AccessRights.longMode.get ar = 1 →
        AccessRights.defaultBig.get ar = 0) := by
  have hpresent : AccessRights.present.get ar = 1 ↔ AccessRights.present.test ar = true :=
    Field.get_eq_one_iff rfl
  have hlong : AccessRights.longMode.get ar = 1 ↔ AccessRights.longMode.test ar = true :=
    Field.get_eq_one_iff rfl
  simp only [checkSegmentAccessRights, all_eq_ok, List.forall_mem_cons, List.not_mem_nil,
    onlyIf_eq_ok, check_eq_ok, checkGranularity_eq_ok, Bool.or_eq_true, Bool.and_eq_true,
    beq_iff_eq, ← hpresent, ← hlong]
  constructor
  · rintro ⟨htype, hs, hdpl, hp, hres, hbig, hgran, -⟩
    exact ⟨htype, hdpl, fun h ↦ ⟨⟨hs h, hp h, (hres h).1, (hres h).2⟩, hgran h⟩,
      fun hcs hia hl ↦ hbig ⟨hcs, hia, hl⟩⟩
  · rintro ⟨htype, hdpl, hform, hbig⟩
    exact ⟨htype, fun h ↦ (hform h).1.descriptorType, hdpl, fun h ↦ (hform h).1.present,
      fun h ↦ ⟨(hform h).1.reserved1, (hform h).1.reserved2⟩, fun h ↦ hbig h.1 h.2.1 h.2.2,
      fun h ↦ (hform h).2, fun x hx ↦ hx.elim⟩

/-- `CS` passes both switches when it is accessed, not conforming and at the
privilege level of the stack segment. -/
theorem checkCs_eq_ok :
    (checkArType .cs ar unrestricted = .ok () ∧
      checkArDpl read .cs ar selector unrestricted = .ok ()) ↔
      (AccessRights.type.get ar = segmentDescriptorTypeCodeExecuteOnlyAccessed ∨
        AccessRights.type.get ar = segmentDescriptorTypeCodeExecuteReadAccessed) ∧
      AccessRights.descriptorPrivilegeLevel.get ar =
        AccessRights.descriptorPrivilegeLevel.get (accessRights read .ss) := by
  rw [checkArDpl]
  by_cases htype : AccessRights.type.get ar = segmentDescriptorTypeCodeExecuteOnlyAccessed ∨
      AccessRights.type.get ar = segmentDescriptorTypeCodeExecuteReadAccessed
  · have hfirst : checkArType .cs ar unrestricted = .ok () := by
      rcases htype with h | h <;> cases unrestricted <;> simp [checkArType, h]
    have hcond : (AccessRights.type.get ar == segmentDescriptorTypeCodeExecuteOnlyAccessed ||
        AccessRights.type.get ar == segmentDescriptorTypeCodeExecuteReadAccessed) = true := by
      simpa using htype
    simp only [hfirst, hcond, if_true, check_eq_ok, beq_iff_eq, htype, true_and]
  · have hcond : ¬ (AccessRights.type.get ar == segmentDescriptorTypeCodeExecuteOnlyAccessed ||
        AccessRights.type.get ar == segmentDescriptorTypeCodeExecuteReadAccessed) = true := by
      simpa using htype
    simp only [if_neg hcond, htype, reduceCtorEq, and_false, false_and]

theorem checkArType_ss_eq_ok :
    checkArType .ss ar unrestricted = .ok () ↔
      (AccessRights.unusable.get ar = 0 →
        AccessRights.type.get ar = segmentDescriptorTypeDataReadWriteAccessed ∨
          AccessRights.type.get ar = segmentDescriptorTypeDataReadWriteExpandDownAccessed) := by
  simp [checkArType]

theorem checkArDpl_ss_eq_ok :
    checkArDpl read .ss ar selector unrestricted = .ok () ↔
      (unrestricted = false → AccessRights.descriptorPrivilegeLevel.get ar =
        (SegmentSelector.requestPrivilegeLevel.get selector).setWidth 32) ∧
      (AccessRights.type.get (accessRights read .cs) = segmentDescriptorTypeDataReadWriteAccessed ∨
          Cr0.protectionEnable.test (read .guestCr0) = true →
        AccessRights.descriptorPrivilegeLevel.get ar = 0) := by
  simp [checkArDpl]

/-- The type has four bits, and shifting it by eleven loses none of them. -/
theorem type_shiftLeft_eq_zero :
    AccessRights.type.get ar <<< 11 = 0 ↔ AccessRights.type.get ar = 0 := by
  have hlt : (AccessRights.type.get ar).toNat < 2 ^ 4 := by
    rw [Field.toNat_get]
    exact Nat.mod_lt _ (by decide)
  rw [← BitVec.toNat_inj, ← BitVec.toNat_inj, BitVec.toNat_shiftLeft, Nat.shiftLeft_eq,
    Nat.mod_eq_of_lt (by omega), BitVec.ofNat_eq_ofNat, BitVec.toNat_zero]
  omega

section data

variable {seg : SegmentType} (hcs : seg ≠ .cs) (hss : seg ≠ .ss)

include hcs hss

theorem checkArType_data_eq_ok :
    checkArType seg ar unrestricted = .ok () ↔
      (AccessRights.unusable.get ar = 0 →
        (AccessRights.type.get ar).getLsbD 0 = true ∧
          ((AccessRights.type.get ar).getLsbD 3 = true →
            (AccessRights.type.get ar).getLsbD 1 = true)) := by
  cases seg with
  | cs => exact absurd rfl hcs
  | ss => exact absurd rfl hss
  | _ =>
      simp only [checkArType, onlyIf_eq_ok, andThen_eq_ok, check_eq_ok, beq_iff_eq,
        isFlagSet_shift (show 0 < 32 by decide), isFlagSet_shift (show 1 < 32 by decide),
        isFlagSet_shift (show 3 < 32 by decide)]

theorem checkArDpl_data_eq_ok :
    checkArDpl read seg ar selector unrestricted = .ok () ↔
      (unrestricted = false → AccessRights.unusable.get ar = 0 → AccessRights.type.get ar ≠ 0 →
        (SegmentSelector.requestPrivilegeLevel.get selector).setWidth 32 ≤
          AccessRights.descriptorPrivilegeLevel.get ar) := by
  cases seg with
  | cs => exact absurd rfl hcs
  | ss => exact absurd rfl hss
  | _ =>
      simp only [checkArDpl, onlyIf_eq_ok, check_eq_ok, Bool.and_eq_true, Bool.not_eq_true',
        beq_iff_eq, bne_iff_ne, ne_eq, type_shiftLeft_eq_zero, decide_eq_true_eq, and_imp]

end data

end segment

section guest

variable {read : VmcsField → BitVec 64}

/-- The check that `cpu_vmxcheck_guest` makes of a segment passes. -/
def SegmentPasses (read : VmcsField → BitVec 64) (seg : SegmentType) : Prop :=
  checkSegmentAccessRights read seg (accessRights read seg.register) (segLimit read seg.register)
    (segSelector read seg.register) (ia32eModeGuest read) (unrestrictedGuest read) = .ok ()

theorem checkSegments_eq_ok : checkSegments read = .ok () ↔ ∀ seg, SegmentPasses read seg := by
  simp only [checkSegments, checkSegment, all_eq_ok, List.forall_mem_cons, List.not_mem_nil,
    checkCall_eq_ok]
  constructor
  · rintro ⟨hcs, hss, hds, hes, hfs, hgs, -⟩ seg
    cases seg
    exacts [hcs, hss, hds, hes, hfs, hgs]
  · exact fun h ↦ ⟨h .cs, h .ss, h .ds, h .es, h .fs, h .gs, fun x hx ↦ hx.elim⟩

theorem checkSystemSelectors_eq_ok :
    checkSystemSelectors read = .ok () ↔
      SegmentSelector.table.get (segSelector read .tr) = 0 ∧
      (AccessRights.unusable.get (accessRights read .ldtr) = 0 →
        SegmentSelector.table.get (segSelector read .ldtr) = 0) := by
  simp [checkSystemSelectors]

theorem checkTr_eq_ok :
    checkTr read = .ok () ↔
      ia32eModeGuest read = true ∧
      AccessRights.type.get (accessRights read .tr) = segmentDescriptorTypeTssBusy ∧
      AccessRights.descriptorType.get (accessRights read .tr) = 0 ∧
      AccessRights.present.get (accessRights read .tr) = 1 ∧
      AccessRights.reserved1.get (accessRights read .tr) = 0 ∧
      AccessRights.reserved2.get (accessRights read .tr) = 0 ∧
      AccessRights.unusable.get (accessRights read .tr) = 0 ∧
      GranularityFits (accessRights read .tr) (segLimit read .tr) := by
  have hpresent : AccessRights.present.get (accessRights read .tr) = 1 ↔
      AccessRights.present.test (accessRights read .tr) = true :=
    Field.get_eq_one_iff rfl
  -- the source names the type after the code segment of the same encoding
  have htype : segmentDescriptorTypeCodeExecuteReadAccessed = segmentDescriptorTypeTssBusy := rfl
  rw [hpresent]
  cases hia : ia32eModeGuest read with
  | true => simp [checkTr, hia, checkGranularity_eq_ok, htype]
  | false => simp [checkTr, hia]

theorem checkEfer_eq_ok :
    checkEfer read = .ok () ↔
      Efer.reserved1.get (read .guestEfer) = 0 ∧
      Efer.reserved2.get (read .guestEfer) = 0 ∧
      Efer.reserved3.get (read .guestEfer) = 0 ∧
      Efer.ia32eModeActive.get (read .guestEfer) =
        EntryControls.ia32eModeGuest.get (read .ctrlVmentryControls) ∧
      (Cr0.pagingEnable.get (read .guestCr0) = 1 →
        Efer.ia32eModeActive.get (read .guestEfer) = Efer.ia32eModeEnable.get (read .guestEfer)) := by
  have hpaging : Cr0.pagingEnable.get (read .guestCr0) = 1 ↔
      Cr0.pagingEnable.test (read .guestCr0) = true := Field.get_eq_one_iff rfl
  rw [hpaging]
  simp [checkEfer]

theorem checkControlRegisters_eq_ok :
    checkControlRegisters read = .ok () ↔
      (Cr0.pagingEnable.get (read .guestCr0) = 1 → unrestrictedGuest read = false →
        Cr0.protectionEnable.get (read .guestCr0) = 1) ∧
      (ia32eModeGuest read = true → Cr0.pagingEnable.get (read .guestCr0) = 1 ∧
        Cr4.physicalAddressExtension.get (read .guestCr4) = 1) ∧
      (EntryControls.loadIa32Efer.get (read .ctrlVmentryControls) = 1 →
        checkEfer read = .ok ()) ∧
      EntryControls.loadIa32PerfGlobalCtrl.get (read .ctrlVmentryControls) = 0 ∧
      EntryControls.loadIa32Bndcfgs.get (read .ctrlVmentryControls) = 0 ∧
      EntryControls.loadIa32RtitCtl.get (read .ctrlVmentryControls) = 0 ∧
      EntryControls.loadCetState.get (read .ctrlVmentryControls) = 0 := by
  have hpaging : Cr0.pagingEnable.get (read .guestCr0) = 1 ↔
      Cr0.pagingEnable.test (read .guestCr0) = true := Field.get_eq_one_iff rfl
  have hpae : Cr4.physicalAddressExtension.get (read .guestCr4) = 1 ↔
      Cr4.physicalAddressExtension.test (read .guestCr4) = true :=
    Field.get_eq_one_iff rfl
  have hefer : EntryControls.loadIa32Efer.get (read .ctrlVmentryControls) = 1 ↔
      EntryControls.loadIa32Efer.test (read .ctrlVmentryControls) = true :=
    Field.get_eq_one_iff rfl
  rw [hpaging, hpae, hefer]
  simp only [checkControlRegisters, all_eq_ok, List.forall_mem_cons, List.not_mem_nil,
    onlyIf_eq_ok, andThen_eq_ok, check_eq_ok, Bool.and_eq_true, Bool.not_eq_true', beq_iff_eq,
    and_imp]
  constructor
  · rintro ⟨hpe, hperf, hia, hload, hbnd, hrtit, hcet, -⟩
    exact ⟨hpe, hia, hload, hperf, hbnd, hrtit, hcet⟩
  · rintro ⟨hpe, hia, hload, hperf, hbnd, hrtit, hcet⟩
    exact ⟨hpe, hperf, hia, hload, hbnd, hrtit, hcet, fun x hx ↦ hx.elim⟩

theorem checkRflags_eq_ok :
    checkRflags read = .ok () ↔
      Rflags.reserved1.get (read .guestRflags) = 0 ∧
      Rflags.reserved2.get (read .guestRflags) = 0 ∧
      Rflags.reserved3.get (read .guestRflags) = 0 ∧
      Rflags.reserved4.get (read .guestRflags) = 0 ∧
      Rflags.readAs1.get (read .guestRflags) = 1 := by
  have hone : Rflags.readAs1.get (read .guestRflags) = 1 ↔
      Rflags.readAs1.test (read .guestRflags) = true := Field.get_eq_one_iff rfl
  rw [hone]
  simp [checkRflags, and_assoc]

/-- The interruptibility state, which has 32 bits. -/
def interruptibility (read : VmcsField → BitVec 64) : BitVec 32 :=
  (read .guestInterruptibilityState).setWidth 32

/-- The activity state, which has 32 bits. -/
def activity (read : VmcsField → BitVec 64) : BitVec 32 := (read .guestActivityState).setWidth 32

theorem checkActivity_eq_ok :
    checkActivity read = .ok () ↔
      (activity read = vmxActive ∨ activity read = vmxHlt ∨ activity read = vmxShutdown ∨
        activity read = vmxWaitForSipi) ∧
      (AccessRights.descriptorPrivilegeLevel.get (accessRights read .ss) ≠ 0 →
        activity read ≠ vmxHlt) ∧
      (Interruptibility.blockingBySti.get (interruptibility read) = 1 ∨
          Interruptibility.blockingByMovSs.get (interruptibility read) = 1 →
        activity read ≠ vmxActive) ∧
      (Rflags.interruptEnableFlag.get (read .guestRflags) = 0 →
        Interruptibility.blockingBySti.get (interruptibility read) = 0) ∧
      (Interruptibility.enclaveInterruption.get (interruptibility read) = 1 →
        Interruptibility.blockingByMovSs.get (interruptibility read) = 0) := by
  have hmovSs : Interruptibility.blockingByMovSs.get (interruptibility read) = 1 ↔
      Interruptibility.blockingByMovSs.test (interruptibility read) = true :=
    Field.get_eq_one_iff rfl
  have henclave : Interruptibility.enclaveInterruption.get (interruptibility read) = 1 ↔
      Interruptibility.enclaveInterruption.test (interruptibility read) = true :=
    Field.get_eq_one_iff rfl
  rw [hmovSs, henclave]
  simp [checkActivity, interruptibility, activity, or_assoc]

/-- An active guest that blocks nothing passes. -/
theorem checkActivity_of_active
    (hactivity : (read .guestActivityState).setWidth 32 = vmxActive)
    (hinterruptibility : (read .guestInterruptibilityState).setWidth 32 = 0#32) :
    checkActivity read = .ok () := by
  have hblocking : ∀ f : Field, f.get (interruptibility read) = 0 := by
    intro f
    rw [interruptibility, hinterruptibility]
    exact f.get_zero
  have hactive : activity read = vmxActive := hactivity
  refine checkActivity_eq_ok.mpr ⟨.inl hactive, fun _ ↦ ?_, ?_, fun _ ↦ hblocking _,
    fun _ ↦ hblocking _⟩
  · rw [hactive]
    decide
  · rw [hblocking, hblocking]
    rintro (h | h)
    · exact absurd h (by decide)
    · exact absurd h (by decide)

/-- The check of the guest state is that of its parts. -/
theorem cpuVmxcheckGuest_eq_ok :
    cpuVmxcheckGuest read = .ok () ↔
      checkControlRegisters read = .ok () ∧ checkSystemSelectors read = .ok () ∧
      checkSegments read = .ok () ∧ checkTr read = .ok () ∧ checkRflags read = .ok () ∧
      checkActivity read = .ok () := by
  simp [cpuVmxcheckGuest]

theorem cpuVmxcheck_eq_true {p : VmxInstructions} {vmcs : Vmcs} :
    cpuVmxcheck p vmcs = true ↔ cpuVmxcheckGuest (cpuVmxread p vmcs) = .ok () := passed_eq_true

end guest

end Hypervi.Cpu
