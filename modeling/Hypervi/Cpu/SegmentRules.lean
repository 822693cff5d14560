import Hypervi.Cpu.Check

/-!
# The rules for guest segments

What a VM entry requires of the form of the guest's segment registers, as the SDM
states it (vol. 3C, "Checks on Guest Segment Registers"), for a guest whose
`RFLAGS.VM` is clear.  `segmentRules_of_cpuVmxcheck` is the soundness of
`cpu_vmxcheck` for these rules: no VMCS that breaks one of them passes, whatever its
other fields hold.  The checker does not look at `RFLAGS.VM`, and makes the same
checks of every guest.

The converse does not hold: the checker accepts fewer types in `CS` than a processor
does, and nothing but a guest in IA-32e mode.
-/

namespace Hypervi.Cpu

open Bits Ia32

/-- An accessed code segment. -/
def IsAccessedCode (type : BitVec 32) : Prop :=
  type = segmentDescriptorTypeCodeExecuteOnlyAccessed ∨
    type = segmentDescriptorTypeCodeExecuteReadAccessed ∨
    type = segmentDescriptorTypeCodeExecuteOnlyConformingAccessed ∨
    type = segmentDescriptorTypeCodeExecuteReadConformingAccessed

/-- An accessed code segment that runs at the privilege level of its descriptor. -/
def IsNonconformingCode (type : BitVec 32) : Prop :=
  type = segmentDescriptorTypeCodeExecuteOnlyAccessed ∨
    type = segmentDescriptorTypeCodeExecuteReadAccessed

/-- An accessed code segment that runs at the privilege level of its caller. -/
def IsConformingCode (type : BitVec 32) : Prop :=
  type = segmentDescriptorTypeCodeExecuteOnlyConformingAccessed ∨
    type = segmentDescriptorTypeCodeExecuteReadConformingAccessed

/-- An accessed data segment that can be written. -/
def IsWritableData (type : BitVec 32) : Prop :=
  type = segmentDescriptorTypeDataReadWriteAccessed ∨
    type = segmentDescriptorTypeDataReadWriteExpandDownAccessed

/-- The registers of data segments, the stack segment apart. -/
def dataRegisters : List SegmentRegister := [.ds, .es, .fs, .gs]

section rules

variable (read : VmcsField → BitVec 64) (s : SegmentRegister)

/-- The type of a segment. -/
def segType : BitVec 32 := AccessRights.type.get (accessRights read s)

/-- The privilege level of a segment's descriptor. -/
def segDpl : BitVec 32 := AccessRights.descriptorPrivilegeLevel.get (accessRights read s)

/-- The privilege level that a selector requests. -/
def segRpl : BitVec 32 :=
  (SegmentSelector.requestPrivilegeLevel.get (segSelector read s)).setWidth 32

/-- The register can be used for an access. -/
def Usable : Prop := AccessRights.unusable.get (accessRights read s) = 0

instance : Decidable (Usable read s) := inferInstanceAs (Decidable (_ = _))

/-- The rules for the form of the segment registers. -/
structure SegmentRules : Prop where
  csType : IsAccessedCode (segType read .cs) ∨
    (unrestrictedGuest read = true ∧
      segType read .cs = segmentDescriptorTypeDataReadWriteAccessed)
  ssType : Usable read .ss → IsWritableData (segType read .ss)
  /-- Accessed, and readable if it is code. -/
  dataType : ∀ s ∈ dataRegisters, Usable read s →
    (segType read s).getLsbD 0 = true ∧
      ((segType read s).getLsbD 3 = true → (segType read s).getLsbD 1 = true)
  csForm : CodeOrDataForm (accessRights read .cs)
  dataForm : ∀ s ∈ .ss :: dataRegisters, Usable read s → CodeOrDataForm (accessRights read s)
  csDpl : IsNonconformingCode (segType read .cs) → segDpl read .cs = segDpl read .ss
  csConformingDpl : IsConformingCode (segType read .cs) → segDpl read .cs ≤ segDpl read .ss
  csDefaultBig : ia32eModeGuest read = true → AccessRights.longMode.get (accessRights read .cs) = 1 →
    AccessRights.defaultBig.get (accessRights read .cs) = 0
  /-- For data and for code that does not conform. -/
  dataDpl : unrestrictedGuest read = false → ∀ s ∈ dataRegisters, Usable read s →
    segType read s ≤ 11 → segRpl read s ≤ segDpl read s
  ssDpl : unrestrictedGuest read = false → segDpl read .ss = segRpl read .ss
  trUsable : Usable read .tr
  trForm : AccessRights.present.get (accessRights read .tr) = 1 ∧
    AccessRights.descriptorType.get (accessRights read .tr) = 0 ∧
    AccessRights.reserved1.get (accessRights read .tr) = 0 ∧
    AccessRights.reserved2.get (accessRights read .tr) = 0
  trType : ia32eModeGuest read = true → segType read .tr = segmentDescriptorTypeTssBusy
  trTable : SegmentSelector.table.get (segSelector read .tr) = 0
  ldtrTable : Usable read .ldtr → SegmentSelector.table.get (segSelector read .ldtr) = 0

end rules

section sound

variable {read : VmcsField → BitVec 64}

/-- A data register is checked as the segment type of its name. -/
theorem exists_segmentType {s : SegmentRegister} (h : s ∈ dataRegisters) :
    ∃ seg : SegmentType, seg.register = s ∧ seg ≠ .cs ∧ seg ≠ .ss := by
  simp only [dataRegisters, List.mem_cons, List.not_mem_nil, or_false] at h
  rcases h with rfl | rfl | rfl | rfl
  exacts [⟨.ds, rfl, by decide, by decide⟩, ⟨.es, rfl, by decide, by decide⟩,
    ⟨.fs, rfl, by decide, by decide⟩, ⟨.gs, rfl, by decide, by decide⟩]

/-- What the check of `CS` establishes. -/
theorem cs_of_passes (h : SegmentPasses read .cs) :
    IsNonconformingCode (segType read .cs) ∧ segDpl read .cs = segDpl read .ss ∧
      CodeOrDataForm (accessRights read .cs) ∧
      (ia32eModeGuest read = true → AccessRights.longMode.get (accessRights read .cs) = 1 →
        AccessRights.defaultBig.get (accessRights read .cs) = 0) := by
  obtain ⟨htype, hdpl, hform, hbig⟩ := checkSegmentAccessRights_eq_ok.mp h
  obtain ⟨hcode, hlevel⟩ := checkCs_eq_ok.mp ⟨htype, hdpl⟩
  exact ⟨hcode, hlevel, (hform (.inl rfl)).1, hbig rfl⟩

/-- What the check of `SS` establishes. -/
theorem ss_of_passes (h : SegmentPasses read .ss) :
    (Usable read .ss → IsWritableData (segType read .ss) ∧
      CodeOrDataForm (accessRights read .ss)) ∧
    (unrestrictedGuest read = false → segDpl read .ss = segRpl read .ss) := by
  obtain ⟨htype, hdpl, hform, -⟩ := checkSegmentAccessRights_eq_ok.mp h
  exact ⟨fun hu ↦ ⟨checkArType_ss_eq_ok.mp htype hu, (hform (.inr hu)).1⟩,
    (checkArDpl_ss_eq_ok.mp hdpl).1⟩

/-- What the check of another segment establishes. -/
theorem data_of_passes {seg : SegmentType} (hcs : seg ≠ .cs) (hss : seg ≠ .ss)
    (h : SegmentPasses read seg) (hu : Usable read seg.register) :
    ((segType read seg.register).getLsbD 0 = true ∧
      ((segType read seg.register).getLsbD 3 = true →
        (segType read seg.register).getLsbD 1 = true)) ∧
    CodeOrDataForm (accessRights read seg.register) ∧
    (unrestrictedGuest read = false → segRpl read seg.register ≤ segDpl read seg.register) := by
  obtain ⟨htype, hdpl, hform, -⟩ := checkSegmentAccessRights_eq_ok.mp h
  have haccessed := (checkArType_data_eq_ok hcs hss).mp htype hu
  refine ⟨haccessed, (hform (.inr hu)).1, fun hunr ↦ ?_⟩
  -- the check is skipped for type 0 only, and that is not an accessed type
  have hne : segType read seg.register ≠ 0 := by
    intro hzero
    have hbit := haccessed.1
    rw [show AccessRights.type.get (accessRights read seg.register) = 0 from hzero] at hbit
    exact absurd hbit (by decide)
  exact (checkArDpl_data_eq_ok hcs hss).mp hdpl hunr hu hne

/-- A VMCS that `cpu_vmxcheck` accepts obeys the rules for guest segments. -/
theorem segmentRules_of_cpuVmxcheck (p : VmxInstructions) (vmcs : Vmcs)
    (h : cpuVmxcheck p vmcs = true) : SegmentRules (cpuVmxread p vmcs) := by
  obtain ⟨-, hsel, hseg, htr, -, -⟩ := cpuVmxcheckGuest_eq_ok.mp (cpuVmxcheck_eq_true.mp h)
  obtain ⟨htrTable, hldtrTable⟩ := checkSystemSelectors_eq_ok.mp hsel
  obtain ⟨hia, htrType, hs, hp, hres1, hres2, htrUsable, -⟩ := checkTr_eq_ok.mp htr
  rw [checkSegments_eq_ok] at hseg
  obtain ⟨hcode, hlevel, hcsForm, hbig⟩ := cs_of_passes (hseg .cs)
  obtain ⟨hss, hssDpl⟩ := ss_of_passes (hseg .ss)
  exact
    { csType := by
        rcases hcode with h | h
        · exact .inl (.inl h)
        · exact .inl (.inr (.inl h))
      ssType := fun hu ↦ (hss hu).1
      dataType := by
        intro s hs hu
        obtain ⟨seg, rfl, hcs, hss⟩ := exists_segmentType hs
        exact (data_of_passes hcs hss (hseg seg) hu).1
      csForm := hcsForm
      dataForm := by
        intro s hs hu
        rcases List.mem_cons.mp hs with rfl | hs
        · exact (hss hu).2
        · obtain ⟨seg, rfl, hcs, hss⟩ := exists_segmentType hs
          exact (data_of_passes hcs hss (hseg seg) hu).2.1
      csDpl := fun _ ↦ hlevel
      csConformingDpl := fun _ ↦ BitVec.le_of_eq hlevel
      csDefaultBig := hbig
      dataDpl := by
        intro hunr s hs hu _
        obtain ⟨seg, rfl, hcs, hss⟩ := exists_segmentType hs
        exact (data_of_passes hcs hss (hseg seg) hu).2.2 hunr
      ssDpl := hssDpl
      trUsable := htrUsable
      trForm := ⟨hp, hs, hres1, hres2⟩
      trType := fun _ ↦ htrType
      trTable := htrTable
      ldtrTable := hldtrTable }

end sound

/-- The VMCS of a guest in 64-bit mode with segments in `CS`, `SS` and `TR` only. -/
def longModeVmcs : Vmcs
  | .ctrlVmentryControls => 0x8200
  | .guestCr0 => 0x80000033
  | .guestCr4 => 0x2020
  | .guestEfer => 0xD01
  | .guestRflags => 0x2
  | .guestSelector .cs => 0x8
  | .guestSelector .ss => 0x10
  | .guestSelector .tr => 0x18
  | .guestLimit .cs => 0xFFFF
  | .guestLimit .ss => 0xFFFF
  | .guestLimit .tr => 0x67
  | .guestAccessRights .cs => 0xA09B
  | .guestAccessRights .ss => 0xC093
  | .guestAccessRights .tr => 0x8B
  | .guestAccessRights _ => 0x10000
  | _ => 0

/-- It is accepted, and obeys the rules. -/
theorem segmentRules_longModeVmcs :
    SegmentRules (cpuVmxread ⟨fun _ ↦ 0, fun _ ↦ 0⟩ longModeVmcs) :=
  segmentRules_of_cpuVmxcheck _ longModeVmcs (by decide +kernel)

end Hypervi.Cpu
