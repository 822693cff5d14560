import Hypervi.Cpu.ControlBits
import Hypervi.Cpu.SegmentRules

/-!
# What is captured passes the check

`cpu_init` captures the segments of the host through `lar`, `lsl` and the helpers of
`x86utils`, and `cpu_vmxcheck` tests the captured bits against rules that it states on
its own.  `cpuVmxcheck_writeVmcs` says that the two agree on the hosts the
hypervisor is meant for: 64-bit code in ring 0, flat or null data segments, a busy
task state segment and no LDT.

The limits are captured modulo 64 KiB, and the granularity bit whole.  The check of
the granularity still passes: a limit in pages ends in `0xFFF` whatever is cut off
above, and nothing is left in the bits that would require pages.
-/

namespace Hypervi.Cpu

open Bits Ia32 Freestanding

/-! ## The host -/

/-- 64-bit code of ring 0 that does not conform. -/
structure IsKernelCode (d : SegmentDescriptor32) : Prop where
  type : IsNonconformingCode (SegmentDescriptor32.type.get d.high)
  descriptorType : SegmentDescriptor32.descriptorType.get d.high = 1
  dpl : SegmentDescriptor32.descriptorPrivilegeLevel.get d.high = 0
  present : SegmentDescriptor32.present.get d.high = 1
  longMode : SegmentDescriptor32.longMode.get d.high = 1
  defaultBig : SegmentDescriptor32.defaultBig.get d.high = 0

/-- Writable data of ring 0. -/
structure IsKernelData (d : SegmentDescriptor32) : Prop where
  type : IsWritableData (SegmentDescriptor32.type.get d.high)
  descriptorType : SegmentDescriptor32.descriptorType.get d.high = 1
  dpl : SegmentDescriptor32.descriptorPrivilegeLevel.get d.high = 0
  present : SegmentDescriptor32.present.get d.high = 1

/-- A task state segment in use. -/
structure IsBusyTss (d : SegmentDescriptor32) : Prop where
  type : SegmentDescriptor32.type.get d.high = segmentDescriptorTypeTssBusy
  descriptorType : SegmentDescriptor32.descriptorType.get d.high = 0
  present : SegmentDescriptor32.present.get d.high = 1

/-- The segments of a host in ring 0, with their descriptors. -/
structure KernelSegments (h : Host) (d : SegmentRegister → SegmentDescriptor32) : Prop where
  /-- `lar` and `lsl` succeed for every selector that is not null. -/
  loads : ∀ s, isNull (h.selector s) = false → h.segments.Loads (h.selector s) (d s)
  csSelector : isNull (h.selector .cs) = false
  cs : IsKernelCode (d .cs)
  data : ∀ s ∈ .ss :: dataRegisters, h.selector s = 0 ∨
    (SegmentSelector.requestPrivilegeLevel.get (h.selector s) = 0 ∧ IsKernelData (d s))
  trSelector : isNull (h.selector .tr) = false
  trTable : SegmentSelector.table.get (h.selector .tr) = 0
  tr : IsBusyTss (d .tr)
  ldtr : h.selector .ldtr = 0

/-- The control registers, EFER and flags of a host in IA-32e mode. -/
structure LongModeRegisters (h : Host) : Prop where
  protectionEnable : Cr0.protectionEnable.get h.cr0 = 1
  pagingEnable : Cr0.pagingEnable.get h.cr0 = 1
  physicalAddressExtension : Cr4.physicalAddressExtension.get h.cr4 = 1
  ia32eModeActive : Efer.ia32eModeActive.get (h.msrs ia32Efer) = 1
  ia32eModeEnable : Efer.ia32eModeEnable.get (h.msrs ia32Efer) = 1
  eferReserved : Efer.reserved1.get (h.msrs ia32Efer) = 0 ∧
    Efer.reserved2.get (h.msrs ia32Efer) = 0 ∧ Efer.reserved3.get (h.msrs ia32Efer) = 0
  rflagsReserved : Rflags.reserved1.get h.rflags = 0 ∧ Rflags.reserved2.get h.rflags = 0 ∧
    Rflags.reserved3.get h.rflags = 0 ∧ Rflags.reserved4.get h.rflags = 0
  rflagsReadAs1 : Rflags.readAs1.get h.rflags = 1

/-- The processor lets `cpu_init` have the entry controls it asks for, and forces none
of those that the check refuses. -/
structure EntryControlsKept (msrs : Msrs) : Prop where
  ia32eModeGuest : EntryControls.ia32eModeGuest.get (vmentryCtls msrs) = 1
  loadIa32Efer : EntryControls.loadIa32Efer.get (vmentryCtls msrs) = 1
  loadIa32PerfGlobalCtrl : EntryControls.loadIa32PerfGlobalCtrl.get (vmentryCtls msrs) = 0
  loadIa32Bndcfgs : EntryControls.loadIa32Bndcfgs.get (vmentryCtls msrs) = 0
  loadIa32RtitCtl : EntryControls.loadIa32RtitCtl.get (vmentryCtls msrs) = 0
  loadCetState : EntryControls.loadCetState.get (vmentryCtls msrs) = 0

/-! ## One captured segment -/

section captured

variable {p : SegmentInstructions} {selector : BitVec 16} {d : SegmentDescriptor32}

/-- The rights of a present code or data segment have its form. -/
theorem codeOrDataForm_of_rights {ar : BitVec 32} (hr : RightsOf ar d)
    (hs : SegmentDescriptor32.descriptorType.get d.high = 1)
    (hpresent : SegmentDescriptor32.present.get d.high = 1) : CodeOrDataForm ar where
  descriptorType := hr.descriptorType.trans hs
  present := hr.present.trans hpresent
  reserved1 := hr.reserved1
  reserved2 := hr.reserved2

/-- The bits that would require a limit in pages are above the sixteen captured. -/
theorem setWidth_and_high (x : BitVec 16) : x.setWidth 32 &&& 0xfff00000#32 = 0 := by
  have hmask : ∀ i < 16, (0xfff00000#32).getLsbD i = false := by decide
  apply BitVec.eq_of_getLsbD_eq
  intro i _
  rw [BitVec.getLsbD_and, BitVec.getLsbD_setWidth]
  by_cases hi : i < 16
  · simp [hmask i hi]
  · simp [BitVec.getLsbD_of_ge x i (Nat.le_of_not_lt hi)]

/-- The lowest bit of a limit in pages is set. -/
theorem getElem_zero_expandedLimit (raw : BitVec 20) : (expandedLimit raw true)[0] = true := by
  rw [← BitVec.getLsbD_eq_getElem (by decide), BitVec.getLsbD, toNat_expandedLimit_pages,
    Nat.testBit_zero]
  simp
  omega

/-- The captured limit fits the captured granularity. -/
theorem granularityFits_captured (hnull : isNull selector = false) (hp : p.Loads selector d) :
    GranularityFits (getSegmentAccessRightsVmx p selector)
      ((getSegmentLimit p selector).setWidth 32) := by
  have hg := (rightsOf_getSegmentAccessRightsVmx hnull hp).granularity
  refine ⟨fun hlow ↦ ?_, fun hhigh ↦ absurd (setWidth_and_high _) hhigh⟩
  rw [hg, ← Field.test_eq_false_iff]
  cases htest : SegmentDescriptor32.granularity.test d.high with
  | false => rfl
  | true =>
      -- the lowest bit of the limit is one of the twelve that are clear
      have hlsl := hp.lsl
      rw [htest] at hlsl
      have hbit := congrArg (fun x ↦ x.getLsbD 0) hlow
      simp [getSegmentLimit, callLsl, hlsl, getElem_zero_expandedLimit] at hbit

end captured

/-! ## The captured guest -/

section guest

variable {p : VmxInstructions} {h : Host} {c : Core} {d : SegmentRegister → SegmentDescriptor32}

/-- The access rights that the check reads back. -/
theorem accessRights_writeVmcs (hp : p.Succeed) (vmcs : Vmcs) (s : SegmentRegister) :
    accessRights (cpuVmxread p (writeVmcs p h c vmcs)) s =
      getSegmentAccessRightsVmx h.segments (h.selector s) := by
  rw [accessRights, cpuVmxread_of_lookup hp (lookup_guestAccessRights h c s), segmentAccessRights,
    BitVec.setWidth_setWidth_of_le _ (by decide), BitVec.setWidth_eq]

/-- The limit that the check reads back. -/
theorem segLimit_writeVmcs (hp : p.Succeed) (vmcs : Vmcs) (s : SegmentRegister) :
    segLimit (cpuVmxread p (writeVmcs p h c vmcs)) s =
      (getSegmentLimit h.segments (h.selector s)).setWidth 32 := by
  rw [segLimit, cpuVmxread_of_lookup hp (lookup_guestLimit h c s), segmentLimit,
    BitVec.setWidth_setWidth_of_le _ (by decide)]

/-- The selector that the check reads back. -/
theorem segSelector_writeVmcs (hp : p.Succeed) (vmcs : Vmcs) (s : SegmentRegister) :
    segSelector (cpuVmxread p (writeVmcs p h c vmcs)) s = h.selector s := by
  rw [segSelector, cpuVmxread_of_lookup hp (lookup_guestSelector h c s),
    BitVec.setWidth_setWidth_of_le _ (by decide), BitVec.setWidth_eq]

/-- What is captured of a data segment: nothing is requested or required above ring 0,
and a usable one is writable, in its form, and of a fitting granularity. -/
theorem data_captured (hseg : KernelSegments h d) {s : SegmentRegister}
    (hs : s ∈ .ss :: dataRegisters) :
    SegmentSelector.requestPrivilegeLevel.get (h.selector s) = 0 ∧
    AccessRights.descriptorPrivilegeLevel.get
      (getSegmentAccessRightsVmx h.segments (h.selector s)) = 0 ∧
    (AccessRights.unusable.get (getSegmentAccessRightsVmx h.segments (h.selector s)) = 0 →
      IsWritableData
        (AccessRights.type.get (getSegmentAccessRightsVmx h.segments (h.selector s))) ∧
      CodeOrDataForm (getSegmentAccessRightsVmx h.segments (h.selector s)) ∧
      GranularityFits (getSegmentAccessRightsVmx h.segments (h.selector s))
        ((getSegmentLimit h.segments (h.selector s)).setWidth 32)) := by
  have hrpl : SegmentSelector.requestPrivilegeLevel.get (h.selector s) = 0 := by
    rcases hseg.data s hs with hzero | ⟨hrpl, -⟩
    · rw [hzero]
      rfl
    · exact hrpl
  cases hnull : isNull (h.selector s) with
  | true =>
      rw [getSegmentAccessRightsVmx_of_isNull hnull]
      exact ⟨hrpl, by decide, fun hu ↦ absurd hu (by decide)⟩
  | false =>
      have hloads := hseg.loads s hnull
      rcases hseg.data s hs with hzero | ⟨-, hdata⟩
      · rw [hzero] at hnull
        exact absurd hnull (by decide)
      · have hr := rightsOf_getSegmentAccessRightsVmx hnull hloads
        refine ⟨hrpl, hr.dpl.trans hdata.dpl, fun _ ↦ ⟨?_, ?_, ?_⟩⟩
        · rw [hr.type]
          exact hdata.type
        · exact codeOrDataForm_of_rights hr hdata.descriptorType hdata.present
        · exact granularityFits_captured hnull hloads

/-- The captured code segment passes. -/
theorem cs_passes (hp : p.Succeed) (hseg : KernelSegments h d) (vmcs : Vmcs) :
    SegmentPasses (cpuVmxread p (writeVmcs p h c vmcs)) .cs := by
  have hloads := hseg.loads .cs hseg.csSelector
  have hr := rightsOf_getSegmentAccessRightsVmx hseg.csSelector hloads
  obtain ⟨-, hssDpl, -⟩ := data_captured hseg (s := .ss) List.mem_cons_self
  rw [SegmentPasses, checkSegmentAccessRights_eq_ok, ← and_assoc, checkCs_eq_ok,
    SegmentType.register, accessRights_writeVmcs hp, accessRights_writeVmcs hp,
    segLimit_writeVmcs hp]
  refine ⟨⟨?_, ?_⟩, fun _ ↦ ⟨?_, ?_⟩, fun _ _ _ ↦ ?_⟩
  · rw [hr.type]
    exact hseg.cs.type
  · rw [hr.dpl, hseg.cs.dpl, hssDpl]
  · exact codeOrDataForm_of_rights hr hseg.cs.descriptorType hseg.cs.present
  · exact granularityFits_captured hseg.csSelector hloads
  · exact hr.defaultBig.trans hseg.cs.defaultBig

/-- The captured stack segment passes. -/
theorem ss_passes (hp : p.Succeed) (hseg : KernelSegments h d) (vmcs : Vmcs) :
    SegmentPasses (cpuVmxread p (writeVmcs p h c vmcs)) .ss := by
  obtain ⟨hrpl, hdpl, husable⟩ := data_captured hseg (s := .ss) List.mem_cons_self
  rw [SegmentPasses, checkSegmentAccessRights_eq_ok, checkArType_ss_eq_ok, checkArDpl_ss_eq_ok,
    SegmentType.register, accessRights_writeVmcs hp, segLimit_writeVmcs hp,
    segSelector_writeVmcs hp, hrpl, hdpl]
  refine ⟨fun hu ↦ (husable hu).1, ⟨fun _ ↦ rfl, fun _ ↦ rfl⟩, fun hu ↦ ?_, fun h ↦ ?_⟩
  · rcases hu with hcs | hu
    · exact absurd hcs (by decide)
    · exact (husable hu).2
  · exact absurd h (by decide)

/-- The other captured data segments pass. -/
theorem data_passes (hp : p.Succeed) (hseg : KernelSegments h d) (vmcs : Vmcs) {seg : SegmentType}
    (hcs : seg ≠ .cs) (hss : seg ≠ .ss) (hs : seg.register ∈ dataRegisters) :
    SegmentPasses (cpuVmxread p (writeVmcs p h c vmcs)) seg := by
  obtain ⟨hrpl, hdpl, husable⟩ := data_captured hseg (List.mem_cons_of_mem .ss hs)
  rw [SegmentPasses, checkSegmentAccessRights_eq_ok, checkArType_data_eq_ok hcs hss,
    checkArDpl_data_eq_ok hcs hss, accessRights_writeVmcs hp, segLimit_writeVmcs hp,
    segSelector_writeVmcs hp, hrpl, hdpl]
  refine ⟨fun hu ↦ ?_, fun _ _ _ ↦ by decide, fun hu ↦ ?_, fun h ↦ absurd h hcs⟩
  · rcases (husable hu).1 with htype | htype
    · rw [htype]
      decide
    · rw [htype]
      decide
  · rcases hu with h | hu
    · exact absurd h hcs
    · exact (husable hu).2

/-- All captured segments pass. -/
theorem segments_pass (hp : p.Succeed) (hseg : KernelSegments h d) (vmcs : Vmcs) :
    checkSegments (cpuVmxread p (writeVmcs p h c vmcs)) = .ok () := by
  rw [checkSegments_eq_ok]
  intro seg
  cases seg with
  | cs => exact cs_passes hp hseg vmcs
  | ss => exact ss_passes hp hseg vmcs
  | ds => exact data_passes hp hseg vmcs (by decide) (by decide) (by decide)
  | es => exact data_passes hp hseg vmcs (by decide) (by decide) (by decide)
  | fs => exact data_passes hp hseg vmcs (by decide) (by decide) (by decide)
  | gs => exact data_passes hp hseg vmcs (by decide) (by decide) (by decide)

/-- The selectors of `TR` and of the null `LDTR` pass. -/
theorem systemSelectors_pass (hp : p.Succeed) (hseg : KernelSegments h d) (vmcs : Vmcs) :
    checkSystemSelectors (cpuVmxread p (writeVmcs p h c vmcs)) = .ok () := by
  rw [checkSystemSelectors_eq_ok, segSelector_writeVmcs hp, segSelector_writeVmcs hp, hseg.trTable,
    hseg.ldtr]
  exact ⟨rfl, fun _ ↦ by decide⟩

theorem read_vmentryCtls (hp : p.Succeed) (vmcs : Vmcs) :
    cpuVmxread p (writeVmcs p h c vmcs) .ctrlVmentryControls = vmentryCtls h.msrs :=
  cpuVmxread_of_lookup hp rfl vmcs

theorem ia32eModeGuest_writeVmcs (hp : p.Succeed) (hentry : EntryControlsKept h.msrs)
    (vmcs : Vmcs) : ia32eModeGuest (cpuVmxread p (writeVmcs p h c vmcs)) = true := by
  rw [ia32eModeGuest, read_vmentryCtls hp, ← Field.get_eq_one_iff rfl]
  exact hentry.ia32eModeGuest

/-- The captured task state segment passes. -/
theorem tr_passes (hp : p.Succeed) (hseg : KernelSegments h d) (hentry : EntryControlsKept h.msrs)
    (vmcs : Vmcs) : checkTr (cpuVmxread p (writeVmcs p h c vmcs)) = .ok () := by
  have hloads := hseg.loads .tr hseg.trSelector
  have hr := rightsOf_getSegmentAccessRightsVmx hseg.trSelector hloads
  rw [checkTr_eq_ok, accessRights_writeVmcs hp, segLimit_writeVmcs hp]
  exact ⟨ia32eModeGuest_writeVmcs hp hentry vmcs, hr.type.trans hseg.tr.type,
    hr.descriptorType.trans hseg.tr.descriptorType, hr.present.trans hseg.tr.present,
    hr.reserved1, hr.reserved2, hr.unusable, granularityFits_captured hseg.trSelector hloads⟩

/-- The captured EFER passes. -/
theorem efer_passes (hp : p.Succeed) (hreg : LongModeRegisters h)
    (hentry : EntryControlsKept h.msrs) (vmcs : Vmcs) :
    checkEfer (cpuVmxread p (writeVmcs p h c vmcs)) = .ok () := by
  have hefer : cpuVmxread p (writeVmcs p h c vmcs) .guestEfer = h.msrs ia32Efer :=
    cpuVmxread_of_lookup hp rfl vmcs
  obtain ⟨hres1, hres2, hres3⟩ := hreg.eferReserved
  rw [checkEfer_eq_ok, hefer, read_vmentryCtls hp, hreg.ia32eModeActive, hreg.ia32eModeEnable,
    hentry.ia32eModeGuest]
  exact ⟨hres1, hres2, hres3, rfl, fun _ ↦ rfl⟩

/-- The captured control registers pass. -/
theorem controlRegisters_pass (hp : p.Succeed) (hreg : LongModeRegisters h)
    (hentry : EntryControlsKept h.msrs) (vmcs : Vmcs) :
    checkControlRegisters (cpuVmxread p (writeVmcs p h c vmcs)) = .ok () := by
  have hcr0 : cpuVmxread p (writeVmcs p h c vmcs) .guestCr0 = h.cr0 :=
    cpuVmxread_of_lookup hp rfl vmcs
  have hcr4 : cpuVmxread p (writeVmcs p h c vmcs) .guestCr4 = h.cr4 :=
    cpuVmxread_of_lookup hp rfl vmcs
  rw [checkControlRegisters_eq_ok, hcr0, hcr4, read_vmentryCtls hp]
  exact ⟨fun _ _ ↦ hreg.protectionEnable,
    fun _ ↦ ⟨hreg.pagingEnable, hreg.physicalAddressExtension⟩,
    fun _ ↦ efer_passes hp hreg hentry vmcs, hentry.loadIa32PerfGlobalCtrl,
    hentry.loadIa32Bndcfgs, hentry.loadIa32RtitCtl, hentry.loadCetState⟩

/-- The captured flags pass. -/
theorem rflags_pass (hp : p.Succeed) (hreg : LongModeRegisters h) (vmcs : Vmcs) :
    checkRflags (cpuVmxread p (writeVmcs p h c vmcs)) = .ok () := by
  have hrflags : cpuVmxread p (writeVmcs p h c vmcs) .guestRflags = h.rflags :=
    cpuVmxread_of_lookup hp rfl vmcs
  obtain ⟨hres1, hres2, hres3, hres4⟩ := hreg.rflagsReserved
  rw [checkRflags_eq_ok, hrflags]
  exact ⟨hres1, hres2, hres3, hres4, hreg.rflagsReadAs1⟩

/-- The activity and interruptibility states, which nothing writes, pass when they are
zero. -/
theorem activity_passes (hp : p.Succeed) {vmcs : Vmcs} (hactivity : vmcs .guestActivityState = 0)
    (hinterruptibility : vmcs .guestInterruptibilityState = 0) :
    checkActivity (cpuVmxread p (writeVmcs p h c vmcs)) = .ok () := by
  have hnot : ∀ field, field = .guestActivityState ∨ field = .guestInterruptibilityState →
      field ∉ (vmcsWrites h c).map Prod.fst := by
    rintro field (rfl | rfl) <;>
      simp [vmcsWrites, hostStateWrites, controlWrites, guestStateWrites]
  apply checkActivity_of_active
  · rw [cpuVmxread_of_not_mem hp (hnot _ (.inl rfl)), hactivity]
    rfl
  · rw [cpuVmxread_of_not_mem hp (hnot _ (.inr rfl)), hinterruptibility]
    rfl

/-- The guest state as a whole. -/
theorem captured_passes (hp : p.Succeed) (hseg : KernelSegments h d) (hreg : LongModeRegisters h)
    (hentry : EntryControlsKept h.msrs) {vmcs : Vmcs} (hactivity : vmcs .guestActivityState = 0)
    (hinterruptibility : vmcs .guestInterruptibilityState = 0) :
    cpuVmxcheckGuest (cpuVmxread p (writeVmcs p h c vmcs)) = .ok () := by
  rw [cpuVmxcheckGuest_eq_ok]
  refine ⟨?_, ?_, ?_, ?_, ?_, ?_⟩
  · exact controlRegisters_pass hp hreg hentry vmcs
  · exact systemSelectors_pass hp hseg vmcs
  · exact segments_pass hp hseg vmcs
  · exact tr_passes hp hseg hentry vmcs
  · exact rflags_pass hp hreg vmcs
  · exact activity_passes hp hactivity hinterruptibility

/-- The guest state that `cpu_init` captures of a 64-bit host in ring 0 passes
`cpu_vmxcheck`, whatever the base, the limit and the other bits of the descriptors. -/
theorem cpuVmxcheck_writeVmcs (hp : p.Succeed) (hseg : KernelSegments h d)
    (hreg : LongModeRegisters h) (hentry : EntryControlsKept h.msrs) {vmcs : Vmcs}
    (hactivity : vmcs .guestActivityState = 0)
    (hinterruptibility : vmcs .guestInterruptibilityState = 0) :
    cpuVmxcheck p (writeVmcs p h c vmcs) = true := by
  rw [cpuVmxcheck_eq_true]
  exact captured_passes hp hseg hreg hentry hactivity hinterruptibility

/-! ### The host before its control registers are set -/

/-- The processor lets the control registers keep what makes the mode of the host. -/
structure ModeKept (msrs : Msrs) : Prop where
  protectionEnable : Cr0.protectionEnable.get (msrs ia32VmxCr0Fixed1) = 1
  pagingEnable : Cr0.pagingEnable.get (msrs ia32VmxCr0Fixed1) = 1
  physicalAddressExtension : Cr4.physicalAddressExtension.get (msrs ia32VmxCr4Fixed1) = 1

/-- Nothing but the control registers is set. -/
theorem KernelSegments.setControlRegisters (hseg : KernelSegments h d) :
    KernelSegments (setControlRegisters h) d where
  loads := hseg.loads
  csSelector := hseg.csSelector
  cs := hseg.cs
  data := hseg.data
  trSelector := hseg.trSelector
  trTable := hseg.trTable
  tr := hseg.tr
  ldtr := hseg.ldtr

theorem LongModeRegisters.setControlRegisters (hreg : LongModeRegisters h)
    (hkept : ModeKept h.msrs) : LongModeRegisters (setControlRegisters h) where
  protectionEnable := get_cpuAlterControlRegister h.msrs rfl (by decide) hreg.protectionEnable
    hkept.protectionEnable
  pagingEnable := get_cpuAlterControlRegister h.msrs rfl (by decide) hreg.pagingEnable
    hkept.pagingEnable
  physicalAddressExtension := by
    refine get_cpuAlterControlRegister h.msrs rfl (by decide) ?_ hkept.physicalAddressExtension
    rw [Field.get_set_of_disjoint (by decide)]
    exact hreg.physicalAddressExtension
  ia32eModeActive := hreg.ia32eModeActive
  ia32eModeEnable := hreg.ia32eModeEnable
  eferReserved := hreg.eferReserved
  rflagsReserved := hreg.rflagsReserved
  rflagsReadAs1 := hreg.rflagsReadAs1

/-- The VMCS of `cpu_init` passes, which adjusts the control registers before it captures
them. -/
theorem cpuVmxcheck_cpuInitVmcs (hp : p.Succeed) (hseg : KernelSegments h d)
    (hreg : LongModeRegisters h) (hkept : ModeKept h.msrs) (hentry : EntryControlsKept h.msrs)
    {vmcs : Vmcs} (hactivity : vmcs .guestActivityState = 0)
    (hinterruptibility : vmcs .guestInterruptibilityState = 0) :
    cpuVmxcheck p (cpuInitVmcs p h c vmcs) = true := by
  rw [cpuVmxcheck_eq_true]
  exact captured_passes hp hseg.setControlRegisters (hreg.setControlRegisters hkept) hentry
    hactivity hinterruptibility

end guest

/-! ### A host -/

/-- The descriptors of a host with a flat code segment, a flat stack segment and a task
state segment. -/
def longModeDescriptors : SegmentRegister → SegmentDescriptor32
  | .cs => ⟨0x0000FFFF, 0x00AF9B00⟩
  | .tr => ⟨0x00000067, 0x00008B00⟩
  | _ => ⟨0x0000FFFF, 0x00CF9300⟩

/-- A host that runs with them; its `lar` leaves the limit in the undefined bits. -/
def longModeHost : Host where
  cr0 := 0x80000033
  cr3 := 0x1000
  cr4 := 0x2020
  rflags := 0x2
  selector
    | .cs => 0x8
    | .ss => 0x10
    | .tr => 0x18
    | _ => 0
  gdtr := ⟨0x27, 0⟩
  idtr := ⟨0xFFF, 0⟩
  msrs := fun msr ↦
    if msr = ia32Efer then 0xD01
    else if msr = ia32VmxEntryCtls then 0xFFFF000011FB
    else 0
  segments :=
    { lar := fun selector ↦
        if selector = 0x8 then some 0xAF9B00
        else if selector = 0x10 then some 0xCF9300
        else if selector = 0x18 then some 0x8B00
        else none
      lsl := fun selector ↦
        if selector = 0x18 then some 0x67
        else if selector = 0 then none
        else some 0xFFFFFFFF
      rax := fun _ ↦ 0 }
  mem := fun _ ↦ 0

/-- The segments of the host. -/
theorem kernelSegments_longModeHost : KernelSegments longModeHost longModeDescriptors where
  loads := by
    intro s hs
    cases s with
    | cs => exact ⟨⟨0xF, by decide⟩, by decide⟩
    | ss => exact ⟨⟨0xF, by decide⟩, by decide⟩
    | tr => exact ⟨⟨0, by decide⟩, by decide⟩
    | _ => exact absurd hs (by decide)
  csSelector := by decide
  cs := ⟨.inr (by decide), by decide, by decide, by decide, by decide, by decide⟩
  data := by
    intro s hs
    cases s with
    | ss => exact .inr ⟨by decide, .inl (by decide), by decide, by decide, by decide⟩
    | cs | tr => exact absurd hs (by decide)
    | _ => exact .inl rfl
  trSelector := by decide
  trTable := by decide
  tr := ⟨by decide, by decide, by decide⟩
  ldtr := by decide

/-- What is captured of the host passes. -/
theorem cpuVmxcheck_longModeHost :
    cpuVmxcheck ⟨fun _ ↦ 0, fun _ ↦ 0⟩
      (writeVmcs ⟨fun _ ↦ 0, fun _ ↦ 0⟩ longModeHost ⟨0, 0, 0, 0, 0⟩ fun _ ↦ 0) = true :=
  cpuVmxcheck_writeVmcs (fun _ ↦ ⟨rfl, rfl⟩) kernelSegments_longModeHost
    ⟨by decide, by decide, by decide, by decide, by decide, by decide, by decide, by decide⟩
    ⟨by decide, by decide, by decide, by decide, by decide, by decide⟩ rfl rfl

end Hypervi.Cpu
