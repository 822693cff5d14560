import Hypervi.Cpu.Capture
import Hypervi.Cpu.ControlBits
import Hypervi.Cpu.LaunchGuard
import Hypervi.Loader.Gdt

/-!
# The host state area

`cpu_vmxcheck` looks at the guest state only.  A VM entry checks the host state as well (SDM
vol. 3C, "Checks on Host Control Registers, MSRs, and SSP", "Checks on Host Segment and
Descriptor-Table Registers" and "Checks Related to Address-Space Size"), and nothing in the
sources does.

`hostChecks_iff` says what those checks come to, for the VMCS that `cpu_init` writes on a host
in 64-bit mode: the running host passes most of them by running, and what is left is the task
register, the FIXED MSRs, a control that the processor may refuse, and controls that it may
force, for which the fields are those that the VMCS had before.
`hostChecks_of_efiGdtInit` is for the host that the loader hands over, whose task register
`efi_gdt_init` has loaded.
-/

namespace Hypervi.Cpu

open Bits Ia32 Memory Freestanding Loader Store

/-! ## The checks -/

/-- Bits 63 to 47 are equal. -/
def Canonical (a : BitVec 64) : Prop := (a.setWidth 48).signExtend 64 = a

instance (a : BitVec 64) : Decidable (Canonical a) := inferInstanceAs (Decidable (_ = _))

/-- The FIXED MSRs allow the value of a control register. -/
def Supported (msrs : Msrs) (fixed0 fixed1 : BitVec 32) (value : BitVec 64) : Prop :=
  msrs fixed0 &&& value = msrs fixed0 ∧ value &&& msrs fixed1 = value

/-- The rules for the EFER of the host, when a VM exit loads it. -/
structure HostEferRules (vmcs : Vmcs) : Prop where
  reserved : Efer.reserved1.get (vmcs .hostEfer) = 0 ∧ Efer.reserved2.get (vmcs .hostEfer) = 0 ∧
    Efer.reserved3.get (vmcs .hostEfer) = 0
  active : Efer.ia32eModeActive.get (vmcs .hostEfer) =
    ExitControls.hostAddressSpaceSize.get (vmcs .ctrlVmexitControls)
  enable : Efer.ia32eModeEnable.get (vmcs .hostEfer) =
    ExitControls.hostAddressSpaceSize.get (vmcs .ctrlVmexitControls)

/-- The bits that are reserved in the MSRs whose layout depends on the processor. -/
structure ReservedBits where
  perfGlobalCtrl : BitVec 64
  sCet : BitVec 64

/-- Every byte of the PAT is a memory type. -/
def ValidPat (pat : BitVec 64) : Prop :=
  ∀ i < 8, pat.extractLsb' (8 * i) 8 ∈ [(0 : BitVec 8), 1, 4, 5, 6, 7]

/-- The rules for the shadow stack of the host, when a VM exit loads it. -/
structure HostCetRules (reserved : ReservedBits) (vmcs : Vmcs) : Prop where
  reserved : vmcs .hostSCet &&& reserved.sCet = 0
  suppress : ¬ ((vmcs .hostSCet).getLsbD 10 = true ∧ (vmcs .hostSCet).getLsbD 11 = true)
  aligned : 4 ∣ (vmcs .hostSsp).toNat
  canonical : ∀ field ∈ [VmcsField.hostSCet, .hostSsp, .hostInterruptSspTableAddr],
    Canonical (vmcs field)

/-- The rules for the fields that no source writes: a VM exit loads them when the control is
one. -/
structure LoadRules (reserved : ReservedBits) (control : Field → Prop) (vmcs : Vmcs) : Prop where
  perfGlobalCtrl : control ExitControls.loadIa32PerfGlobalCtrl →
    vmcs .hostPerfGlobalCtrl &&& reserved.perfGlobalCtrl = 0
  pat : control ExitControls.loadIa32Pat → ValidPat (vmcs .hostPat)
  cet : control ExitControls.loadCetState → HostCetRules reserved vmcs
  pkrs : control ExitControls.loadIa32Pkrs → (vmcs .hostPkrs).toNat < 2 ^ 32

/-- The checks on the host state of a processor in IA-32e mode, with physical addresses of
`width` bits.  The secondary VM-exit controls are left out. -/
structure HostChecks (msrs : Msrs) (reserved : ReservedBits) (width : Nat) (vmcs : Vmcs) :
    Prop where
  cr0 : Supported msrs ia32VmxCr0Fixed0 ia32VmxCr0Fixed1 (vmcs .hostCr0)
  cr4 : Supported msrs ia32VmxCr4Fixed0 ia32VmxCr4Fixed1 (vmcs .hostCr4)
  writeProtect : Cr4.controlFlowEnforcementEnable.get (vmcs .hostCr4) = 1 →
    Cr0.writeProtect.get (vmcs .hostCr0) = 1
  cr3 : (vmcs .hostCr3).toNat < 2 ^ width
  sysenter : Canonical (vmcs .hostSysenterEsp) ∧ Canonical (vmcs .hostSysenterEip)
  efer : ExitControls.loadIa32Efer.get (vmcs .ctrlVmexitControls) = 1 → HostEferRules vmcs
  loaded : LoadRules reserved (fun f ↦ f.get (vmcs .ctrlVmexitControls) = 1) vmcs
  selectors : ∀ s, s ≠ .ldtr →
    SegmentSelector.requestPrivilegeLevel.get (vmcs (.hostSelector s)) = 0 ∧
      SegmentSelector.table.get (vmcs (.hostSelector s)) = 0
  cs : vmcs (.hostSelector .cs) ≠ 0
  tr : vmcs (.hostSelector .tr) ≠ 0
  bases : ∀ field ∈ [VmcsField.hostFsBase, .hostGsBase, .hostTrBase, .hostGdtrBase, .hostIdtrBase],
    Canonical (vmcs field)
  addressSpace : ExitControls.hostAddressSpaceSize.get (vmcs .ctrlVmexitControls) = 1
  pae : Cr4.physicalAddressExtension.get (vmcs .hostCr4) = 1
  rip : Canonical (vmcs .hostRip)

/-! ## The host -/

/-- What a host in 64-bit mode is known to have, by running: the processor refuses everything
else when it is loaded. -/
structure Runs (h : Host) (width : Nat) : Prop where
  cr3 : h.cr3.toNat < 2 ^ width
  pae : Cr4.physicalAddressExtension.get h.cr4 = 1
  active : Efer.ia32eModeActive.get (h.msrs ia32Efer) = 1
  enable : Efer.ia32eModeEnable.get (h.msrs ia32Efer) = 1
  eferReserved : Efer.reserved1.get (h.msrs ia32Efer) = 0 ∧
    Efer.reserved2.get (h.msrs ia32Efer) = 0 ∧ Efer.reserved3.get (h.msrs ia32Efer) = 0
  msrBases : ∀ id ∈ [ia32FsBase, ia32GsBase, ia32SysenterEsp, ia32SysenterEip],
    Canonical (h.msrs id)
  gdtr : Canonical h.gdtr.baseAddress
  idtr : Canonical h.idtr.baseAddress
  cs : SegmentSelector.index.get (h.selector .cs) ≠ 0
  /-- What must be one in a control register may be. -/
  within : h.msrs ia32VmxCr0Fixed0 &&& h.msrs ia32VmxCr0Fixed1 = h.msrs ia32VmxCr0Fixed0 ∧
    h.msrs ia32VmxCr4Fixed0 &&& h.msrs ia32VmxCr4Fixed1 = h.msrs ia32VmxCr4Fixed0

/-- What running does not tell.  `vmcs` is the VMCS before `cpu_init` writes to it. -/
structure Enterable (reserved : ReservedBits) (h : Host) (c : Core) (vmcs : Vmcs) : Prop where
  fixed0 : (h.msrs ia32VmxCr0Fixed0).toNat < 2 ^ 32 ∧ (h.msrs ia32VmxCr4Fixed0).toNat < 2 ^ 32
  pae : (h.msrs ia32VmxCr4Fixed1).getLsbD 5 = true
  /-- The FIXED MSRs do not separate `CR4.CET` from `CR0.WP`. -/
  writeProtect : SetAfter h.msrs h.cr4 ia32VmxCr4Fixed0 ia32VmxCr4Fixed1
      Cr4.controlFlowEnforcementEnable →
    SetAfter h.msrs h.cr0 ia32VmxCr0Fixed0 ia32VmxCr0Fixed1 Cr0.writeProtect
  addressSpace : Offers h.msrs (controlsMsr h.msrs ia32VmxTrueExitCtls ia32VmxExitCtls)
    ExitControls.hostAddressSpaceSize
  forced : LoadRules reserved
    (Forces h.msrs (controlsMsr h.msrs ia32VmxTrueExitCtls ia32VmxExitCtls)) vmcs
  tr : SegmentSelector.index.get (h.selector .tr) ≠ 0
  trBase : Canonical (segmentBase h .tr)
  rip : Canonical c.hostHvEntrypoint

/-! ## The fields -/

section fields

variable {p : VmxInstructions} {h : Host} {c : Core} {reserved : ReservedBits} {width : Nat}

/-- The adjusted register is allowed when nothing above its low half has to be one. -/
theorem supported_cpuAlterControlRegister_iff {msrs : Msrs} {fixed0 fixed1 : BitVec 32}
    (hwithin : msrs fixed0 &&& msrs fixed1 = msrs fixed0) (original : BitVec 64) :
    Supported msrs fixed0 fixed1 (cpuAlterControlRegister msrs original fixed0 fixed1) ↔
      (msrs fixed0).toNat < 2 ^ 32 := by
  have hmay {i : Nat} (hi : (msrs fixed0).getLsbD i = true) : (msrs fixed1).getLsbD i = true := by
    have hbit := congrArg (·.getLsbD i) hwithin
    simp only [BitVec.getLsbD_and, hi, Bool.true_and] at hbit
    exact hbit
  rw [cpuAlterControlRegister_eq, Supported]
  constructor
  · rintro ⟨hmust, -⟩
    have hlt : ((((original &&& msrs fixed1) ||| msrs fixed0).setWidth 32).setWidth 64).toNat <
        2 ^ 32 := by
      rw [BitVec.toNat_setWidth, BitVec.toNat_setWidth]
      exact Nat.lt_of_le_of_lt (Nat.mod_le _ _) (Nat.mod_lt _ (by decide))
    rw [← hmust, BitVec.toNat_and]
    exact Nat.lt_of_le_of_lt Nat.and_le_right hlt
  · intro hlt
    have hhigh {i : Nat} (hi : 32 ≤ i) : (msrs fixed0).getLsbD i = false := by
      rw [BitVec.getLsbD]
      exact Nat.testBit_lt_two_pow (Nat.lt_of_lt_of_le hlt (Nat.pow_le_pow_right (by decide) hi))
    constructor <;> apply BitVec.eq_of_getLsbD_eq <;> intro i hi <;>
      simp only [BitVec.getLsbD_and, BitVec.getLsbD_or, BitVec.getLsbD_setWidth, hi]
    · by_cases h32 : i < 32
      · cases (msrs fixed0).getLsbD i <;> simp [h32]
      · simp [hhigh (Nat.not_lt.mp h32)]
    · cases hmust : (msrs fixed0).getLsbD i with
      | true => simp [hmay hmust]
      | false => cases (msrs fixed1).getLsbD i <;> simp

/-- `selector_mask` takes the three lowest bits away. -/
theorem getLsbD_maskedSelector (h : Host) (s : SegmentRegister) (i : Nat) :
    (maskedSelector h s).getLsbD i = (decide (3 ≤ i) && (h.selector s).getLsbD i) := by
  have hmask : ∀ i < 32, (~~~(0x7 : BitVec 32)).getLsbD i = decide (3 ≤ i) := by decide
  rw [maskedSelector]
  simp only [BitVec.getLsbD_setWidth, BitVec.getLsbD_and]
  by_cases hi : i < 16
  · rw [hmask i (by omega)]
    simp [show i < 32 by omega, show i < 64 by omega, Bool.and_comm]
  · simp [BitVec.getLsbD_of_ge (h.selector s) i (Nat.not_lt.mp hi)]

theorem maskedSelector_fields (h : Host) (s : SegmentRegister) :
    SegmentSelector.requestPrivilegeLevel.get (maskedSelector h s) = 0 ∧
      SegmentSelector.table.get (maskedSelector h s) = 0 := by
  have hlow {f : Field} (hf : f.off + f.len ≤ 3) : f.get (maskedSelector h s) = 0 := by
    apply BitVec.eq_of_getLsbD_eq
    intro i _
    rw [Field.getLsbD_get, getLsbD_maskedSelector]
    by_cases hi : i < f.len
    · simp [show ¬ 3 ≤ f.off + i by omega]
    · simp [hi]
  exact ⟨hlow (by decide), hlow (by decide)⟩

/-- The masked selector is zero exactly for an index of zero. -/
theorem maskedSelector_eq_zero_iff (h : Host) (s : SegmentRegister) :
    maskedSelector h s = 0 ↔ SegmentSelector.index.get (h.selector s) = 0 := by
  have hmasked (i : Nat) := getLsbD_maskedSelector h s i
  have hindex (i : Nat) := Field.getLsbD_get SegmentSelector.index (h.selector s) i
  constructor
  · intro hzero
    apply BitVec.eq_of_getLsbD_eq
    intro i _
    have hbit := hmasked (3 + i)
    rw [hzero] at hbit
    have hclear : (h.selector s).getLsbD (3 + i) = false := by simpa using hbit.symm
    rw [hindex]
    simp [SegmentSelector.index, hclear]
  · intro hzero
    apply BitVec.eq_of_getLsbD_eq
    intro i _
    rw [hmasked]
    by_cases hlow : 3 ≤ i
    · by_cases hi : i < 16
      · have hbit := hindex (i - 3)
        rw [hzero] at hbit
        simpa [SegmentSelector.index, hlow, show i - 3 < 13 by omega,
          show 3 + (i - 3) = i by omega] using hbit.symm
      · simp [BitVec.getLsbD_of_ge (h.selector s) i (Nat.not_lt.mp hi)]
    · simp [hlow]

/-! ## The VMCS -/

/-- The contents of a field that is written. -/
theorem cpuInitVmcs_of_lookup (hp : ∀ field, p.vmwrite field = 0) {field : VmcsField}
    {value : BitVec 64}
    (hlookup : (vmcsWrites (setControlRegisters h) c).lookup field = some value) (vmcs : Vmcs) :
    cpuInitVmcs p h c vmcs field = value :=
  applyWrites_of_lookup (vmcsWrites_nodup _ c) (beq_iff_eq.mpr (hp field)) hlookup

/-- `CR4.PAE` is kept when the processor allows it. -/
theorem pae_setControlRegisters (hrun : Runs h width) :
    Cr4.physicalAddressExtension.get (setControlRegisters h).cr4 = 1 ↔
      (h.msrs ia32VmxCr4Fixed1).getLsbD 5 = true := by
  have hset : (Cr4.vmxEnable.set h.cr4 1).getLsbD 5 = true := by
    have hpae := hrun.pae
    rw [Field.get_eq_one_iff rfl, Field.test_eq_getLsbD rfl] at hpae
    rw [Field.getLsbD_set _ _ _ (by decide), if_neg (by decide)]
    exact hpae
  have hwithin := congrArg (·.getLsbD 5) hrun.within.2
  simp only [BitVec.getLsbD_and] at hwithin
  have hcr4 : (setControlRegisters h).cr4 = cpuAlterControlRegister h.msrs
      (Cr4.vmxEnable.set h.cr4 1) ia32VmxCr4Fixed0 ia32VmxCr4Fixed1 := rfl
  rw [hcr4, get_cpuAlterControlRegister_iff _ rfl (by decide)]
  constructor
  · rintro (hmust | ⟨-, hmay⟩)
    · have hmust' : (h.msrs ia32VmxCr4Fixed0).getLsbD 5 = true := hmust
      rw [hmust', Bool.true_and] at hwithin
      exact hwithin
    · exact hmay
  · exact fun hmay ↦ .inr ⟨hset, hmay⟩

/-- What the adjustment leaves of `CR4.CET` and of `CR0.WP`. -/
theorem writeProtect_setControlRegisters (h : Host) :
    (Cr4.controlFlowEnforcementEnable.get (setControlRegisters h).cr4 = 1 →
        Cr0.writeProtect.get (setControlRegisters h).cr0 = 1) ↔
      (SetAfter h.msrs h.cr4 ia32VmxCr4Fixed0 ia32VmxCr4Fixed1 Cr4.controlFlowEnforcementEnable →
        SetAfter h.msrs h.cr0 ia32VmxCr0Fixed0 ia32VmxCr0Fixed1 Cr0.writeProtect) := by
  have hkept : (Cr4.vmxEnable.set h.cr4 1).getLsbD 23 = h.cr4.getLsbD 23 := by
    rw [Field.getLsbD_set _ _ _ (by decide), if_neg (by decide)]
  have hcet : Cr4.controlFlowEnforcementEnable.get (setControlRegisters h).cr4 = 1 ↔
      SetAfter h.msrs h.cr4 ia32VmxCr4Fixed0 ia32VmxCr4Fixed1
        Cr4.controlFlowEnforcementEnable := by
    have hafter := get_cpuAlterControlRegister_iff h.msrs
      (f := Cr4.controlFlowEnforcementEnable) rfl (by decide) (Cr4.vmxEnable.set h.cr4 1)
      ia32VmxCr4Fixed0 ia32VmxCr4Fixed1
    rw [SetAfter, show Cr4.controlFlowEnforcementEnable.off = 23 from rfl, hkept] at hafter
    exact hafter
  have hwp : Cr0.writeProtect.get (setControlRegisters h).cr0 = 1 ↔
      SetAfter h.msrs h.cr0 ia32VmxCr0Fixed0 ia32VmxCr0Fixed1 Cr0.writeProtect :=
    get_cpuAlterControlRegister_iff h.msrs rfl (by decide) h.cr0 _ _
  rw [hcet, hwp]

/-- The size of the address space is asked for and kept when the processor offers it. -/
theorem addressSpace_vmexitCtls (msrs : Msrs) :
    ExitControls.hostAddressSpaceSize.get (vmexitCtls msrs) = 1 ↔
      Offers msrs (controlsMsr msrs ia32VmxTrueExitCtls ia32VmxExitCtls)
        ExitControls.hostAddressSpaceSize :=
  get_cpuAlterVmxControlRegister rfl (by decide) (by decide) msrs _

/-- The rules look at the fields that no source writes, and at four of the exit controls. -/
theorem LoadRules.congr {control control' : Field → Prop} {vmcs vmcs' : Vmcs}
    (h : LoadRules reserved control vmcs)
    (hcontrol : ∀ f ∈ [ExitControls.loadIa32PerfGlobalCtrl, ExitControls.loadIa32Pat,
      ExitControls.loadCetState, ExitControls.loadIa32Pkrs], control' f → control f)
    (hfields : ∀ field ∈ [VmcsField.hostPerfGlobalCtrl, .hostPat, .hostSCet, .hostSsp,
      .hostInterruptSspTableAddr, .hostPkrs], vmcs' field = vmcs field) :
    LoadRules reserved control' vmcs' where
  perfGlobalCtrl hload := by
    rw [hfields .hostPerfGlobalCtrl (by decide)]
    exact h.perfGlobalCtrl (hcontrol _ (by decide) hload)
  pat hload := by
    rw [hfields .hostPat (by decide)]
    exact h.pat (hcontrol _ (by decide) hload)
  cet hload := by
    obtain ⟨hreserved, hsuppress, haligned, hcanonical⟩ :=
      h.cet (hcontrol _ (by decide) hload)
    have hsCet := hfields .hostSCet (by decide)
    refine ⟨?_, ?_, ?_, ?_⟩
    · rw [hsCet]
      exact hreserved
    · rw [hsCet]
      exact hsuppress
    · rw [hfields .hostSsp (by decide)]
      exact haligned
    · intro field hfield
      have hmem : field ∈ [VmcsField.hostPerfGlobalCtrl, .hostPat, .hostSCet, .hostSsp,
          .hostInterruptSspTableAddr, .hostPkrs] := by
        simp only [List.mem_cons, List.not_mem_nil, or_false] at hfield ⊢
        tauto
      rw [hfields field hmem]
      exact hcanonical field hfield
  pkrs hload := by
    rw [hfields .hostPkrs (by decide)]
    exact h.pkrs (hcontrol _ (by decide) hload)

/-- A field that is not written keeps its value. -/
theorem cpuInitVmcs_of_not_mem {field : VmcsField}
    (hfield : field ∉ (vmcsWrites (setControlRegisters h) c).map Prod.fst) (vmcs : Vmcs) :
    cpuInitVmcs p h c vmcs field = vmcs field :=
  applyWrites_of_not_mem hfield

/-- Nothing but the capability MSR sets these exit controls, and nothing writes the fields. -/
theorem loadRules_cpuInitVmcs (hp : ∀ field, p.vmwrite field = 0) (vmcs : Vmcs) :
    LoadRules reserved
        (fun f ↦ f.get (cpuInitVmcs p h c vmcs .ctrlVmexitControls) = 1)
        (cpuInitVmcs p h c vmcs) ↔
      LoadRules reserved
        (Forces h.msrs (controlsMsr h.msrs ia32VmxTrueExitCtls ia32VmxExitCtls)) vmcs := by
  have hexit : cpuInitVmcs p h c vmcs .ctrlVmexitControls = vmexitCtls h.msrs :=
    cpuInitVmcs_of_lookup hp rfl vmcs
  have hcontrol : ∀ f ∈ [ExitControls.loadIa32PerfGlobalCtrl, ExitControls.loadIa32Pat,
      ExitControls.loadCetState, ExitControls.loadIa32Pkrs], f.get (vmexitCtls h.msrs) = 1 ↔
      Forces h.msrs (controlsMsr h.msrs ia32VmxTrueExitCtls ia32VmxExitCtls) f := by
    have hclear {f : Field} := get_cpuAlterVmxControlRegister_of_clear (f := f)
    simp only [List.forall_mem_cons, vmexitCtls]
    exact ⟨hclear rfl (by decide) (by decide) _ _, hclear rfl (by decide) (by decide) _ _,
      hclear rfl (by decide) (by decide) _ _, hclear rfl (by decide) (by decide) _ _,
      fun _ hnil ↦ absurd hnil List.not_mem_nil⟩
  have hfields : ∀ field ∈ [VmcsField.hostPerfGlobalCtrl, .hostPat, .hostSCet, .hostSsp,
      .hostInterruptSspTableAddr, .hostPkrs], cpuInitVmcs p h c vmcs field = vmcs field := by
    simp only [List.forall_mem_cons]
    refine ⟨?_, ?_, ?_, ?_, ?_, ?_, fun _ hnil ↦ absurd hnil List.not_mem_nil⟩ <;>
      exact cpuInitVmcs_of_not_mem (by simp [vmcsWrites, hostStateWrites, controlWrites,
        guestStateWrites]) vmcs
  rw [hexit]
  exact ⟨fun hrules ↦ hrules.congr (fun f hf ↦ (hcontrol f hf).mpr)
      fun field hfield ↦ (hfields field hfield).symm,
    fun hrules ↦ hrules.congr (fun f hf ↦ (hcontrol f hf).mp) hfields⟩

theorem hostSelector_cpuInitVmcs (hp : ∀ field, p.vmwrite field = 0) (vmcs : Vmcs)
    {s : SegmentRegister} (hs : s ≠ .ldtr) :
    cpuInitVmcs p h c vmcs (.hostSelector s) = maskedSelector h s := by
  cases s with
  | ldtr => exact absurd rfl hs
  | _ => exact cpuInitVmcs_of_lookup hp rfl vmcs

theorem supported_hostCr0 (hp : ∀ field, p.vmwrite field = 0) (hrun : Runs h width)
    (vmcs : Vmcs) :
    Supported h.msrs ia32VmxCr0Fixed0 ia32VmxCr0Fixed1 (cpuInitVmcs p h c vmcs .hostCr0) ↔
      (h.msrs ia32VmxCr0Fixed0).toNat < 2 ^ 32 := by
  rw [← supported_cpuAlterControlRegister_iff hrun.within.1 h.cr0]
  exact iff_of_eq (congrArg _ (cpuInitVmcs_of_lookup hp rfl vmcs))

theorem supported_hostCr4 (hp : ∀ field, p.vmwrite field = 0) (hrun : Runs h width)
    (vmcs : Vmcs) :
    Supported h.msrs ia32VmxCr4Fixed0 ia32VmxCr4Fixed1 (cpuInitVmcs p h c vmcs .hostCr4) ↔
      (h.msrs ia32VmxCr4Fixed0).toNat < 2 ^ 32 := by
  rw [← supported_cpuAlterControlRegister_iff hrun.within.2 (Cr4.vmxEnable.set h.cr4 1)]
  exact iff_of_eq (congrArg _ (cpuInitVmcs_of_lookup hp rfl vmcs))

/-- What the checks ask of the host beyond its running. -/
theorem enterable_of_hostChecks (hp : ∀ field, p.vmwrite field = 0) (hrun : Runs h width)
    {vmcs : Vmcs} (hchecks : HostChecks h.msrs reserved width (cpuInitVmcs p h c vmcs)) :
    Enterable reserved h c vmcs where
  fixed0 := ⟨(supported_hostCr0 hp hrun vmcs).mp hchecks.cr0,
    (supported_hostCr4 hp hrun vmcs).mp hchecks.cr4⟩
  pae := by
    have hcr4 : cpuInitVmcs p h c vmcs .hostCr4 = (setControlRegisters h).cr4 :=
      cpuInitVmcs_of_lookup hp rfl vmcs
    rw [← pae_setControlRegisters hrun, ← hcr4]
    exact hchecks.pae
  writeProtect := by
    have hcr0 : cpuInitVmcs p h c vmcs .hostCr0 = (setControlRegisters h).cr0 :=
      cpuInitVmcs_of_lookup hp rfl vmcs
    have hcr4 : cpuInitVmcs p h c vmcs .hostCr4 = (setControlRegisters h).cr4 :=
      cpuInitVmcs_of_lookup hp rfl vmcs
    rw [← writeProtect_setControlRegisters, ← hcr0, ← hcr4]
    exact hchecks.writeProtect
  forced := (loadRules_cpuInitVmcs hp vmcs).mp hchecks.loaded
  addressSpace := by
    have hexit : cpuInitVmcs p h c vmcs .ctrlVmexitControls = vmexitCtls h.msrs :=
      cpuInitVmcs_of_lookup hp rfl vmcs
    rw [← addressSpace_vmexitCtls, ← hexit]
    exact hchecks.addressSpace
  tr := by
    rw [Ne, ← maskedSelector_eq_zero_iff, ← hostSelector_cpuInitVmcs hp vmcs (by decide)]
    exact hchecks.tr
  trBase := by
    have htr : cpuInitVmcs p h c vmcs .hostTrBase = segmentBase h .tr :=
      cpuInitVmcs_of_lookup hp rfl vmcs
    rw [← htr]
    exact hchecks.bases .hostTrBase (by decide)
  rip := by
    have hrip : cpuInitVmcs p h c vmcs .hostRip = c.hostHvEntrypoint :=
      cpuInitVmcs_of_lookup hp rfl vmcs
    rw [← hrip]
    exact hchecks.rip

/-- Every check that `Enterable` does not mention is passed by running. -/
theorem hostChecks_of_enterable (hp : ∀ field, p.vmwrite field = 0) (hrun : Runs h width)
    {vmcs : Vmcs} (henter : Enterable reserved h c vmcs) :
    HostChecks h.msrs reserved width (cpuInitVmcs p h c vmcs) := by
  have hread {field : VmcsField} {value : BitVec 64}
      (hlookup : (vmcsWrites (setControlRegisters h) c).lookup field = some value) :=
    cpuInitVmcs_of_lookup hp hlookup vmcs
  have hspace := (addressSpace_vmexitCtls h.msrs).mpr henter.addressSpace
  have hefer : cpuInitVmcs p h c vmcs .hostEfer = h.msrs ia32Efer := hread rfl
  have hexit : cpuInitVmcs p h c vmcs .ctrlVmexitControls = vmexitCtls h.msrs := hread rfl
  refine
    { cr0 := (supported_hostCr0 hp hrun vmcs).mpr henter.fixed0.1
      cr4 := (supported_hostCr4 hp hrun vmcs).mpr henter.fixed0.2
      writeProtect := ?_
      cr3 := ?_
      sysenter := ⟨?_, ?_⟩
      efer := fun _ ↦ ⟨?_, ?_, ?_⟩
      loaded := (loadRules_cpuInitVmcs hp vmcs).mpr henter.forced
      selectors := fun s hs ↦ ?_
      cs := ?_
      tr := ?_
      bases := ?_
      addressSpace := ?_
      pae := ?_
      rip := ?_ }
  · rw [show cpuInitVmcs p h c vmcs .hostCr4 = (setControlRegisters h).cr4 from hread rfl,
      show cpuInitVmcs p h c vmcs .hostCr0 = (setControlRegisters h).cr0 from hread rfl,
      writeProtect_setControlRegisters]
    exact henter.writeProtect
  · rw [show cpuInitVmcs p h c vmcs .hostCr3 = h.cr3 from hread rfl]
    exact hrun.cr3
  · rw [show cpuInitVmcs p h c vmcs .hostSysenterEsp = h.msrs ia32SysenterEsp from hread rfl]
    exact hrun.msrBases _ (by decide)
  · rw [show cpuInitVmcs p h c vmcs .hostSysenterEip = h.msrs ia32SysenterEip from hread rfl]
    exact hrun.msrBases _ (by decide)
  · rw [hefer]
    exact hrun.eferReserved
  · rw [hefer, hexit, hspace]
    exact hrun.active
  · rw [hefer, hexit, hspace]
    exact hrun.enable
  · rw [hostSelector_cpuInitVmcs hp vmcs hs]
    exact maskedSelector_fields h s
  · rw [hostSelector_cpuInitVmcs hp vmcs (by decide), Ne, maskedSelector_eq_zero_iff]
    exact hrun.cs
  · rw [hostSelector_cpuInitVmcs hp vmcs (by decide), Ne, maskedSelector_eq_zero_iff]
    exact henter.tr
  · have hfs : cpuInitVmcs p h c vmcs .hostFsBase = h.msrs ia32FsBase := hread rfl
    have hgs : cpuInitVmcs p h c vmcs .hostGsBase = h.msrs ia32GsBase := hread rfl
    have htr : cpuInitVmcs p h c vmcs .hostTrBase = segmentBase h .tr := hread rfl
    have hgdtr : cpuInitVmcs p h c vmcs .hostGdtrBase = h.gdtr.baseAddress := hread rfl
    have hidtr : cpuInitVmcs p h c vmcs .hostIdtrBase = h.idtr.baseAddress := hread rfl
    simp only [List.forall_mem_cons, hfs, hgs, hgdtr, hidtr, htr]
    exact ⟨hrun.msrBases _ (by decide), hrun.msrBases _ (by decide), henter.trBase, hrun.gdtr,
      hrun.idtr, fun _ hnil ↦ absurd hnil List.not_mem_nil⟩
  · rw [hexit]
    exact hspace
  · rw [show cpuInitVmcs p h c vmcs .hostCr4 = (setControlRegisters h).cr4 from hread rfl,
      pae_setControlRegisters hrun]
    exact henter.pae
  · rw [show cpuInitVmcs p h c vmcs .hostRip = c.hostHvEntrypoint from hread rfl]
    exact henter.rip

/-- The VMCS that `cpu_init` writes on a host in 64-bit mode passes the checks of its host state
exactly when the host has a task register with a canonical base, nothing above the low half of
the control registers has to be one, `CR4.CET` is not left without `CR0.WP`, the processor
offers a host in 64-bit mode, with `PAE`, at a canonical address, and the fields of the controls
that it forces were legal before. -/
theorem hostChecks_iff (hp : ∀ field, p.vmwrite field = 0) (hrun : Runs h width) (vmcs : Vmcs) :
    HostChecks h.msrs reserved width (cpuInitVmcs p h c vmcs) ↔ Enterable reserved h c vmcs :=
  ⟨enterable_of_hostChecks hp hrun, hostChecks_of_enterable hp hrun⟩

end fields

/-- The host with a task state segment on a processor that asks for `PE`, `NE`, `PG` and `VMXE`
and offers everything else. -/
def enterableHost : Host :=
  { longModeHost with
    msrs := fun id ↦
      if id = ia32Efer then 0xD01
      else if id = ia32VmxCr0Fixed0 then 0x80000021
      else if id = ia32VmxCr4Fixed0 then 0x2000
      else if id = ia32VmxCr0Fixed1 ∨ id = ia32VmxCr4Fixed1 then 0xFFFFFFFF
      else if id = ia32VmxExitCtls then 0xFFFFFFFF00000000
      else 0 }

theorem runs_enterableHost : Runs enterableHost 39 where
  cr3 := by decide
  pae := by decide
  active := by decide
  enable := by decide
  eferReserved := by decide
  msrBases := by
    simp only [List.forall_mem_cons]
    exact ⟨by decide, by decide, by decide, by decide, fun _ hnil ↦ absurd hnil List.not_mem_nil⟩
  gdtr := by decide
  idtr := by decide
  cs := by decide
  within := by decide

/-- It forces no control. -/
theorem loadRules_enterableHost (reserved : ReservedBits) (vmcs : Vmcs) :
    LoadRules reserved (Forces enterableHost.msrs
      (controlsMsr enterableHost.msrs ia32VmxTrueExitCtls ia32VmxExitCtls)) vmcs where
  perfGlobalCtrl hload := absurd hload (by unfold Forces; decide)
  pat hload := absurd hload (by unfold Forces; decide)
  cet hload := absurd hload (by unfold Forces; decide)
  pkrs hload := absurd hload (by unfold Forces; decide)

theorem hostChecks_enterableHost :
    HostChecks enterableHost.msrs ⟨0, 0⟩ 39
      (cpuInitVmcs ⟨fun _ ↦ 0, fun _ ↦ 0⟩ enterableHost ⟨0, 0, 0x1000, 0, 0⟩ fun _ ↦ 0) :=
  (hostChecks_iff (fun _ ↦ rfl) runs_enterableHost fun _ ↦ 0).mpr
    { fixed0 := by decide
      pae := by decide
      writeProtect := fun hcet ↦ absurd hcet (by unfold SetAfter; decide)
      addressSpace := .inr (by decide)
      forced := loadRules_enterableHost ⟨0, 0⟩ fun _ ↦ 0
      tr := by decide
      trBase := by decide +kernel
      rip := by decide }

/-! ## The host of the loader -/

section loader

variable {p : VmxInstructions} {h : Host} {c : Core} {reserved : ReservedBits} {width : Nat}
  {gdtr : SegmentDescriptorRegister64} {newGdt newTss : BitVec 64}

/-- The low half of an address is canonical by itself. -/
theorem canonical_trBase (h : Canonical newTss) (fills : GdtFills) :
    Canonical (trBase newTss fills) := by
  have hlow : ∀ a : BitVec 64, Canonical ((a.setWidth 32).setWidth 64) := by
    intro a
    have ha := (a.setWidth 32).isLt
    have hmsb : (((a.setWidth 32).setWidth 64).setWidth 48).msb = false := by
      rw [BitVec.msb_eq_false_iff_two_mul_lt, BitVec.toNat_setWidth, BitVec.toNat_setWidth]
      omega
    rw [Canonical, BitVec.signExtend_eq_setWidth_of_msb_false hmsb]
    apply BitVec.eq_of_toNat_eq
    simp only [BitVec.toNat_setWidth]
    omega
  rw [trBase]
  split
  · exact h
  · exact hlow newTss

/-- A task register that was never loaded, as firmware leaves it, is refused. -/
theorem not_hostChecks_of_tr_zero (hp : ∀ field, p.vmwrite field = 0) (hrun : Runs h width)
    (htr : h.selector .tr = 0) (vmcs : Vmcs) :
    ¬ HostChecks h.msrs reserved width (cpuInitVmcs p h c vmcs) := by
  intro hchecks
  have htask := (enterable_of_hostChecks hp hrun hchecks).tr
  rw [htr] at htask
  exact htask (Field.get_zero _)

/-- The task register that `efi_gdt_init` loads is accepted, wherever the segment is and
whatever the descriptor was filled with. -/
theorem hostChecks_of_efiGdtInit (hp : ∀ field, p.vmwrite field = 0) (hrun : Runs h width)
    (mem : Mem) (fills : GdtFills) (hdvd : 8 ∣ gdtr.limit.toNat + 1) (hmin : 7 ≤ gdtr.limit.toNat)
    (hmax : gdtr.limit.toNat + 16 ≤ 0xFFFF)
    (hapart : Apart newTss tssSize newGdt (newGdtSize gdtr)) (hcanonical : Canonical newTss)
    (hgdtr : h.gdtr = newGdtr gdtr newGdt) (htr : h.selector .tr = trSelector gdtr)
    (hmem : h.mem = ltr (efiGdtInit gdtr mem newGdt newTss fills) (tssDescriptor gdtr newGdt))
    (vmcs : Vmcs) :
    HostChecks h.msrs reserved width (cpuInitVmcs p h c vmcs) ↔
      ((h.msrs ia32VmxCr0Fixed0).toNat < 2 ^ 32 ∧ (h.msrs ia32VmxCr4Fixed0).toNat < 2 ^ 32) ∧
      (h.msrs ia32VmxCr4Fixed1).getLsbD 5 = true ∧
      (SetAfter h.msrs h.cr4 ia32VmxCr4Fixed0 ia32VmxCr4Fixed1 Cr4.controlFlowEnforcementEnable →
        SetAfter h.msrs h.cr0 ia32VmxCr0Fixed0 ia32VmxCr0Fixed1 Cr0.writeProtect) ∧
      Offers h.msrs (controlsMsr h.msrs ia32VmxTrueExitCtls ia32VmxExitCtls)
        ExitControls.hostAddressSpaceSize ∧
      LoadRules reserved
        (Forces h.msrs (controlsMsr h.msrs ia32VmxTrueExitCtls ia32VmxExitCtls)) vmcs ∧
      Canonical c.hostHvEntrypoint := by
  have hbase : segmentBase h .tr = trBase newTss fills := by
    obtain ⟨hlookup, -⟩ := lookup_trBase mem fills hdvd hmin hmax hapart hgdtr htr hmem c
    exact Option.some.inj hlookup
  have hindex : SegmentSelector.index.get (h.selector .tr) ≠ 0 := by
    intro hzero
    have hnat := toNat_index_trSelector hmax
    rw [← htr, hzero] at hnat
    have hzeroNat : (0 : BitVec 16).toNat = 0 := rfl
    omega
  constructor
  · intro hchecks
    obtain ⟨hfixed0, hpae, hcet, hspace, hforced, -, -, hrip⟩ :=
      enterable_of_hostChecks hp hrun hchecks
    exact ⟨hfixed0, hpae, hcet, hspace, hforced, hrip⟩
  · rintro ⟨hfixed0, hpae, hcet, hspace, hforced, hrip⟩
    have htrBase : Canonical (segmentBase h .tr) := hbase ▸ canonical_trBase hcanonical fills
    exact hostChecks_of_enterable hp hrun
      ⟨hfixed0, hpae, hcet, hspace, hforced, hindex, htrBase, hrip⟩

end loader

/-- The same host with the GDT of the loader, of six entries and the task state segment. -/
def loaderHost : Host :=
  { enterableHost with
    selector := fun s ↦ if s = .tr then trSelector ⟨0x2F, 0x1000⟩ else enterableHost.selector s
    gdtr := newGdtr ⟨0x2F, 0x1000⟩ 0x200000
    mem := ltr (efiGdtInit ⟨0x2F, 0x1000⟩ (fun _ ↦ 0) 0x200000 0xFFFF800012345678 ⟨0x10, 0⟩)
      (tssDescriptor ⟨0x2F, 0x1000⟩ 0x200000) }

theorem hostChecks_loaderHost :
    HostChecks loaderHost.msrs ⟨0, 0⟩ 39
      (cpuInitVmcs ⟨fun _ ↦ 0, fun _ ↦ 0⟩ loaderHost ⟨0, 0, 0x1000, 0, 0⟩ fun _ ↦ 0) := by
  have hrun : Runs loaderHost 39 := { runs_enterableHost with gdtr := by decide }
  refine (hostChecks_of_efiGdtInit (fun _ ↦ rfl) hrun (fun _ ↦ 0) ⟨0x10, 0⟩ (by decide) (by decide)
    (by decide) ⟨by decide, by decide⟩ (by decide) rfl rfl rfl fun _ ↦ 0).mpr ?_
  exact ⟨by decide, by decide, fun hcet ↦ absurd hcet (by unfold SetAfter; decide),
    .inr (by decide), loadRules_enterableHost ⟨0, 0⟩ fun _ ↦ 0, by decide⟩

end Hypervi.Cpu
