import Hypervi.Cpu.SegmentRules

/-!
# The rules for control registers, privilege and activity

Three more groups of rules that a VM entry checks of the guest state (SDM vol. 3C,
"Checks on Guest Control Registers", "Checks on Guest Segment Registers" and "Checks
on Guest Non-Register State"), each compared with what `cpu_vmxcheck` accepts.

* `ControlRegisterRules` holds of what is accepted.  The checker exempts an
  unrestricted guest from "paging requires protection", and so does the structure.
* The privilege level of `SS` has to be `0` in real mode.  The checker asks for it in
  protected mode; `ssDpl_iff` says what is left of the rule.
* A blocked guest has to be active.  The checker asks for the opposite;
  `activityRules_iff` says when the two come to the same.
-/

namespace Hypervi.Cpu

open Bits Ia32

/-! ## Control registers -/

section controlRegisters

variable (read : VmcsField → BitVec 64)

/-- The rules for EFER, when the VM entry loads it. -/
structure EferRules : Prop where
  reserved : Efer.reserved1.get (read .guestEfer) = 0 ∧ Efer.reserved2.get (read .guestEfer) = 0 ∧
    Efer.reserved3.get (read .guestEfer) = 0
  active : Efer.ia32eModeActive.get (read .guestEfer) =
    EntryControls.ia32eModeGuest.get (read .ctrlVmentryControls)
  enable : Cr0.pagingEnable.get (read .guestCr0) = 1 →
    Efer.ia32eModeActive.get (read .guestEfer) = Efer.ia32eModeEnable.get (read .guestEfer)

/-- Paging requires protection. -/
def PagingProtected : Prop :=
  Cr0.pagingEnable.get (read .guestCr0) = 1 → Cr0.protectionEnable.get (read .guestCr0) = 1

/-- The rules for control registers and EFER, as the checker has them. -/
structure ControlRegisterRules : Prop where
  paging : unrestrictedGuest read = false → PagingProtected read
  longMode : EntryControls.ia32eModeGuest.get (read .ctrlVmentryControls) = 1 →
    Cr0.pagingEnable.get (read .guestCr0) = 1 ∧
      Cr4.physicalAddressExtension.get (read .guestCr4) = 1
  efer : EntryControls.loadIa32Efer.get (read .ctrlVmentryControls) = 1 → EferRules read

end controlRegisters

theorem eferRules_of_check {read : VmcsField → BitVec 64} (h : checkEfer read = .ok ()) :
    EferRules read := by
  obtain ⟨hres1, hres2, hres3, hactive, henable⟩ := checkEfer_eq_ok.mp h
  exact ⟨⟨hres1, hres2, hres3⟩, hactive, henable⟩

/-- A VMCS that `cpu_vmxcheck` accepts obeys the rules for control registers. -/
theorem controlRegisterRules_of_cpuVmxcheck (p : VmxInstructions) (vmcs : Vmcs)
    (h : cpuVmxcheck p vmcs = true) : ControlRegisterRules (cpuVmxread p vmcs) := by
  obtain ⟨hcontrol, -⟩ := cpuVmxcheckGuest_eq_ok.mp (cpuVmxcheck_eq_true.mp h)
  obtain ⟨hpe, hlong, hefer, -⟩ := checkControlRegisters_eq_ok.mp hcontrol
  exact
    { paging := fun hunr hpaging ↦ hpe hpaging hunr
      longMode := fun hia ↦ hlong ((Field.get_eq_one_iff rfl).mp hia)
      efer := fun hload ↦ eferRules_of_check (hefer hload) }

/-- The 64-bit guest obeys them. -/
theorem controlRegisterRules_longModeVmcs :
    ControlRegisterRules (cpuVmxread ⟨fun _ ↦ 0, fun _ ↦ 0⟩ longModeVmcs) :=
  controlRegisterRules_of_cpuVmxcheck _ longModeVmcs (by decide +kernel)

/-- An unrestricted guest with paging, no protection, and segments of ring 3. -/
def unprotectedVmcs : Vmcs
  | .ctrlProcessorBasedVmExecutionControls => 0x80000000
  | .ctrlSecondaryProcessorBasedVmExecutionControls => 0x80
  | .guestCr0 => 0x80000032
  | .guestAccessRights .cs => 0xA0FB
  | .guestAccessRights .ss => 0xC0F3
  | field => longModeVmcs field

/-- It is accepted, although paging requires protection. -/
theorem cpuVmxcheck_unprotected :
    cpuVmxcheck ⟨fun _ ↦ 0, fun _ ↦ 0⟩ unprotectedVmcs = true ∧
      ¬ PagingProtected (cpuVmxread ⟨fun _ ↦ 0, fun _ ↦ 0⟩ unprotectedVmcs) := by
  refine ⟨by decide +kernel, fun h ↦ ?_⟩
  exact absurd (h (by decide +kernel)) (by decide +kernel)

/-! ## The privilege level of the stack segment -/

/-- The rule for the stack segment of a guest in real mode, or whose `CS` is a data
segment. -/
def SsDplRule (read : VmcsField → BitVec 64) : Prop :=
  Cr0.protectionEnable.get (read .guestCr0) = 0 ∨
      segType read .cs = segmentDescriptorTypeDataReadWriteAccessed →
    segDpl read .ss = 0

/-- What is accepted obeys the rule in protected mode, where it asks for nothing, and
in real mode when the code segment is of ring 0. -/
theorem ssDpl_iff (p : VmxInstructions) (vmcs : Vmcs) (h : cpuVmxcheck p vmcs = true) :
    SsDplRule (cpuVmxread p vmcs) ↔
      Cr0.protectionEnable.get (cpuVmxread p vmcs .guestCr0) = 1 ∨
        segDpl (cpuVmxread p vmcs) .cs = 0 := by
  obtain ⟨-, -, hseg, -⟩ := cpuVmxcheckGuest_eq_ok.mp (cpuVmxcheck_eq_true.mp h)
  rw [checkSegments_eq_ok] at hseg
  obtain ⟨-, hlevel, -⟩ := cs_of_passes (hseg .cs)
  obtain ⟨-, hdpl, -, -⟩ := checkSegmentAccessRights_eq_ok.mp (hseg .ss)
  have hzero := (checkArDpl_ss_eq_ok.mp hdpl).2
  rw [SsDplRule, hlevel]
  constructor
  · intro hrule
    cases hpe : Cr0.protectionEnable.test (cpuVmxread p vmcs .guestCr0) with
    | false => exact .inr (hrule (.inl (Field.test_eq_false_iff.mp hpe)))
    | true => exact .inl ((Field.get_eq_one_iff rfl).mpr hpe)
  · rintro (hpe | hss) _
    · exact hzero (.inr ((Field.get_eq_one_iff rfl).mp hpe))
    · exact hss

/-- The unrestricted guest in real mode is accepted with a stack segment of ring 3. -/
theorem not_ssDplRule_unprotected :
    Rflags.virtual8086ModeFlag.get (unprotectedVmcs .guestRflags) = 0 ∧
      cpuVmxcheck ⟨fun _ ↦ 0, fun _ ↦ 0⟩ unprotectedVmcs = true ∧
      ¬ SsDplRule (cpuVmxread ⟨fun _ ↦ 0, fun _ ↦ 0⟩ unprotectedVmcs) := by
  refine ⟨by decide +kernel, by decide +kernel, fun h ↦ ?_⟩
  exact absurd (h (.inl (by decide +kernel))) (by decide +kernel)

/-- The 64-bit guest obeys the rule. -/
theorem ssDplRule_longModeVmcs : SsDplRule (cpuVmxread ⟨fun _ ↦ 0, fun _ ↦ 0⟩ longModeVmcs) :=
  (ssDpl_iff _ longModeVmcs (by decide +kernel)).mpr (.inl (by decide +kernel))

/-! ## Activity and interruptibility -/

section activity

variable (read : VmcsField → BitVec 64)

/-- `STI` blocks interrupts. -/
def BlockedBySti : Prop := Interruptibility.blockingBySti.get (interruptibility read) = 1

/-- A write to `SS` blocks interrupts. -/
def BlockedByMovSs : Prop := Interruptibility.blockingByMovSs.get (interruptibility read) = 1

instance : Decidable (BlockedBySti read) := inferInstanceAs (Decidable (_ = _))

instance : Decidable (BlockedByMovSs read) := inferInstanceAs (Decidable (_ = _))

/-- The rules that do not relate the activity state to what blocks interrupts. -/
structure StateRules : Prop where
  range : (activity read).toNat ≤ 3
  hlt : segDpl read .ss ≠ 0 → activity read ≠ vmxHlt
  sti : Rflags.interruptEnableFlag.get (read .guestRflags) = 0 → ¬ BlockedBySti read
  movSs : Interruptibility.enclaveInterruption.get (interruptibility read) = 1 →
    ¬ BlockedByMovSs read

/-- The rules for the activity and interruptibility states. -/
structure ActivityRules : Prop extends StateRules read where
  active : BlockedBySti read ∨ BlockedByMovSs read → activity read = vmxActive

/-- The checks of `cpu_vmxcheck_guest` that come before the activity state. -/
structure OtherChecksPass : Prop where
  controlRegisters : checkControlRegisters read = .ok ()
  systemSelectors : checkSystemSelectors read = .ok ()
  segments : checkSegments read = .ok ()
  tr : checkTr read = .ok ()
  rflags : checkRflags read = .ok ()

end activity

section activity

variable {read : VmcsField → BitVec 64}

theorem activity_le_three_iff :
    (activity read).toNat ≤ 3 ↔
      activity read = vmxActive ∨ activity read = vmxHlt ∨ activity read = vmxShutdown ∨
        activity read = vmxWaitForSipi := by
  simp only [← BitVec.toNat_inj, vmxActive, vmxHlt, vmxShutdown, vmxWaitForSipi]
  simp
  omega

/-- A field of one bit is clear when it is not set. -/
theorem not_blocked_iff {f : Field} (hlen : f.len = 1) {x : BitVec 32} :
    ¬ f.get x = 1 ↔ f.get x = 0 := by
  rw [Field.get_eq_one_iff hlen, Bool.not_eq_true, Field.test_eq_false_iff]

/-- The last check makes the other rules, and requires a blocked guest not to be active. -/
theorem checkActivity_iff :
    checkActivity read = .ok () ↔
      StateRules read ∧ (BlockedBySti read ∨ BlockedByMovSs read → activity read ≠ vmxActive) := by
  rw [checkActivity_eq_ok, ← activity_le_three_iff]
  constructor
  · rintro ⟨hrange, hhlt, hactive, hsti, hmovSs⟩
    exact ⟨⟨hrange, hhlt, fun h ↦ (not_blocked_iff rfl).mpr (hsti h),
      fun h ↦ (not_blocked_iff rfl).mpr (hmovSs h)⟩, hactive⟩
  · rintro ⟨⟨hrange, hhlt, hsti, hmovSs⟩, hactive⟩
    exact ⟨hrange, hhlt, hactive, fun h ↦ (not_blocked_iff rfl).mp (hsti h),
      fun h ↦ (not_blocked_iff rfl).mp (hmovSs h)⟩

theorem OtherChecksPass.cpuVmxcheckGuest_iff (h : OtherChecksPass read) :
    cpuVmxcheckGuest read = .ok () ↔ checkActivity read = .ok () := by
  rw [cpuVmxcheckGuest_eq_ok]
  exact ⟨fun hall ↦ hall.2.2.2.2.2, fun hactivity ↦
    ⟨h.controlRegisters, h.systemSelectors, h.segments, h.tr, h.rflags, hactivity⟩⟩

/-- When the other checks pass, the rules are necessary, and sufficient unless two
things block at once, exactly when nothing blocks, or another rule is broken, or both
block and the guest is active. -/
theorem activityRules_iff (h : OtherChecksPass read) :
    ((cpuVmxcheckGuest read = .ok () → ActivityRules read) ∧
      (¬ (BlockedBySti read ∧ BlockedByMovSs read) → ActivityRules read →
        cpuVmxcheckGuest read = .ok ())) ↔
    (¬ BlockedBySti read ∧ ¬ BlockedByMovSs read) ∨ ¬ StateRules read ∨
      (BlockedBySti read ∧ BlockedByMovSs read ∧ activity read = vmxActive) := by
  rw [h.cpuVmxcheckGuest_iff, checkActivity_iff, ← not_or]
  by_cases hblocked : BlockedBySti read ∨ BlockedByMovSs read
  · by_cases hstate : StateRules read
    · by_cases hactive : activity read = vmxActive
      · -- refused, and by the rules: harmless only when two things block
        have hrules : ActivityRules read := { hstate with active := fun _ ↦ hactive }
        simp [hblocked, hstate, hactive, hrules]
      · -- accepted against the rules
        have hrules : ¬ ActivityRules read := fun hrules ↦ hactive (hrules.active hblocked)
        simp [hblocked, hstate, hactive, hrules]
    · have hrules : ¬ ActivityRules read := fun hrules ↦ hstate hrules.toStateRules
      simp [hstate, hrules]
  · -- nothing blocks: neither side says more than the other rules
    have hrules : ActivityRules read ↔ StateRules read :=
      ⟨fun hrules ↦ hrules.toStateRules, fun hstate ↦
        { hstate with active := fun hb ↦ absurd hb hblocked }⟩
    simp [hblocked, hrules]

end activity

/-- A 64-bit guest with interrupts enabled and blocked by `STI`, in the given state. -/
def blockedVmcs (activityState : BitVec 64) : Vmcs
  | .guestRflags => 0x202
  | .guestInterruptibilityState => 1
  | .guestActivityState => activityState
  | field => longModeVmcs field

/-- The active one passes the checks that come before. -/
theorem otherChecksPass_blockedVmcs :
    OtherChecksPass (cpuVmxread ⟨fun _ ↦ 0, fun _ ↦ 0⟩ (blockedVmcs 0)) where
  controlRegisters := Checked.passed_eq_true.mp (by decide +kernel)
  systemSelectors := Checked.passed_eq_true.mp (by decide +kernel)
  segments := Checked.passed_eq_true.mp (by decide +kernel)
  tr := Checked.passed_eq_true.mp (by decide +kernel)
  rflags := Checked.passed_eq_true.mp (by decide +kernel)

/-- A blocked guest that is active is refused, and one that is halted accepted. -/
theorem blocked_misjudged :
    (OtherChecksPass (cpuVmxread ⟨fun _ ↦ 0, fun _ ↦ 0⟩ (blockedVmcs 0)) ∧
      ¬ BlockedByMovSs (cpuVmxread ⟨fun _ ↦ 0, fun _ ↦ 0⟩ (blockedVmcs 0)) ∧
      ActivityRules (cpuVmxread ⟨fun _ ↦ 0, fun _ ↦ 0⟩ (blockedVmcs 0)) ∧
      cpuVmxcheck ⟨fun _ ↦ 0, fun _ ↦ 0⟩ (blockedVmcs 0) = false) ∧
    (¬ ActivityRules (cpuVmxread ⟨fun _ ↦ 0, fun _ ↦ 0⟩ (blockedVmcs 1)) ∧
      cpuVmxcheck ⟨fun _ ↦ 0, fun _ ↦ 0⟩ (blockedVmcs 1) = true) := by
  refine ⟨⟨otherChecksPass_blockedVmcs, by decide +kernel,
    ⟨⟨by decide +kernel, ?_, ?_, ?_⟩, fun _ ↦ by decide +kernel⟩, by decide +kernel⟩,
    ⟨fun h ↦ ?_, by decide +kernel⟩⟩
  · exact fun _ ↦ by decide +kernel
  · exact fun h ↦ absurd h (by decide +kernel)
  · exact fun h ↦ absurd h (by decide +kernel)
  · exact absurd (h.active (.inl (by decide +kernel))) (by decide +kernel)

/-- The blocked guest that is active obeys the rules, and so they are not sufficient. -/
theorem activityRules_blockedVmcs :
    ¬ ((cpuVmxcheckGuest (cpuVmxread ⟨fun _ ↦ 0, fun _ ↦ 0⟩ (blockedVmcs 0)) = .ok () →
        ActivityRules (cpuVmxread ⟨fun _ ↦ 0, fun _ ↦ 0⟩ (blockedVmcs 0))) ∧
      (¬ (BlockedBySti (cpuVmxread ⟨fun _ ↦ 0, fun _ ↦ 0⟩ (blockedVmcs 0)) ∧
          BlockedByMovSs (cpuVmxread ⟨fun _ ↦ 0, fun _ ↦ 0⟩ (blockedVmcs 0))) →
        ActivityRules (cpuVmxread ⟨fun _ ↦ 0, fun _ ↦ 0⟩ (blockedVmcs 0)) →
        cpuVmxcheckGuest (cpuVmxread ⟨fun _ ↦ 0, fun _ ↦ 0⟩ (blockedVmcs 0)) = .ok ())) := by
  rw [activityRules_iff otherChecksPass_blockedVmcs]
  rintro (⟨hsti, -⟩ | hstate | ⟨-, hmovSs, -⟩)
  · exact hsti (by decide +kernel)
  · exact hstate ⟨by decide +kernel, fun _ ↦ by decide +kernel,
      fun h ↦ absurd h (by decide +kernel), fun h ↦ absurd h (by decide +kernel)⟩
  · exact absurd hmovSs (by decide +kernel)

end Hypervi.Cpu
