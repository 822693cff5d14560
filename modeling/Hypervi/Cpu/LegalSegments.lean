import Hypervi.Cpu.LimitRules

/-!
# Legal segments that the check refuses

`cpu_vmxcheck` runs at every VM exit, on whatever guest is running, and so the
converse of soundness matters too: a segment register that obeys the rules of a VM
entry should pass `check_segment_access_rights`.  `LegalSegment` has the rules for
each register, and `segmentPasses_iff` says which legal segments pass in protected
mode:

* `CS`, when it does not conform: the second `switch` has no case for the other types
  that the first one accepts;
* `SS`, in ring 0: the level is compared with `0` in protected mode, where the rule
  asks for it in real mode;
* a data register, unless it holds conforming code of a lower level than it requests:
  the type is shifted to the left where it should be compared.
-/

namespace Hypervi.Cpu

open Bits Ia32

/-! ## The rules -/

section rules

variable (read : VmcsField → BitVec 64)

/-- The rules that apply to `CS`, and to the other registers when they are usable. -/
structure LegalForm (s : SegmentRegister) : Prop where
  form : CodeOrDataForm (accessRights read s)
  limit : GranularityRule (accessRights read s) (segLimit read s)

/-- The rules for `CS`. -/
structure LegalCs : Prop extends LegalForm read .cs where
  type : IsAccessedCode (segType read .cs) ∨
    (unrestrictedGuest read = true ∧
      segType read .cs = segmentDescriptorTypeDataReadWriteAccessed)
  dataDpl : segType read .cs = segmentDescriptorTypeDataReadWriteAccessed → segDpl read .cs = 0
  dpl : IsNonconformingCode (segType read .cs) → segDpl read .cs = segDpl read .ss
  conformingDpl : IsConformingCode (segType read .cs) → segDpl read .cs ≤ segDpl read .ss
  defaultBig : ia32eModeGuest read = true → AccessRights.longMode.get (accessRights read .cs) = 1 →
    AccessRights.defaultBig.get (accessRights read .cs) = 0

/-- The rules for `SS`. -/
structure LegalSs : Prop where
  form : Usable read .ss → LegalForm read .ss
  type : Usable read .ss → IsWritableData (segType read .ss)
  rpl : unrestrictedGuest read = false → segRpl read .ss = segRpl read .cs
  dpl : unrestrictedGuest read = false → segDpl read .ss = segRpl read .ss
  zeroDpl : segType read .cs = segmentDescriptorTypeDataReadWriteAccessed ∨
    Cr0.protectionEnable.get (read .guestCr0) = 0 → segDpl read .ss = 0

/-- The rules for another register. -/
structure LegalData (s : SegmentRegister) : Prop where
  form : Usable read s → LegalForm read s
  /-- Accessed, and readable if it is code. -/
  type : Usable read s → (segType read s).getLsbD 0 = true ∧
    ((segType read s).getLsbD 3 = true → (segType read s).getLsbD 1 = true)
  /-- For data and for code that does not conform. -/
  dpl : unrestrictedGuest read = false → Usable read s → segType read s ≤ 11 →
    segRpl read s ≤ segDpl read s

/-- The rules for the access rights, the limit and the selector of a segment, of a guest
whose `RFLAGS.VM` is clear. -/
def LegalSegment : SegmentType → Prop
  | .cs => LegalCs read
  | .ss => LegalSs read
  | seg => LegalData read seg.register

/-- The legal segments that pass in protected mode. -/
def Recognised : SegmentType → Prop
  | .cs => IsNonconformingCode (segType read .cs)
  | .ss => segDpl read .ss = 0
  | seg => unrestrictedGuest read = true ∨ ¬ Usable read seg.register ∨
      segType read seg.register ≤ 11 ∨ segRpl read seg.register ≤ segDpl read seg.register

end rules

/-! ## What passes -/

section passes

variable {read : VmcsField → BitVec 64}

/-- The rule for limits is stricter than the check. -/
theorem GranularityRule.fits {ar limit : BitVec 32} (h : GranularityRule ar limit) :
    GranularityFits ar limit := by
  obtain ⟨hlow, hhigh⟩ := granularityRule_iff.mp h
  refine ⟨fun hzero ↦ hlow fun hones ↦ ?_, hhigh⟩
  exact absurd (hzero.symm.trans hones) (by decide)

theorem LegalForm.fits {s : SegmentRegister} (h : LegalForm read s) :
    CodeOrDataForm (accessRights read s) ∧ GranularityFits (accessRights read s) (segLimit read s) :=
  ⟨h.form, h.limit.fits⟩

theorem cs_passes_iff (h : LegalCs read) :
    SegmentPasses read .cs ↔ IsNonconformingCode (segType read .cs) := by
  constructor
  · exact fun hpass ↦ (cs_of_passes hpass).1
  · intro hcode
    obtain ⟨htype, hdpl⟩ := checkCs_eq_ok.mpr ⟨hcode, h.dpl hcode⟩
    exact checkSegmentAccessRights_eq_ok.mpr
      ⟨htype, hdpl, fun _ ↦ h.toLegalForm.fits, fun _ ↦ h.defaultBig⟩

theorem ss_passes_iff (hpe : Cr0.protectionEnable.get (read .guestCr0) = 1) (h : LegalSs read) :
    SegmentPasses read .ss ↔ segDpl read .ss = 0 := by
  have hprotected : Cr0.protectionEnable.test (read .guestCr0) = true :=
    (Field.get_eq_one_iff rfl).mp hpe
  constructor
  · intro hpass
    obtain ⟨-, hdpl, -, -⟩ := checkSegmentAccessRights_eq_ok.mp hpass
    exact (checkArDpl_ss_eq_ok.mp hdpl).2 (.inr hprotected)
  · intro hzero
    refine checkSegmentAccessRights_eq_ok.mpr ⟨?_, ?_, ?_, fun hcs ↦ absurd hcs (by decide)⟩
    · exact checkArType_ss_eq_ok.mpr h.type
    · exact checkArDpl_ss_eq_ok.mpr ⟨h.dpl, fun _ ↦ hzero⟩
    · rintro (hcs | hu)
      · exact absurd hcs (by decide)
      · exact (h.form hu).fits

theorem data_passes_iff {seg : SegmentType} (hcs : seg ≠ .cs) (hss : seg ≠ .ss)
    (h : LegalData read seg.register) :
    SegmentPasses read seg ↔
      (unrestrictedGuest read = true ∨ ¬ Usable read seg.register ∨
        segType read seg.register ≤ 11 ∨ segRpl read seg.register ≤ segDpl read seg.register) := by
  constructor
  · intro hpass
    by_contra! hnot
    obtain ⟨hunr, hu, -, hlt⟩ := hnot
    have hle := (data_of_passes hcs hss hpass hu).2.2 ((Bool.not_eq_true _).mp hunr)
    exact absurd hle hlt
  · intro hrecognised
    refine checkSegmentAccessRights_eq_ok.mpr ⟨?_, ?_, ?_, fun h ↦ absurd h hcs⟩
    · exact (checkArType_data_eq_ok hcs hss).mpr h.type
    · refine (checkArDpl_data_eq_ok hcs hss).mpr fun hunr hu _ ↦ ?_
      rcases hrecognised with hunr' | hnu | htype | hle
      · rw [hunr] at hunr'
        exact absurd hunr' Bool.false_ne_true
      · exact absurd hu hnu
      · exact h.dpl hunr hu htype
      · exact hle
    · rintro (h' | hu)
      · exact absurd h' hcs
      · exact (h.form hu).fits

end passes

/-- A legal segment passes in protected mode exactly when it is one of those that the
checker recognises. -/
theorem segmentPasses_iff (read : VmcsField → BitVec 64) (seg : SegmentType)
    (hpe : Cr0.protectionEnable.get (read .guestCr0) = 1) (h : LegalSegment read seg) :
    SegmentPasses read seg ↔ Recognised read seg := by
  cases seg with
  | cs => exact cs_passes_iff h
  | ss => exact ss_passes_iff hpe h
  | _ => exact data_passes_iff (by decide) (by decide) h

/-! ## Three legal segments -/

/-- The 64-bit guest in conforming code. -/
def conformingVmcs : Vmcs
  | .guestAccessRights .cs => 0xA09F
  | field => longModeVmcs field

/-- The 64-bit guest in ring 3. -/
def userVmcs : Vmcs
  | .guestSelector .cs => 0xB
  | .guestSelector .ss => 0x13
  | .guestAccessRights .cs => 0xA0FB
  | .guestAccessRights .ss => 0xC0F3
  | field => longModeVmcs field

/-- The 64-bit guest with conforming code of ring 0 in `DS`, through a selector of ring 3. -/
def conformingDataVmcs : Vmcs
  | .guestSelector .ds => 0xB
  | .guestLimit .ds => 0xFFFF
  | .guestAccessRights .ds => 0xC09F
  | field => longModeVmcs field

/-- A usable segment in pages whose limit ends in ones has its form. -/
theorem legalForm_of_pages {read : VmcsField → BitVec 64} {s : SegmentRegister}
    (hform : AccessRights.descriptorType.get (accessRights read s) = 1 ∧
      AccessRights.present.get (accessRights read s) = 1 ∧
      AccessRights.reserved1.get (accessRights read s) = 0 ∧
      AccessRights.reserved2.get (accessRights read s) = 0)
    (hg : AccessRights.granularity.get (accessRights read s) = 1)
    (hlimit : segLimit read s &&& 0xfff#32 = 0xfff#32) : LegalForm read s :=
  ⟨⟨hform.1, hform.2.1, hform.2.2.1, hform.2.2.2⟩,
    granularityRule_iff.mpr ⟨fun hne ↦ absurd hlimit hne, fun _ ↦ hg⟩⟩

/-- The three guests are in protected mode and in IA-32e mode; each has a legal segment
that is refused. -/
theorem legal_refused :
    (∀ vmcs ∈ [conformingVmcs, userVmcs, conformingDataVmcs],
      ia32eModeGuest (cpuVmxread ⟨fun _ ↦ 0, fun _ ↦ 0⟩ vmcs) = true ∧
      Rflags.virtual8086ModeFlag.get (vmcs .guestRflags) = 0 ∧
      Cr0.protectionEnable.get (vmcs .guestCr0) = 1) ∧
    (LegalSegment (cpuVmxread ⟨fun _ ↦ 0, fun _ ↦ 0⟩ conformingVmcs) .cs ∧
      ¬ SegmentPasses (cpuVmxread ⟨fun _ ↦ 0, fun _ ↦ 0⟩ conformingVmcs) .cs) ∧
    (LegalSegment (cpuVmxread ⟨fun _ ↦ 0, fun _ ↦ 0⟩ userVmcs) .ss ∧
      ¬ SegmentPasses (cpuVmxread ⟨fun _ ↦ 0, fun _ ↦ 0⟩ userVmcs) .ss) ∧
    (LegalSegment (cpuVmxread ⟨fun _ ↦ 0, fun _ ↦ 0⟩ conformingDataVmcs) .ds ∧
      ¬ SegmentPasses (cpuVmxread ⟨fun _ ↦ 0, fun _ ↦ 0⟩ conformingDataVmcs) .ds) := by
  have hcs : LegalCs (cpuVmxread ⟨fun _ ↦ 0, fun _ ↦ 0⟩ conformingVmcs) :=
    { legalForm_of_pages (by decide +kernel) (by decide +kernel) (by decide +kernel) with
      type := .inl (.inr (.inr (.inr (by decide +kernel))))
      dataDpl := fun _ ↦ by decide +kernel
      dpl := fun _ ↦ by decide +kernel
      conformingDpl := fun _ ↦ by decide +kernel
      defaultBig := fun _ _ ↦ by decide +kernel }
  have hss : LegalSs (cpuVmxread ⟨fun _ ↦ 0, fun _ ↦ 0⟩ userVmcs) :=
    { form := fun _ ↦
        legalForm_of_pages (by decide +kernel) (by decide +kernel) (by decide +kernel)
      type := fun _ ↦ .inl (by decide +kernel)
      rpl := fun _ ↦ by decide +kernel
      dpl := fun _ ↦ by decide +kernel
      zeroDpl := by decide +kernel }
  have hds : LegalData (cpuVmxread ⟨fun _ ↦ 0, fun _ ↦ 0⟩ conformingDataVmcs) .ds :=
    { form := fun _ ↦
        legalForm_of_pages (by decide +kernel) (by decide +kernel) (by decide +kernel)
      type := fun _ ↦ by decide +kernel
      dpl := fun _ _ ↦ by decide +kernel }
  refine ⟨?_, ⟨hcs, fun hpass ↦ ?_⟩, ⟨hss, fun hpass ↦ ?_⟩, ⟨hds, fun hpass ↦ ?_⟩⟩
  · simp only [List.forall_mem_cons, List.not_mem_nil]
    refine ⟨?_, ?_, ?_, fun vmcs h ↦ h.elim⟩ <;> decide +kernel
  · rcases (cs_passes_iff hcs).mp hpass with h | h <;> exact absurd h (by decide +kernel)
  · exact absurd ((ss_passes_iff (by decide +kernel) hss).mp hpass) (by decide +kernel)
  · have hle := (data_of_passes (by decide) (by decide) hpass (by decide +kernel)).2.2
      (by decide +kernel)
    exact absurd hle (by decide +kernel)

/-- The stack segment of the 64-bit guest in ring 0 is legal, and passes. -/
theorem segmentPasses_longModeVmcs :
    SegmentPasses (cpuVmxread ⟨fun _ ↦ 0, fun _ ↦ 0⟩ longModeVmcs) .ss := by
  have hss : LegalSs (cpuVmxread ⟨fun _ ↦ 0, fun _ ↦ 0⟩ longModeVmcs) :=
    { form := fun _ ↦
        legalForm_of_pages (by decide +kernel) (by decide +kernel) (by decide +kernel)
      type := fun _ ↦ .inl (by decide +kernel)
      rpl := fun _ ↦ by decide +kernel
      dpl := fun _ ↦ by decide +kernel
      zeroDpl := fun _ ↦ by decide +kernel }
  have hdpl : segDpl (cpuVmxread ⟨fun _ ↦ 0, fun _ ↦ 0⟩ longModeVmcs) .ss = 0 := by
    decide +kernel
  exact (segmentPasses_iff _ .ss (by decide +kernel) hss).mpr hdpl

end Hypervi.Cpu
