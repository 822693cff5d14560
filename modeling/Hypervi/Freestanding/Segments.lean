import Hypervi.Ia32.Vmx
import Hypervi.Memory.Byte

/-!
# Segments: what `x86utils` reads from a selector

`get_segment_base` takes the base of a segment from its descriptor in memory,
`get_segment_limit` and `get_segment_access_rights_vmx` ask the processor with
the `lsl` and `lar` instructions.

`getSegmentBase_eq_architecturalBase` compares the base with the architectural
one, which has 64 bits for a system descriptor of long mode and 32 bits
otherwise.  The code reads the upper half for a task state segment only, which it
tells by the type and, in place of the bit that marks system descriptors, by the
bit available to software.  `getSegmentLimit_eq_iff` says which limits survive the
16 bits that `get_segment_limit` returns.
-/

namespace Hypervi.Freestanding

open Bits Ia32 Memory

/-! ## The instructions -/

/-- What `lar` and `lsl` leave in their destination for each selector, or `none`
when they clear `ZF`. -/
structure SegmentInstructions where
  lar : BitVec 16 → Option (BitVec 64)
  lsl : BitVec 16 → Option (BitVec 64)
  /-- The contents of `rax` before `lsl`, which stay when it fails. -/
  rax : BitVec 16 → BitVec 64

/-- `call_lar` -/
def callLar (p : SegmentInstructions) (selector : BitVec 16) : BitVec 64 :=
  (p.lar selector).getD 0

/-- `call_lsl` -/
def callLsl (p : SegmentInstructions) (selector : BitVec 16) : BitVec 64 :=
  (p.lsl selector).getD (p.rax selector)

/-! ## The functions -/

/-- `get_segment_descriptor`: the address of the descriptor. -/
def getSegmentDescriptor (descriptorTableBase : BitVec 64) (selectorValue : BitVec 16) :
    BitVec 64 :=
  descriptorTableBase + (SegmentSelector.index.get selectorValue).setWidth 64 * 8

/-- The descriptor at an address. -/
def descriptorAt (m : Mem) (address : BitVec 64) : SegmentDescriptor32 :=
  ⟨load32 m address, load32 m (address + 4)⟩

/-- `base_address_upper` of the 16-byte descriptor at an address. -/
def baseAddressUpper (m : Mem) (address : BitVec 64) : BitVec 32 := load32 m (address + 8)

/-- `get_descriptor_base`.  The fields of the descriptor are narrower than an
`int`, and are shifted as `int`s: the highest byte of the base reaches the sign
bit, and is extended into the upper half of `base_hi` before the mask. -/
def getDescriptorBase (m : Mem) (address : BitVec 64) : BitVec 64 :=
  let d := descriptorAt m address
  let baseHi := (SegmentDescriptor32.baseAddressHigh.get d.high <<< 24).signExtend 64
  let baseMid := (SegmentDescriptor32.baseAddressMiddle.get d.high <<< 16).signExtend 64
  let baseLow := (SegmentDescriptor32.baseAddressLow.get d.low).signExtend 64
  let base := (baseHi ||| baseMid ||| baseLow) &&& 0xFFFFFFFF
  let type := SegmentDescriptor32.type.get d.high
  if SegmentDescriptor32.system.get d.high = 0 ∧
      (type = segmentDescriptorTypeTssAvailable ∨ type = segmentDescriptorTypeTssBusy) then
    base ||| ((baseAddressUpper m address).setWidth 64 <<< 32)
  else base

/-- The null selector, whatever its requested privilege level. -/
def isNull (selector : BitVec 16) : Bool :=
  SegmentSelector.table.get selector == 0 && SegmentSelector.index.get selector == 0

/-- `get_segment_base` -/
def getSegmentBase (m : Mem) (descriptorTableBase : BitVec 64) (selector : BitVec 16) :
    BitVec 64 :=
  if isNull selector then 0
  else if SegmentSelector.table.get selector ≠ 0 then 0
  else getDescriptorBase m (getSegmentDescriptor descriptorTableBase selector)

/-- `get_segment_limit` -/
def getSegmentLimit (p : SegmentInstructions) (selector : BitVec 16) : BitVec 16 :=
  (callLsl p selector).setWidth 16

/-- `get_segment_access_rights_vmx`.  For a null selector only `unusable` is set:
`output.flags` is assigned first. -/
def getSegmentAccessRightsVmx (p : SegmentInstructions) (selector : BitVec 16) : BitVec 32 :=
  if isNull selector then AccessRights.unusable.set 0 1
  else
    let rights : BitVec 32 := (callLar p selector).setWidth 32
    let output := rights >>> 8
    let output := AccessRights.reserved1.set output 0
    let output := AccessRights.reserved2.set output 0
    AccessRights.unusable.set output 0

/-! ## The base -/

/-- The base of a descriptor in long mode: that of a system descriptor has 64
bits, the upper half of them in the following eight bytes. -/
def architecturalBase (m : Mem) (address : BitVec 64) : BitVec 64 :=
  let d := descriptorAt m address
  if d.isSegment then d.base.setWidth 64 else baseAddressUpper m address ++ d.base

/-- The parts of the base, shifted and combined as the code does it. -/
theorem base_eq (d : SegmentDescriptor32) :
    ((SegmentDescriptor32.baseAddressHigh.get d.high <<< 24).signExtend 64 |||
      (SegmentDescriptor32.baseAddressMiddle.get d.high <<< 16).signExtend 64 |||
      (SegmentDescriptor32.baseAddressLow.get d.low).signExtend 64) &&& 0xFFFFFFFF =
    d.base.setWidth 64 := by
  apply BitVec.eq_of_getLsbD_eq
  intro i hi
  have hmask : (0xFFFFFFFF : BitVec 64).getLsbD i = decide (i < 32) := by
    rw [show (0xFFFFFFFF : BitVec 64) = (BitVec.allOnes 32).setWidth 64 by decide,
      BitVec.getLsbD_setWidth, BitVec.getLsbD_allOnes]
    simp [hi]
  rw [BitVec.getLsbD_and, hmask, BitVec.getLsbD_setWidth]
  by_cases h32 : i < 32
  · simp only [SegmentDescriptor32.base, BitVec.getLsbD_or, BitVec.getLsbD_signExtend,
      BitVec.getLsbD_shiftLeft, Field.getLsbD_get, BitVec.getLsbD_append,
      BitVec.getLsbD_extractLsb', SegmentDescriptor32.baseAddressHigh,
      SegmentDescriptor32.baseAddressMiddle, SegmentDescriptor32.baseAddressLow]
    by_cases h16 : i < 16
    · have h24 : i < 24 := Nat.lt_trans h16 (by decide)
      simp [hi, h32, h24, h16]
    · by_cases h24 : i < 24
      · have hmid : i - 16 < 8 := by omega
        simp [hi, h32, h24, h16, hmid]
      · have hhigh : i - 24 < 8 := by omega
        have hmid : ¬ i - 16 < 8 := by omega
        simp [hi, h32, h24, h16, hmid, hhigh]
  · rw [BitVec.getLsbD_of_ge d.base i (Nat.le_of_not_lt h32)]
    simp [h32]

section base

variable {m : Mem} {address : BitVec 64}

theorem getDescriptorBase_of_tss (h : (descriptorAt m address).AvailableClear)
    (ht : (descriptorAt m address).HasTssType) :
    getDescriptorBase m address = baseAddressUpper m address ++ (descriptorAt m address).base := by
  rw [getDescriptorBase]
  simp only [base_eq]
  rw [if_pos ⟨h, ht⟩, BitVec.or_comm, ← BitVec.setWidth_append_eq_shiftLeft_setWidth_or,
    BitVec.setWidth_eq]

theorem getDescriptorBase_of_not_tss
    (h : ¬ ((descriptorAt m address).AvailableClear ∧ (descriptorAt m address).HasTssType)) :
    getDescriptorBase m address = (descriptorAt m address).base.setWidth 64 := by
  rw [getDescriptorBase]
  simp only [base_eq]
  exact if_neg h

end base

/-- For a selector of the GDT the base is that of its descriptor. -/
theorem getSegmentBase_of_gdt {selector : BitVec 16}
    (hti : SegmentSelector.table.get selector = 0) (hindex : SegmentSelector.index.get selector ≠ 0)
    (m : Mem) (descriptorTableBase : BitVec 64) :
    getSegmentBase m descriptorTableBase selector =
      getDescriptorBase m (getSegmentDescriptor descriptorTableBase selector) := by
  have hnull : isNull selector = false := by
    rw [isNull, hti, beq_eq_false_iff_ne.mpr hindex, Bool.and_false]
  rw [getSegmentBase, hnull, if_neg Bool.false_ne_true, if_neg (not_not_intro hti)]

/-- The base of a segment of the GDT is the architectural one for code and data
segments and for task state segments, as far as the bit available to software and
the type keep the two apart; of the base of an LDT only the low half is read. -/
theorem getSegmentBase_eq_architecturalBase (m : Mem) (descriptorTableBase : BitVec 64)
    {selector : BitVec 16} (hti : SegmentSelector.table.get selector = 0)
    (hindex : SegmentSelector.index.get selector ≠ 0) (address : BitVec 64)
    (haddress : address = getSegmentDescriptor descriptorTableBase selector) :
    ((descriptorAt m address).isSegment = true →
      ¬ ((descriptorAt m address).AvailableClear ∧ (descriptorAt m address).HasTssType) →
      getSegmentBase m descriptorTableBase selector = architecturalBase m address) ∧
    ((descriptorAt m address).isSegment = false → (descriptorAt m address).AvailableClear →
      (descriptorAt m address).HasTssType →
      getSegmentBase m descriptorTableBase selector = architecturalBase m address) ∧
    ((descriptorAt m address).isSegment = false → (descriptorAt m address).HasLdtType →
      getSegmentBase m descriptorTableBase selector =
        ((architecturalBase m address).setWidth 32).setWidth 64) := by
  subst haddress
  rw [getSegmentBase_of_gdt hti hindex, architecturalBase]
  refine ⟨fun hs hslip ↦ ?_, fun hs havl htss ↦ ?_, fun hs hldt ↦ ?_⟩
  · rw [getDescriptorBase_of_not_tss hslip, if_pos hs]
  · rw [getDescriptorBase_of_tss havl htss, hs]
    rfl
  · have hne :
        ¬ (descriptorAt m (getSegmentDescriptor descriptorTableBase selector)).HasTssType := by
      rw [SegmentDescriptor32.HasTssType, hldt]
      decide
    rw [getDescriptorBase_of_not_tss fun h ↦ hne h.2, hs, if_neg Bool.false_ne_true,
      BitVec.setWidth_append_eq_right]

/-! ### Three descriptors with another base -/

/-- A table with the given descriptor behind the null descriptor, and the eight
bytes that follow it. -/
def gdtOf (descriptor next : BitVec 64) : Mem :=
  store64 (store64 (fun _ ↦ 0) 8 descriptor) 16 next

/-- The base of an LDT loses its upper half, that of an execute-read code segment
gains one, and that of a task state segment with the available bit set loses its
upper half. -/
theorem getSegmentBase_ne_architecturalBase :
    ((descriptorAt (gdtOf 0x0000820000000067 0xFFFF8000) 8).isSegment = false ∧
      (descriptorAt (gdtOf 0x0000820000000067 0xFFFF8000) 8).HasLdtType ∧
      getSegmentBase (gdtOf 0x0000820000000067 0xFFFF8000) 0 8 ≠
        architecturalBase (gdtOf 0x0000820000000067 0xFFFF8000) 8) ∧
    ((descriptorAt (gdtOf 0x00AF9B000000FFFF 0x00CF93000000FFFF) 8).isSegment = true ∧
      getSegmentBase (gdtOf 0x00AF9B000000FFFF 0x00CF93000000FFFF) 0 8 ≠
        architecturalBase (gdtOf 0x00AF9B000000FFFF 0x00CF93000000FFFF) 8) ∧
    ((descriptorAt (gdtOf 0x00108B0000000067 0xFFFF8000) 8).isSegment = false ∧
      (descriptorAt (gdtOf 0x00108B0000000067 0xFFFF8000) 8).HasTssType ∧
      getSegmentBase (gdtOf 0x00108B0000000067 0xFFFF8000) 0 8 ≠
        architecturalBase (gdtOf 0x00108B0000000067 0xFFFF8000) 8) := by
  refine ⟨⟨?_, ?_, ?_⟩, ⟨?_, ?_⟩, ⟨?_, ?_, ?_⟩⟩ <;> decide +kernel

/-- A busy task state segment keeps all 64 bits of its base. -/
theorem getSegmentBase_busyTss :
    getSegmentBase (gdtOf 0x12008B3456780067 0xFFFF8000) 0 8 = 0xFFFF800012345678 :=
  ((getSegmentBase_eq_architecturalBase (gdtOf 0x12008B3456780067 0xFFFF8000) 0 (by decide)
    (by decide) 8 (by decide)).2.1 (by decide +kernel) (by decide +kernel)
      (by decide +kernel)).trans (by decide +kernel)

/-! ## The limit -/

theorem toNat_expandedLimit_bytes (raw : BitVec 20) :
    (expandedLimit raw false).toNat = raw.toNat := by
  have hraw := raw.isLt
  rw [expandedLimit, if_neg Bool.false_ne_true, BitVec.toNat_setWidth]
  omega

theorem toNat_expandedLimit_pages (raw : BitVec 20) :
    (expandedLimit raw true).toNat = raw.toNat * 0x1000 + 0xFFF := by
  have hraw := raw.isLt
  rw [expandedLimit, if_pos rfl, BitVec.toNat_add, BitVec.toNat_mul, BitVec.toNat_setWidth]
  simp
  omega

/-- A limit survives the truncation to 16 bits when it is small enough: below
64 KiB in bytes, or below 16 pages. -/
theorem getSegmentLimit_eq_iff {p : SegmentInstructions} {selector : BitVec 16}
    {raw : BitVec 20} {g : Bool} (h : p.lsl selector = some (expandedLimit raw g)) :
    (getSegmentLimit p selector).setWidth 64 = expandedLimit raw g ↔
      (g = false ∧ raw.toNat < 2 ^ 16) ∨ (g = true ∧ raw.toNat < 16) := by
  have hraw := raw.isLt
  rw [getSegmentLimit, callLsl, h, Option.getD_some, ← BitVec.toNat_inj, BitVec.toNat_setWidth,
    BitVec.toNat_setWidth]
  cases g with
  | false =>
      rw [toNat_expandedLimit_bytes]
      simp
      omega
  | true =>
      rw [toNat_expandedLimit_pages]
      simp
      omega

/-! ## The access rights -/

/-- What `lar` leaves for a descriptor: the second word without the base and without
bits 19:16, which are undefined. -/
def larResult (d : SegmentDescriptor32) (undefined : BitVec 4) : BitVec 64 :=
  ((d.high &&& 0x00F0FF00#32) ||| (undefined.setWidth 32 <<< 16)).setWidth 64

/-- `lar` and `lsl` succeed for a selector of the descriptor `d`. -/
structure SegmentInstructions.Loads (p : SegmentInstructions) (selector : BitVec 16)
    (d : SegmentDescriptor32) : Prop where
  lar : ∃ undefined, p.lar selector = some (larResult d undefined)
  lsl : p.lsl selector =
    some (expandedLimit d.rawLimit (SegmentDescriptor32.granularity.test d.high))

/-- A field of the second word of a descriptor that `lar` keeps. -/
def KeptByLar (f : Field) : Prop :=
  (8 ≤ f.off ∧ f.off + f.len ≤ 16) ∨ (20 ≤ f.off ∧ f.off + f.len ≤ 24)

instance (f : Field) : Decidable (KeptByLar f) := inferInstanceAs (Decidable (_ ∨ _))

/-- The bits of the mask. -/
theorem getLsbD_larMask : ∀ j < 32, (8 ≤ j ∧ j < 16) ∨ (20 ≤ j ∧ j < 24) →
    (0x00F0FF00#32).getLsbD j = true := by decide

theorem get_larResult {f : Field} (hf : KeptByLar f) (d : SegmentDescriptor32)
    (undefined : BitVec 4) :
    f.get ((larResult d undefined).setWidth 32 : BitVec 32) = f.get d.high := by
  apply BitVec.eq_of_getLsbD_eq
  intro i _
  rw [Field.getLsbD_get, Field.getLsbD_get]
  by_cases hi : i < f.len
  · have hbit : (8 ≤ f.off + i ∧ f.off + i < 16) ∨ (20 ≤ f.off + i ∧ f.off + i < 24) := by
      rcases hf with h | h <;> omega
    have hlt : f.off + i < 32 := by omega
    have hundefined : (undefined.setWidth 32 <<< 16).getLsbD (f.off + i) = false := by
      rw [BitVec.getLsbD_shiftLeft, BitVec.getLsbD_setWidth]
      rcases hbit with h | h
      · simp [h.2]
      · simp [BitVec.getLsbD_of_ge undefined (f.off + i - 16) (by omega)]
    rw [larResult, BitVec.setWidth_setWidth_of_le _ (by decide), BitVec.setWidth_eq,
      BitVec.getLsbD_or, BitVec.getLsbD_and, getLsbD_larMask _ hlt hbit, hundefined]
    simp
  · simp [hi]

/-- A field of the access rights that no assignment touches. -/
def Unassigned (f : Field) : Prop :=
  f.Disjoint AccessRights.reserved1 ∧ f.Disjoint AccessRights.reserved2 ∧
    f.Disjoint AccessRights.unusable

instance (f : Field) : Decidable (Unassigned f) := inferInstanceAs (Decidable (_ ∧ _))

section rights

variable {p : SegmentInstructions} {selector : BitVec 16} {d : SegmentDescriptor32}

theorem getSegmentAccessRightsVmx_of_isNull (h : isNull selector = true) :
    getSegmentAccessRightsVmx p selector = AccessRights.unusable.set 0 1 := if_pos h

/-- A field that `lar` keeps is found eight bits lower in the access rights. -/
theorem get_accessRights {f : Field} (hnull : isNull selector = false) (hp : p.Loads selector d)
    (hf : Unassigned f) (hkept : KeptByLar ⟨f.off + 8, f.len⟩) :
    f.get (getSegmentAccessRightsVmx p selector) = (⟨f.off + 8, f.len⟩ : Field).get d.high := by
  obtain ⟨undefined, hlar⟩ := hp.lar
  obtain ⟨h1, h2, hu⟩ := hf
  rw [getSegmentAccessRightsVmx, hnull, if_neg Bool.false_ne_true]
  simp only [callLar, hlar, Option.getD_some]
  rw [Field.get_set_of_disjoint hu, Field.get_set_of_disjoint h2, Field.get_set_of_disjoint h1,
    Field.get_ushiftRight, get_larResult hkept]

/-- The access rights of a usable segment, and where they come from. -/
structure RightsOf (ar : BitVec 32) (d : SegmentDescriptor32) : Prop where
  type : AccessRights.type.get ar = SegmentDescriptor32.type.get d.high
  descriptorType :
    AccessRights.descriptorType.get ar = SegmentDescriptor32.descriptorType.get d.high
  dpl : AccessRights.descriptorPrivilegeLevel.get ar =
    SegmentDescriptor32.descriptorPrivilegeLevel.get d.high
  present : AccessRights.present.get ar = SegmentDescriptor32.present.get d.high
  reserved1 : AccessRights.reserved1.get ar = 0
  available : AccessRights.availableBit.get ar = SegmentDescriptor32.system.get d.high
  longMode : AccessRights.longMode.get ar = SegmentDescriptor32.longMode.get d.high
  defaultBig : AccessRights.defaultBig.get ar = SegmentDescriptor32.defaultBig.get d.high
  granularity : AccessRights.granularity.get ar = SegmentDescriptor32.granularity.get d.high
  unusable : AccessRights.unusable.get ar = 0
  reserved2 : AccessRights.reserved2.get ar = 0

/-- `get_segment_access_rights_vmx` returns the rights of the descriptor. -/
theorem rightsOf_getSegmentAccessRightsVmx (hnull : isNull selector = false)
    (hp : p.Loads selector d) : RightsOf (getSegmentAccessRightsVmx p selector) d where
  type := get_accessRights hnull hp (by decide) (by decide)
  descriptorType := get_accessRights hnull hp (by decide) (by decide)
  dpl := get_accessRights hnull hp (by decide) (by decide)
  present := get_accessRights hnull hp (by decide) (by decide)
  available := get_accessRights hnull hp (by decide) (by decide)
  longMode := get_accessRights hnull hp (by decide) (by decide)
  defaultBig := get_accessRights hnull hp (by decide) (by decide)
  granularity := get_accessRights hnull hp (by decide) (by decide)
  reserved1 := by
    rw [getSegmentAccessRightsVmx, hnull, if_neg Bool.false_ne_true]
    rw [Field.get_set_of_disjoint (by decide), Field.get_set_of_disjoint (by decide),
      Field.get_set_self _ _ _ (by decide)]
    rfl
  reserved2 := by
    rw [getSegmentAccessRightsVmx, hnull, if_neg Bool.false_ne_true]
    rw [Field.get_set_of_disjoint (by decide), Field.get_set_self _ _ _ (by decide)]
    rfl
  unusable := by
    rw [getSegmentAccessRightsVmx, hnull, if_neg Bool.false_ne_true]
    rw [Field.get_set_self _ _ _ (by decide)]
    rfl

end rights

end Hypervi.Freestanding
