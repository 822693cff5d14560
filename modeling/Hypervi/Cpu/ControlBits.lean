import Hypervi.Bits.Allowed
import Hypervi.Cpu.Init

/-!
# The least change that makes a control register legal

`cpu_alter_control_register` and `cpu_alter_vmx_control_register` follow the same
rule: clear what may not be one and set what must be.  For the VMX controls this
is what they do (`legalises_vmxControl`).  For a control register the masks are 64
bits wide, but the function keeps them in variables of type `u32`, so that it
clears the high half of the register whatever the masks say there
(`legalises_controlRegister_iff`).
-/

namespace Hypervi.Cpu

open Bits Ia32

/-- `f` makes the least change to `x`, and none to the result. -/
structure Legalises (c : Allowed 64) (f : BitVec 64 → BitVec 64) (x : BitVec 64) : Prop where
  leastChange : c.LeastChange x (f x)
  idempotent : f (f x) = f x

variable (msrs : Msrs)

/-- What the two FIXED MSRs allow in a control register. -/
def controlRegisterBits (msrId0 msrId1 : BitVec 32)
    (h : msrs msrId0 &&& msrs msrId1 = msrs msrId0) : Allowed 64 where
  must := msrs msrId0
  may := msrs msrId1
  within := h

/-- What the halves of a capability MSR allow in a VMX control. -/
def vmxControlBits (msr : BitVec 32) (h : TrueControls.allowed0Settings.get (msrs msr) &&&
      TrueControls.allowed1Settings.get (msrs msr) =
    TrueControls.allowed0Settings.get (msrs msr)) : Allowed 64 where
  must := TrueControls.allowed0Settings.get (msrs msr)
  may := TrueControls.allowed1Settings.get (msrs msr)
  within := h

theorem legalises_vmxControl {msr : BitVec 32} (h : TrueControls.allowed0Settings.get (msrs msr) &&&
      TrueControls.allowed1Settings.get (msrs msr) =
    TrueControls.allowed0Settings.get (msrs msr)) (original : BitVec 64) :
    Legalises (vmxControlBits msrs msr h) (cpuAlterVmxControlRegister msrs · msr) original where
  leastChange := ((vmxControlBits msrs msr h).leastChange_iff _ _).mpr rfl
  idempotent := and_or_idempotent _ _ _

/-- Only the low halves of the masks are used, with zeros above. -/
theorem cpuAlterControlRegister_eq (original : BitVec 64) (msrId0 msrId1 : BitVec 32) :
    cpuAlterControlRegister msrs original msrId0 msrId1 =
      (((original &&& msrs msrId1) ||| msrs msrId0).setWidth 32).setWidth 64 := by
  apply BitVec.eq_of_getLsbD_eq
  intro i hi
  simp only [cpuAlterControlRegister, BitVec.getLsbD_or, BitVec.getLsbD_and,
    BitVec.getLsbD_setWidth]
  by_cases h32 : i < 32
  · simp [hi, h32]
  · simp [h32]

/-- The bit is one in the adjusted register: it must be, or it was and may be. -/
def SetAfter (original : BitVec 64) (msrId0 msrId1 : BitVec 32) (f : Field) : Prop :=
  (msrs msrId0).getLsbD f.off = true ∨
    original.getLsbD f.off = true ∧ (msrs msrId1).getLsbD f.off = true

theorem get_cpuAlterControlRegister_iff {f : Field} (hlen : f.len = 1) (hoff : f.off < 32)
    (original : BitVec 64) (msrId0 msrId1 : BitVec 32) :
    f.get (cpuAlterControlRegister msrs original msrId0 msrId1) = 1 ↔
      SetAfter msrs original msrId0 msrId1 f := by
  have hoff' : f.off < 64 := Nat.lt_trans hoff (by decide)
  rw [Field.get_eq_one_iff hlen, Field.test_eq_getLsbD hlen, cpuAlterControlRegister_eq, SetAfter]
  simp only [BitVec.getLsbD_setWidth, BitVec.getLsbD_or, BitVec.getLsbD_and, hoff, hoff',
    decide_true, Bool.true_and, Bool.or_eq_true, Bool.and_eq_true]
  exact or_comm

/-- A bit that may be one stays. -/
theorem get_cpuAlterControlRegister {f : Field} (hlen : f.len = 1) (hoff : f.off < 32)
    {original : BitVec 64} {msrId0 msrId1 : BitVec 32} (hbit : f.get original = 1)
    (hmay : f.get (msrs msrId1) = 1) :
    f.get (cpuAlterControlRegister msrs original msrId0 msrId1) = 1 := by
  rw [Field.get_eq_one_iff hlen, Field.test_eq_getLsbD hlen] at hbit hmay
  exact (get_cpuAlterControlRegister_iff msrs hlen hoff _ _ _).mpr (.inr ⟨hbit, hmay⟩)

theorem legalises_controlRegister_iff {msrId0 msrId1 : BitVec 32}
    (h : msrs msrId0 &&& msrs msrId1 = msrs msrId0) (original : BitVec 64) :
    Legalises (controlRegisterBits msrs msrId0 msrId1 h)
        (cpuAlterControlRegister msrs · msrId0 msrId1) original ↔
      (original &&& msrs msrId1).toNat < 2 ^ 32 ∧ (msrs msrId0).toNat < 2 ^ 32 := by
  have hleast : (controlRegisterBits msrs msrId0 msrId1 h).LeastChange original
      (cpuAlterControlRegister msrs original msrId0 msrId1) ↔
      (original &&& msrs msrId1).toNat < 2 ^ 32 ∧ (msrs msrId0).toNat < 2 ^ 32 := by
    rw [Allowed.leastChange_iff, cpuAlterControlRegister_eq, ← or_lt_two_pow_iff]
    exact setWidth_setWidth_eq_iff (by decide) _
  exact ⟨fun hl ↦ hleast.mp hl.leastChange, fun hlt ↦ ⟨hleast.mpr hlt, and_or_idempotent _ _ _⟩⟩

/-- The VMX controls are always adjusted by the least change; a control register
exactly when the masks and the bits that may stay leave the high half zero. -/
theorem legalises_iff (msrs : Msrs) :
    (∀ (msrId0 msrId1 : BitVec 32) (h : msrs msrId0 &&& msrs msrId1 = msrs msrId0)
      (original : BitVec 64),
      Legalises (controlRegisterBits msrs msrId0 msrId1 h)
          (cpuAlterControlRegister msrs · msrId0 msrId1) original ↔
        (original &&& msrs msrId1).toNat < 2 ^ 32 ∧ (msrs msrId0).toNat < 2 ^ 32) ∧
    (∀ (msr : BitVec 32) (h : TrueControls.allowed0Settings.get (msrs msr) &&&
        TrueControls.allowed1Settings.get (msrs msr) = TrueControls.allowed0Settings.get (msrs msr))
      (original : BitVec 32),
      Legalises (vmxControlBits msrs msr h) (cpuAlterVmxControlRegister msrs · msr)
        (original.setWidth 64)) :=
  ⟨fun _ _ h original ↦ legalises_controlRegister_iff msrs h original,
    fun _ h original ↦ legalises_vmxControl msrs h (original.setWidth 64)⟩

/-- FIXED0 requires PE, NE and PG and FIXED1 permits every bit, in both halves. -/
def everyBitPermitted : Msrs := fun id ↦
  if id = ia32VmxCr0Fixed0 then 0x80000021 else 0xFFFFFFFFFFFFFFFF

/-- A CR0 of 32 bits keeps what it has and gets NE. -/
theorem legalises_everyBitPermitted :
    Legalises (controlRegisterBits everyBitPermitted ia32VmxCr0Fixed0 ia32VmxCr0Fixed1 (by decide))
      (cpuAlterControlRegister everyBitPermitted · ia32VmxCr0Fixed0 ia32VmxCr0Fixed1) 0x80000011 :=
  ((legalises_iff everyBitPermitted).1 ia32VmxCr0Fixed0 ia32VmxCr0Fixed1 (by decide) 0x80000011).mpr
    (by decide)

/-- A bit of the high half that FIXED1 permits is lost. -/
theorem not_legalises_everyBitPermitted :
    ¬ Legalises (controlRegisterBits everyBitPermitted ia32VmxCr0Fixed0 ia32VmxCr0Fixed1 (by decide))
      (cpuAlterControlRegister everyBitPermitted · ia32VmxCr0Fixed0 ia32VmxCr0Fixed1)
      0x180000011 := by
  intro h
  have hkept := h.leastChange.free_kept 32 (by decide) (by decide) (by decide)
  exact absurd hkept (by decide)

end Hypervi.Cpu
