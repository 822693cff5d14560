import Hypervi.Control
import Hypervi.Ia32.Memory

/-!
# The MTRR table: `ept_init_mtrr` and `ept_get_memory_type`

The first half of `hypervisor/ept.cc`.  `ept_init_mtrr` decodes the processor's
memory type range registers into the table `g_mtrrs`, fixed ranges first and then
the valid variable ranges in register order, and `ept_get_memory_type` looks a
range of addresses up in it.

* The registers are a function from index to contents, so that
  `read_msr(id)` is `msrs id`.
* `g_mtrrs` is a list of `max_mtrrs` entries.  A write past its end is undefined
  in C++; here it leaves the entries alone, and `written` records the index of
  every write so that bounds can be stated.
* `bsf` leaves its destination register alone when its operand is zero.  The
  function `rax` is what `call_bsf` then returns in the iteration for the `i`-th
  variable register; for a non-zero operand the result does not depend on it.
* Log output is left out.
-/

namespace Hypervi.Mtrr

open Bits Ia32

/-- `mtrr_data`, one decoded range. -/
structure MtrrData where
  enabled : Bool
  fixed : Bool
  type : MemoryType
  rangeBegin : BitVec 64
  rangeEnd : BitVec 64
deriving DecidableEq, Repr

/-- An entry of the table after `memset(g_mtrrs, 0, sizeof(g_mtrrs))`. -/
def MtrrData.zero : MtrrData := ⟨false, false, 0, 0, 0⟩

def maxFixedRangeMtrrs : Nat := (1 + 2 + 8) * 8
def maxVariableRangeMtrrs : Nat := 255
def maxMtrrs : Nat := maxFixedRangeMtrrs + maxVariableRangeMtrrs

/-- The globals of `ept.cc`. -/
structure Globals where
  /-- `g_mtrrs`. -/
  mtrrs : List MtrrData
  /-- `g_default_memory_type`. -/
  defaultMemoryType : MemoryType
  /-- The indices of `g_mtrrs` written so far, the last one first. -/
  written : List Nat
deriving Repr

/-! ## Filling the table -/

/-- The variables of `ept_init_mtrr` that its helper updates through pointers,
with the table itself. -/
structure InitState where
  mtrrs : List MtrrData
  written : List Nat
  index : Nat
  offset : BitVec 64

/-- `g_mtrrs[index] = d; index++`. -/
def InitState.push (s : InitState) (d : MtrrData) : InitState :=
  { s with mtrrs := s.mtrrs.set s.index d, written := s.index :: s.written, index := s.index + 1 }

/-- One iteration of the loop of `ept_read_fixed_mtrrs`: the `i`-th byte of the
register is the type of the `i`-th range. -/
def readFixedMtrr (fixedRange base size : BitVec 64) (i : Nat) (s : InitState) : InitState :=
  let memType := fixedRange.extractLsb' (8 * i) 8
  let currBase := base + size * BitVec.ofNat 64 i
  { s with offset := s.offset + size }.push
    { enabled := true, fixed := true, type := memType,
      rangeBegin := currBase, rangeEnd := currBase + size }

/-- `ept_read_fixed_mtrrs`. -/
def eptReadFixedMtrrs (msrs : Msrs) (msr : BitVec 32) (base size : BitVec 64) (s : InitState) :
    InitState :=
  forRange 8 (readFixedMtrr (msrs msr) base size) s

/-- The calls of `ept_read_fixed_mtrrs`, in order: register, base and size. -/
def fixedRangeRegisters : List (BitVec 32 × BitVec 64 × BitVec 64) :=
  [(ia32MtrrFix64k00000, 0, 0x10000),
   (ia32MtrrFix16k80000, 0x80000, 0x4000),
   (ia32MtrrFix16kA0000, 0xA0000, 0x4000),
   (ia32MtrrFix4kC0000, 0xC0000, 0x1000),
   (ia32MtrrFix4kC8000, 0xC8000, 0x1000),
   (ia32MtrrFix4kD0000, 0xD0000, 0x1000),
   (ia32MtrrFix4kD8000, 0xD8000, 0x1000),
   (ia32MtrrFix4kE0000, 0xE0000, 0x1000),
   (ia32MtrrFix4kE8000, 0xE8000, 0x1000),
   (ia32MtrrFix4kF0000, 0xF0000, 0x1000),
   (ia32MtrrFix4kF8000, 0xF8000, 0x1000)]

/-- `call_bsf`: the index of the lowest set bit, and the old contents of `rax`
when no bit is set. -/
def callBsf (rax value : BitVec 64) : BitVec 64 := if value = 0 then rax else value.ctz

/-- The range `ept_init_mtrr` decodes from a variable register pair.  The shift
of `1ull` uses the low six bits of its count, as the processor's `shl` does. -/
def variableRange (rax phyBase phyMask : BitVec 64) : MtrrData :=
  let rangeBegin := MtrrPhysbase.pageFrameNumber.get phyBase * 0x1000
  let size := (1 : BitVec 64) <<<
    ((callBsf rax (MtrrPhysmask.pageFrameNumber.get phyMask)).toNat % 64)
  { enabled := true, fixed := false, type := (MtrrPhysbase.type.get phyBase).setWidth 8,
    rangeBegin := rangeBegin, rangeEnd := rangeBegin + (size <<< 12) }

/-- `IA32_MTRR_PHYSMASK0 + i * 2` -/
def physmask (i : Nat) : BitVec 32 := ia32MtrrPhysmask0 + BitVec.ofNat 32 (i * 2)

/-- `IA32_MTRR_PHYSBASE0 + i * 2` -/
def physbase (i : Nat) : BitVec 32 := ia32MtrrPhysbase0 + BitVec.ofNat 32 (i * 2)

/-- One iteration of the loop over the variable registers. -/
def readVariableMtrr (rax : Nat → BitVec 64) (msrs : Msrs) (i : Nat) (s : InitState) :
    InitState :=
  let phyMask := msrs (physmask i)
  let phyBase := msrs (physbase i)
  if !MtrrPhysmask.valid.test phyMask then s
  else s.push (variableRange (rax i) phyBase phyMask)

/-- `mtrr_capabilities.variable_range_count` -/
def variableRangeCount (msrs : Msrs) : Nat :=
  (MtrrCapabilities.variableRangeCount.get (msrs ia32MtrrCapabilities)).toNat

/-- `mtrr_capabilities.fixed_range_supported && default_type.fixed_range_mtrr_enable` -/
def fixedRangesRead (msrs : Msrs) : Bool :=
  MtrrCapabilities.fixedRangeSupported.test (msrs ia32MtrrCapabilities) &&
    MtrrDefType.fixedRangeMtrrEnable.test (msrs ia32MtrrDefType)

/-- `ept_init_mtrr` -/
def eptInitMtrr (rax : Nat → BitVec 64) (msrs : Msrs) : Globals :=
  let s : InitState := ⟨List.replicate maxMtrrs MtrrData.zero, [], 0, 0⟩
  let s := if fixedRangesRead msrs then
      fixedRangeRegisters.foldl (fun s r ↦ eptReadFixedMtrrs msrs r.1 r.2.1 r.2.2 s) s
    else s
  let s := forRange (variableRangeCount msrs) (readVariableMtrr rax msrs) s
  { mtrrs := s.mtrrs.modify s.index fun d ↦ { d with enabled := false }
    defaultMemoryType :=
      (MtrrDefType.defaultMemoryType.get (msrs ia32MtrrDefType)).setWidth 8
    written := s.index :: s.written }

/-! ## Looking a range up -/

/-- The loop of `ept_get_memory_type` over the table from some index on, with
the type found so far; `[]` is the end of the table. -/
def scan (start size : BitVec 64) (default : MemoryType) : MemoryType → List MtrrData → MemoryType
  | result, [] => if result = memoryTypeInvalid then default else result
  | result, mtrr :: rest =>
      if !mtrr.enabled then
        if result = memoryTypeInvalid then default else result
      else if start < mtrr.rangeBegin ∨ start ≥ mtrr.rangeEnd then
        scan start size default result rest
      else if start + size - 1 ≥ mtrr.rangeEnd then memoryTypeInvalid
      else if mtrr.fixed then mtrr.type
      else if mtrr.type = memoryTypeUncacheable then memoryTypeUncacheable
      else if mtrr.type = memoryTypeWriteThrough ∧ result = memoryTypeWriteBack then
        scan start size default memoryTypeWriteThrough rest
      else if mtrr.type = memoryTypeWriteBack ∧ result = memoryTypeWriteThrough then
        scan start size default memoryTypeWriteThrough rest
      else scan start size default mtrr.type rest

/-- `ept_get_memory_type` -/
def eptGetMemoryType (g : Globals) (start size : BitVec 64) : MemoryType :=
  scan start size g.defaultMemoryType memoryTypeInvalid g.mtrrs

end Hypervi.Mtrr
