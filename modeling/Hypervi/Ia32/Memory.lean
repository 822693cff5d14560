import Hypervi.Bits.Field

/-!
# Memory types, MTRRs and EPT entries of the processor

The names the sources use for model-specific registers, memory types and paging
structures come from the `external/ia32-doc` submodule, which is not part of the
tree.  This file gives each name the value or the bit-field that the Intel SDM
gives it (vol. 3A, "Memory Cache Control" and vol. 3C, "VMX Support for Address
Translation").  Only what the sources read or write is listed.

A 64-bit register or entry is a `BitVec 64`; a union's member `r.field` is
`field.get r`, and an assignment `r.field = v` is `field.set r v`.
-/

namespace Hypervi.Ia32

open Bits

/-- The contents of the model-specific registers, by index. -/
abbrev Msrs := BitVec 32 → BitVec 64

/-! ## Memory types -/

/-- A memory type.  The sources carry memory types in `u8` and `u64` variables,
but every value such a variable takes is the byte of a register or one of the
constants below. -/
abbrev MemoryType := BitVec 8

def memoryTypeUncacheable : MemoryType := 0
def memoryTypeWriteCombining : MemoryType := 1
def memoryTypeWriteThrough : MemoryType := 4
def memoryTypeWriteProtected : MemoryType := 5
def memoryTypeWriteBack : MemoryType := 6
def memoryTypeInvalid : MemoryType := 0xFF

/-- The encodings the processor defines; it reserves all others. -/
def MemoryType.Legal (t : MemoryType) : Prop :=
  t = memoryTypeUncacheable ∨ t = memoryTypeWriteCombining ∨ t = memoryTypeWriteThrough ∨
    t = memoryTypeWriteProtected ∨ t = memoryTypeWriteBack

instance (t : MemoryType) : Decidable t.Legal := inferInstanceAs (Decidable (_ ∨ _))

/-! ## Memory type range registers -/

def ia32MtrrCapabilities : BitVec 32 := 0xFE
def ia32MtrrDefType : BitVec 32 := 0x2FF
def ia32MtrrPhysbase0 : BitVec 32 := 0x200
def ia32MtrrPhysmask0 : BitVec 32 := 0x201
def ia32MtrrFix64k00000 : BitVec 32 := 0x250
def ia32MtrrFix16k80000 : BitVec 32 := 0x258
def ia32MtrrFix16kA0000 : BitVec 32 := 0x259
def ia32MtrrFix4kC0000 : BitVec 32 := 0x268
def ia32MtrrFix4kC8000 : BitVec 32 := 0x269
def ia32MtrrFix4kD0000 : BitVec 32 := 0x26A
def ia32MtrrFix4kD8000 : BitVec 32 := 0x26B
def ia32MtrrFix4kE0000 : BitVec 32 := 0x26C
def ia32MtrrFix4kE8000 : BitVec 32 := 0x26D
def ia32MtrrFix4kF0000 : BitVec 32 := 0x26E
def ia32MtrrFix4kF8000 : BitVec 32 := 0x26F

namespace MtrrCapabilities

def variableRangeCount : Field := ⟨0, 8⟩
def fixedRangeSupported : Field := ⟨8, 1⟩

end MtrrCapabilities

namespace MtrrDefType

def defaultMemoryType : Field := ⟨0, 8⟩
def fixedRangeMtrrEnable : Field := ⟨10, 1⟩
def mtrrEnable : Field := ⟨11, 1⟩

end MtrrDefType

namespace MtrrPhysbase

def type : Field := ⟨0, 8⟩
def pageFrameNumber : Field := ⟨12, 36⟩

end MtrrPhysbase

namespace MtrrPhysmask

def valid : Field := ⟨11, 1⟩
def pageFrameNumber : Field := ⟨12, 36⟩

end MtrrPhysmask

/-! ## EPT paging structures -/

/-- The value of `EPT_PAGE_WALK_LENGTH_4`. -/
def eptPageWalkLength4 : BitVec 64 := 3

namespace EptPointer

def memoryType : Field := ⟨0, 3⟩
def pageWalkLength : Field := ⟨3, 3⟩
def pageFrameNumber : Field := ⟨12, 36⟩

end EptPointer

/-- The permission bits, at the same place in the entries of all four levels. -/
def readAccess : Field := ⟨0, 1⟩
@[inherit_doc readAccess] def writeAccess : Field := ⟨1, 1⟩
@[inherit_doc readAccess] def executeAccess : Field := ⟨2, 1⟩

/-- The frame number of the table, or of the 4 KiB page, an entry refers to:
`ept_pml4`, `epdpte`, `epde` and `epte` have it at the same place. -/
def pageFrameNumber : Field := ⟨12, 36⟩

/-- `epde_2mb.large_page`, and the bit of a PDPTE that maps a 1 GiB page. -/
def largePage : Field := ⟨7, 1⟩

/-- `epde_2mb.memory_type` and `epte.memory_type`. -/
def leafMemoryType : Field := ⟨3, 3⟩

namespace Epde2mb

/-- The frame number of a 2 MiB page starts at bit 21. -/
def pageFrameNumber : Field := ⟨21, 27⟩

end Epde2mb

end Hypervi.Ia32
