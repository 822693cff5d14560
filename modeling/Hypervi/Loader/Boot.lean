import Hypervi.Loader.GdtClone
import Hypervi.Loader.IdtClone
import Hypervi.Loader.Main

/-!
# The stages of the loader

`efi_main` replaces the IDT and the GDT of the firmware, loads and runs the hypervisor, and
puts the tables of the firmware back.  The stages after the allocator are run here over the
registers, the globals and memory (`boot`).

`IdtInPlace`, `GdtInPlace` and `Restored` say what is wanted of them, and `Ready` what they
rely on: pages of the firmware that are free, and an image that stays inside its own.
-/

namespace Hypervi.Loader

open Bits Ia32 Memory Freestanding Cpu Elf

/-! ## The state -/

/-- The parts of the loader's own image that the tables refer to, and what the calls of `memset`
in `efi_gdt_init` store. -/
structure LoaderImage where
  stub : Exception → BitVec 64
  newTss : BitVec 64
  fills : GdtFills
  exports : Exports

/-- The answers of the firmware from `efi_idt_init` on. -/
structure BootFirmware where
  /-- `allocate_pages`, for the IDT. -/
  idtPages : Option (BitVec 64)
  /-- `allocate_pages`, for the GDT. -/
  gdtPages : Option (BitVec 64)
  fs : FsFirmware
  loader : LoaderFirmware

/-- The registers that the stages change, with the globals. -/
structure Boot where
  idtr : SegmentDescriptorRegister64
  gdtr : SegmentDescriptorRegister64
  tr : BitVec 16
  /-- The interrupt flag. -/
  interrupts : Bool
  efiIdtr : SegmentDescriptorRegister64
  efiGdtr : SegmentDescriptorRegister64
  customIdt : BitVec 64
  newGdt : BitVec 64
  globals : Globals
  /-- The calls of `free_pages`. -/
  freed : List EfiAllocationEntry

namespace Boot

def mem (s : Boot) : Mem := s.globals.image.mem

def setMem (s : Boot) (mem : Mem) : Boot :=
  { s with globals := { s.globals with image := { s.globals.image with mem := mem } } }

def setAllocations (s : Boot) (allocations : EfiAllocations) : Boot :=
  { s with globals := { s.globals with allocations := allocations } }

/-- The table that is left, and the calls of `free_pages`. -/
def freePages (s : Boot) (result : EfiAllocations × List EfiAllocationEntry) : Boot :=
  { s.setAllocations result.1 with freed := s.freed ++ result.2 }

theorem freed_freePages (s : Boot) (result : EfiAllocations × List EfiAllocationEntry) :
    (s.freePages result).freed = s.freed ++ result.2 := rfl

theorem allocations_freePages (s : Boot) (result : EfiAllocations × List EfiAllocationEntry) :
    (s.freePages result).globals.allocations = result.1 := rfl

end Boot

/-! ## The stages -/

section stages

variable (img : LoaderImage) (fw : BootFirmware) (env : Elf.Machine) (hypervisor : Mem → Mem)

namespace Boot

/-- `write_idtr`, which disables interrupts and then enables them. -/
def writeIdtr (s : Boot) (idtr : SegmentDescriptorRegister64) : Boot :=
  { s with
    idtr := idtr
    interrupts := true }

/-- `efi_idt_init` -/
def efiIdtInit (s : Boot) : Boot :=
  let size := BitVec.ofNat 64 (customIdtSize s.idtr)
  let idt := efiAllocate s.globals.allocations size fw.idtPages
  let t := { s with
    efiIdtr := s.idtr
    customIdt := idt.2 }
  ((t.setAllocations idt.1).setMem (Loader.efiIdtInit s.idtr s.mem idt.2 img.stub)).writeIdtr
    ⟨s.idtr.limit, idt.2⟩

/-- `efi_gdt_init`, which ends with `write_tr`. -/
def efiGdtInit (s : Boot) : Boot :=
  let size := BitVec.ofNat 64 (newGdtSize s.gdtr)
  let gdt := efiAllocate s.globals.allocations size fw.gdtPages
  let t := { s with
    efiGdtr := s.gdtr
    newGdt := gdt.2
    gdtr := newGdtr s.gdtr gdt.2
    tr := trSelector s.gdtr }
  (t.setAllocations gdt.1).setMem (clonedGdt s.gdtr s.mem gdt.2 img.newTss img.fills)

/-- `efi_fs_init` -/
def efiFsInit (s : Boot) : Boot :=
  { s with
    globals := { s.globals with
      filesystems := (Loader.efiFsInit fw.fs s.globals.filesystems.fsRoots).1 } }

/-- `efi_loader_init` -/
def efiLoaderInit (s : Boot) : Boot :=
  { s with globals := Loader.efiLoaderInit fw.loader s.globals }

/-- `efi_loader_map`, with what the hypervisor does to memory until it returns. -/
def efiLoaderMap (s : Boot) : Boot :=
  let t := { s with globals := Loader.efiLoaderMap img.exports env fw.loader s.globals }
  t.setMem (hypervisor t.mem)

/-- `efi_gdt_exit`.  `clear_tr` clears a flag of `CR0`, not the task register. -/
def efiGdtExit (s : Boot) : Boot := { s with gdtr := s.efiGdtr }

/-- `efi_idt_exit` -/
def efiIdtExit (s : Boot) : Boot :=
  (s.writeIdtr s.efiIdtr).freePages (efiDeallocate s.globals.allocations s.customIdt)

end Boot

/-- The stages. -/
inductive Stage where
  | idtInit | gdtInit | fsInit | loaderInit | loaderMap | gdtExit | idtExit
  deriving DecidableEq

/-- One stage. -/
def Stage.exec : Stage → Boot → Boot
  | idtInit => Boot.efiIdtInit img fw
  | gdtInit => Boot.efiGdtInit img fw
  | fsInit => Boot.efiFsInit fw
  | loaderInit => Boot.efiLoaderInit fw
  | loaderMap => Boot.efiLoaderMap img fw env hypervisor
  | gdtExit => Boot.efiGdtExit
  | idtExit => Boot.efiIdtExit

/-- The stages of `efi_main`, in order. -/
def bootStages : List Stage :=
  [.idtInit, .gdtInit, .fsInit, .loaderInit, .loaderMap, .gdtExit, .idtExit]

/-- The state after the first `k` stages. -/
def boot (s : Boot) (k : Nat) : Boot :=
  (bootStages.take k).foldl (fun t stage ↦ stage.exec img fw env hypervisor t) s

end stages

/-! ## What is wanted -/

section inPlace

variable (img : LoaderImage)

/-- The register has the loader's IDT, whose pages have not been given back.  The hooked gates
point to their stubs, and the bytes that are not part of these addresses are those of the
firmware's table, which `s` has, up to the one that is not copied. -/
structure IdtInPlace (s t : Boot) : Prop where
  idtr : t.idtr = ⟨s.idtr.limit, t.customIdt⟩
  freed : t.freed = s.freed
  stubs : ∀ e : Exception,
    handlerAddress t.mem (gateAt t.idtr.baseAddress e.index) = img.stub e
  gates : ∀ v k, k < 16 → 16 * v + k < s.idtr.limit.toNat →
    (∀ (e : Exception) (p : IsrPart), e.index = v → ¬ p.Has k) →
    t.mem (gateAt t.idtr.baseAddress v + BitVec.ofNat 64 k) =
      s.mem (gateAt s.idtr.baseAddress v + BitVec.ofNat 64 k)

/-- The register has the loader's GDT, which starts with the firmware's table up to the byte
that is not copied, and the task register has the descriptor of `new_tss`.  Of both, what no
assignment writes is what `memset` stored. -/
structure GdtInPlace (s t : Boot) : Prop where
  gdtr : t.gdtr = newGdtr s.gdtr t.newGdt
  descriptors : ∀ k < s.gdtr.limit.toNat,
    t.mem (t.gdtr.baseAddress + BitVec.ofNat 64 k) =
      s.mem (s.gdtr.baseAddress + BitVec.ofNat 64 k)
  tr : t.tr = trSelector s.gdtr
  tss : EncodesTss t.mem (tssDescriptor s.gdtr t.gdtr.baseAddress) img.newTss
    img.fills.descriptor
  filled : ∀ k < tssSize, t.mem (img.newTss + BitVec.ofNat 64 k) = img.fills.tss

/-- The registers have the tables of the firmware again, and interrupts are enabled.  The
selector in the task register is behind the table.  The pages of the IDT have been given back,
and the other blocks have not. -/
structure Restored (freed : EfiAllocationEntry) (live : List Block) (s t : Boot) : Prop where
  idtr : t.idtr = s.idtr
  gdtr : t.gdtr = s.gdtr
  interrupts : t.interrupts = true
  tr : t.gdtr.limit.toNat < 8 * (SegmentSelector.index.get t.tr).toNat
  freed : t.freed = s.freed ++ [freed]
  allocator : Inv ⟨t.globals.allocations, live⟩

end inPlace

/-! ## What a run relies on -/

/-- The pages that the firmware hands out for the tables and the file. -/
structure BootPages where
  idt : BitVec 64
  gdt : BitVec 64
  buffer : BitVec 64

section ready

variable (img : LoaderImage) (fw : BootFirmware) (env : Elf.Machine) (hypervisor : Mem → Mem)
  (p : BootPages) (live : List Block) (s : Boot)

def idtBlock : Block := ⟨p.idt, BitVec.ofNat 64 (customIdtSize s.idtr)⟩

def gdtBlock : Block := ⟨p.gdt, BitVec.ofNat 64 (newGdtSize s.gdtr)⟩

/-- The block for the file, if it is found and its size can be had. -/
def fileBlock : Option Block :=
  let filesystems := (efiFsInit fw.fs s.globals.filesystems.fsRoots).1
  if (efiFsFindFile fw.loader.openFile filesystems visorPath readMode 0).1 = 0 then none
  else fw.loader.getInfo.map (Block.mk p.buffer)

/-- `x` is in the pages of the two tables, or in the task state segment. -/
def Owned (x : BitVec 64) : Prop :=
  (idtBlock p s).Covers x ∨ (gdtBlock p s).Covers x ∨ (x - img.newTss).toNat < tssSize

/-- A block that the firmware may hand out while others are in use. -/
structure Block.Free (b : Block) (live : List Block) : Prop where
  ne_null : b.address ≠ 0
  size : b.size.toNat ≤ 2 ^ 64 - 4096
  disjoint : ∀ c ∈ live, b.Disjoint c

/-- The firmware hands out pages that are free, `allocate_pages` being what it says it is, and
there is a free entry for each.  `live` are the blocks of the loader to begin with. -/
structure HandsOut : Prop where
  allocator : Inv ⟨s.globals.allocations, live⟩
  room : live.length + 3 ≤ allocationsMax
  idtPages : fw.idtPages = some p.idt
  gdtPages : fw.gdtPages = some p.gdt
  bufferPages : fw.loader.bufferPages = some p.buffer
  idt : (idtBlock p s).Free live
  gdt : (gdtBlock p s).Free (idtBlock p s :: live)
  file : ∀ b, fileBlock fw p s = some b → b.Free (gdtBlock p s :: idtBlock p s :: live)

/-- The tables of the firmware: the IDT has between two and 256 gates. -/
structure FirmwareTables : Prop where
  idt_min : 16 ≤ s.idtr.limit.toNat
  idt_max : s.idtr.limit.toNat ≤ 0xFFF
  gdt_dvd : 8 ∣ s.gdtr.limit.toNat + 1
  gdt_min : 7 ≤ s.gdtr.limit.toNat
  gdt_max : s.gdtr.limit.toNat + 16 ≤ 0xFFFF
  /-- Its GDT is not in the pages that are free. -/
  gdt_apart : ∀ k < s.gdtr.limit.toNat,
    ¬ (idtBlock p s).Covers (s.gdtr.baseAddress + BitVec.ofNat 64 k)

/-- What is written stays where it belongs. -/
structure KeepsApart : Prop where
  tss : ∀ x, (x - img.newTss).toNat < tssSize →
    ¬ (idtBlock p s).Covers x ∧ ¬ (gdtBlock p s).Covers x
  /-- `read` puts no more into the buffer than it was asked for. -/
  read : ∀ b, fileBlock fw p s = some b → fw.loader.read.bytes.length ≤ b.size.toNat ∧
    ∀ x, b.Covers x → tssSize ≤ (x - img.newTss).toNat
  /-- The file is an image that stays inside its pages. -/
  fits : (loaderMapper img.exports (boot img fw env hypervisor s 4).globals).Fits
  image : ∀ x, (loaderMapper img.exports (boot img fw env hypervisor s 4).globals).InPages
    (fw.loader.imagePages.getD s.globals.visorMapped) x → ¬ Owned img p s x
  hypervisor : ∀ m x, Owned img p s x → hypervisor m x = m x

/-- Everything that a run relies on. -/
structure Ready : Prop extends HandsOut fw p live s, FirmwareTables p s,
  KeepsApart img fw env hypervisor p s

end ready

/-! ## The allocator -/

/-- A free block that the firmware hands out. -/
theorem Inv.handOut {table : EfiAllocations} {live : List Block} (h : Inv ⟨table, live⟩)
    (hroom : live.length < allocationsMax) {b : Block} (hb : b.Free live) :
    (efiAllocate table b.size (some b.address)).2 = b.address ∧
      Inv ⟨(efiAllocate table b.size (some b.address)).1, b :: live⟩ := by
  cases hfree : freeEntry table with
  | none => exact absurd (h.freeEntry_eq_none_iff.mp hfree) (Nat.ne_of_lt hroom)
  | some i =>
      have hlegal : State.Legal ⟨table, live⟩ (.allocate b.size (some b.address)) := by
        refine ⟨hb.size, fun address haddress ↦ ?_⟩
        obtain rfl := Option.some.inj haddress
        exact ⟨hb.ne_null, hb.disjoint⟩
      have hlive : (State.step ⟨table, live⟩ (.allocate b.size (some b.address))).live =
          b :: live := State.live_allocate_some hfree
      have hinv := h.allocate hlegal
      refine ⟨(efiAllocate_some hfree hb.ne_null).2, ?_⟩
      rw [← hlive]
      exact hinv

/-- A live block that is given back. -/
theorem Inv.takeBack {table : EfiAllocations} {live after : List Block} {b : Block}
    (h : Inv ⟨table, live ++ b :: after⟩) :
    (efiDeallocate table b.address).2 = [b.entry] ∧
      Inv ⟨(efiDeallocate table b.address).1, live ++ after⟩ := by
  have hmem : b ∈ live ++ b :: after := List.mem_append_right _ List.mem_cons_self
  have hcalls : (efiDeallocate table b.address).2 = [b.entry] := h.calls_eq hmem
  have hnodup := h.nodup
  rw [List.map_append, List.map_cons, List.nodup_middle, List.nodup_cons, ← List.map_append]
    at hnodup
  -- the other blocks are at other addresses
  have hkeep (c : Block) (hc : c ∈ live ++ after) : c.entry ≠ b.entry := by
    intro heq
    have haddress : c.address = b.address := congrArg EfiAllocationEntry.address heq
    exact hnodup.1 (haddress ▸ List.mem_map_of_mem hc)
  have hlive : (live ++ b :: after).filter
      (fun c ↦ !(efiDeallocate table b.address).2.contains c.entry) = live ++ after := by
    rw [hcalls, List.filter_append, List.filter_cons_of_neg (by simp), ← List.filter_append,
      List.filter_eq_self]
    intro c hc
    simp [hkeep c hc]
  have hinv := h.deallocate b.address
  rw [State.step, State.freed, hlive] at hinv
  exact ⟨hcalls, hinv⟩

/-! ## What the stages write -/

section frame

variable {p : BootPages} {s : Boot} {mem : Mem} {x : BitVec 64}

/-- The pages of a block hold what was asked for. -/
theorem Block.covers_of_lt {b : Block} (hsize : b.size.toNat ≤ 2 ^ 64 - 4096)
    (hx : (x - b.address).toNat < b.size.toNat) : b.Covers x := by
  rw [Block.Covers, pageBytes, toNat_numPages_of_le hsize]
  omega

/-- A table of up to 256 gates is in one page, with the byte that is copied too much. -/
theorem idtBlock_covers_iff (h : FirmwareTables p s) :
    (idtBlock p s).Covers x ↔ (x - p.idt).toNat < 4096 := by
  have hmin := h.idt_min
  have hmax := h.idt_max
  have hsize : (BitVec.ofNat 64 (customIdtSize s.idtr)).toNat = 16 * (s.idtr.limit.toNat / 16) := by
    rw [BitVec.toNat_ofNat, customIdtSize, idtEntries]
    omega
  have hpages : (numPages (BitVec.ofNat 64 (customIdtSize s.idtr))).toNat = 1 := by
    rw [toNat_numPages_of_le (by omega), hsize]
    omega
  rw [Block.Covers, idtBlock, pageBytes, hpages, Nat.mul_one]

theorem toNat_size_gdtBlock (p : BootPages) (s : Boot) :
    (gdtBlock p s).size.toNat = 16 * (s.gdtr.limit.toNat + 1) := by
  have hlimit := s.gdtr.limit.isLt
  rw [gdtBlock, BitVec.toNat_ofNat, newGdtSize, gdtEntries]
  omega

theorem gdtBlock_covers_of_lt (hx : (x - p.gdt).toNat < newGdtSize s.gdtr) :
    (gdtBlock p s).Covers x := by
  have hlimit := s.gdtr.limit.isLt
  have hsize := toNat_size_gdtBlock p s
  apply Block.covers_of_lt
  · omega
  · rw [hsize]
    rw [newGdtSize, gdtEntries] at hx
    exact hx

/-- `efi_idt_init` writes in the page of its table only. -/
theorem efiIdtInit_of_not_covers (h : FirmwareTables p s) (hx : ¬ (idtBlock p s).Covers x)
    (stub : Exception → BitVec 64) : efiIdtInit s.idtr mem p.idt stub x = mem x := by
  rw [idtBlock_covers_iff h] at hx
  have hmax := h.idt_max
  refine overwrite_of_none (fun r hr hover ↦ hx ?_) mem
  rcases List.mem_cons.mp hr with rfl | hr
  · exact Nat.lt_of_lt_of_le hover (by simp only [copyRun]; omega)
  · obtain ⟨⟨e, part⟩, -, rfl⟩ := List.mem_map.mp hr
    have hindex := e.index_lt
    have hlt := (x - p.idt).isLt
    change (x - (p.idt + BitVec.ofNat 64 (16 * e.index + part.offset))).toNat < part.size at hover
    rw [← BitVec.sub_sub, BitVec.toNat_sub, BitVec.toNat_ofNat] at hover
    cases part <;> simp only [IsrPart.offset, IsrPart.size] at hover <;> omega

/-- The descriptor of the task state segment is in the pages of the GDT. -/
theorem le_sub_tssDescriptor (h : FirmwareTables p s) (hx : ¬ (gdtBlock p s).Covers x) :
    16 ≤ (x - tssDescriptor s.gdtr p.gdt).toNat := by
  have hlt : newGdtSize s.gdtr ≤ (x - p.gdt).toNat :=
    Nat.le_of_not_lt fun hlt ↦ hx (gdtBlock_covers_of_lt hlt)
  have hmin := h.gdt_min
  have hmax := h.gdt_max
  rw [newGdtSize, gdtEntries] at hlt
  rw [tssDescriptor_eq h.gdt_dvd hmax, ← BitVec.sub_sub, BitVec.toNat_sub, BitVec.toNat_ofNat]
  omega

/-- `efi_gdt_init` writes in the pages of its table and in the task state segment only. -/
theorem clonedGdt_of_not_covers (h : FirmwareTables p s) {newTss : BitVec 64}
    {fills : GdtFills} (hx : ¬ (gdtBlock p s).Covers x) (htss : tssSize ≤ (x - newTss).toNat) :
    clonedGdt s.gdtr mem p.gdt newTss fills x = mem x := by
  have hentry := le_sub_tssDescriptor h hx
  have hcopy : ¬ (x - p.gdt).toNat < s.gdtr.limit.toNat := by
    refine fun hlt ↦ hx (gdtBlock_covers_of_lt ?_)
    rw [newGdtSize, gdtEntries]
    omega
  rw [clonedGdt, ltr_of_outside hentry, efiGdtInit, memset_of_outside htss,
    writeTssDescriptor_of_outside hentry, memcpy, if_neg hcopy]

variable {fw : BootFirmware} {g : Globals}

/-- Without a block for the file, nothing is read. -/
theorem efiLoaderInit_of_none (hfile : fileBlock fw p s = none)
    (hfs : g.filesystems = (efiFsInit fw.fs s.globals.filesystems.fsRoots).1) :
    (efiLoaderInit fw.loader g).image = g.image ∧
      (efiLoaderInit fw.loader g).allocations = g.allocations := by
  rw [fileBlock, ← hfs] at hfile
  rw [efiLoaderInit]
  split
  · exact ⟨rfl, rfl⟩
  · rename_i hfound
    rw [if_neg hfound, Option.map_eq_none_iff] at hfile
    rw [hfile]
    exact ⟨rfl, rfl⟩

theorem fileBlock_address {b : Block} (hfile : fileBlock fw p s = some b) :
    b.address = p.buffer := by
  rw [fileBlock] at hfile
  split at hfile
  · exact absurd hfile (by simp)
  · obtain ⟨fileSize, -, rfl⟩ := Option.map_eq_some_iff.mp hfile
    rfl

/-- What `read` puts into the buffer. -/
def fileRun (fw : BootFirmware) (buffer : BitVec 64) : Run where
  start := buffer
  size := fw.loader.read.bytes.length
  byte off := fw.loader.read.bytes.getD off.toNat 0

/-- The file is read into its block. -/
theorem efiLoaderInit_of_some {b : Block} (hfile : fileBlock fw p s = some b)
    (hfs : g.filesystems = (efiFsInit fw.fs s.globals.filesystems.fsRoots).1)
    (hpages : fw.loader.bufferPages = some p.buffer) :
    (efiLoaderInit fw.loader g).allocations =
        (efiAllocate g.allocations b.size (some b.address)).1 ∧
      (efiLoaderInit fw.loader g).visorReal =
        (efiAllocate g.allocations b.size (some b.address)).2 ∧
      (efiLoaderInit fw.loader g).image.mem =
        (fileRun fw (efiLoaderInit fw.loader g).visorReal).write g.image.mem := by
  rw [fileBlock, ← hfs] at hfile
  rw [efiLoaderInit]
  split
  · rename_i hzero
    rw [if_pos hzero] at hfile
    exact absurd hfile (by simp)
  · rename_i hfound
    rw [if_neg hfound, Option.map_eq_some_iff] at hfile
    obtain ⟨fileSize, hsize, rfl⟩ := hfile
    simp only [hsize, readVisor, hpages, true_and]
    rfl

end frame

end Hypervi.Loader
