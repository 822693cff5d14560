import Hypervi.Elf.Bounds
import Hypervi.Loader.Allocator
import Hypervi.Loader.Fs

/-!
# Loading the hypervisor

`efi_loader_init` reads the hypervisor into a buffer, and returns early where a step fails.
`efi_loader_map` has only the globals to go by and tests none of them: it maps whatever is
at `visor_real` to `visor_mapped`, which is not null to begin with, and calls the entry
point.

So each run ends in a call of `hypervisor_main` (`efiMain_entered`) and has the header
written to `visor_mapped` (`efiMain_mapped`), and control passes only to a hypervisor that
has been loaded exactly when nothing fails (`onlyLoaded_iff`).
-/

namespace Hypervi.Loader

open Memory Freestanding Elf

/-! ## The firmware and the globals -/

/-- The answer to `read`: the status, and the bytes put into the buffer. -/
structure ReadAnswer where
  success : Bool
  bytes : List (BitVec 8)

/-- The answers of the firmware. -/
structure LoaderFirmware where
  openFile : OpenFile
  /-- `get_info`: the size of the file, if it succeeds. -/
  getInfo : Option (BitVec 64)
  /-- `allocate_pages`, for the buffer. -/
  bufferPages : Option (BitVec 64)
  read : ReadAnswer
  /-- `allocate_pages`, for the image. -/
  imagePages : Option (BitVec 64)

/-- The globals, and memory with the runs that the loader has had written. -/
structure Globals where
  filesystems : Filesystems
  allocations : EfiAllocations
  visorFile : BitVec 64
  visorReal : BitVec 64
  visorMapped : BitVec 64
  image : Image
  /-- The runs that `map_to` wrote. -/
  mapped : List (BitVec 64 × Nat)
  /-- The calls of `hypervisor_main`. -/
  entered : List (BitVec 64)

/-- The loader before `efi_loader_init`. -/
def Globals.initial (filesystems : Filesystems) (allocations : EfiAllocations) (memory : Mem) :
    Globals where
  filesystems := filesystems
  allocations := allocations
  visorFile := 0
  visorReal := 0
  visorMapped := 0x00800000
  image := ⟨memory, []⟩
  mapped := []
  entered := []

/-- The addresses of the functions that the loader exports. -/
structure Exports where
  impLog : BitVec 64
  impLogHex : BitVec 64
  impCoreWhoami : BitVec 64
  impCoreCount : BitVec 64
  impCallOnAllCores : BitVec 64
  impMalloc : BitVec 64

/-- `efi_loader_imports` -/
def efiLoaderImports (exports : Exports) : List ElfImport :=
  [⟨.ofChars "ldr_log".toList rfl, exports.impLog⟩,
    ⟨.ofChars "ldr_log_hex".toList rfl, exports.impLogHex⟩,
    ⟨.ofChars "ldr_core_whoami".toList rfl, exports.impCoreWhoami⟩,
    ⟨.ofChars "ldr_core_count".toList rfl, exports.impCoreCount⟩,
    ⟨.ofChars "ldr_call_on_all_cores".toList rfl, exports.impCallOnAllCores⟩,
    ⟨.ofChars "ldr_malloc".toList rfl, exports.impMalloc⟩]

/-! ## The code -/

/-- `L"\\VIOLET\\VIOLET.ELF"` -/
def visorPath : List (BitVec 16) :=
  "\\VIOLET\\VIOLET.ELF".toList.map fun c ↦ BitVec.ofNat 16 c.toNat

/-- `efi_fp_mode::read` -/
def readMode : BitVec 64 := 1

/-- What `efi_loader_init` does once it has the size of the file. -/
def readVisor (fw : LoaderFirmware) (fileSize : BitVec 64) (s : Globals) : Globals :=
  let buffer := efiAllocate s.allocations fileSize fw.bufferPages
  let run : Run :=
    ⟨buffer.2, fw.read.bytes.length, fun off ↦ fw.read.bytes.getD off.toNat 0⟩
  -- the function returns next, whatever the status of `read` is
  { s with
    allocations := buffer.1
    visorReal := buffer.2
    image := s.image.writeRun run }

/-- `efi_loader_init` -/
def efiLoaderInit (fw : LoaderFirmware) (s : Globals) : Globals :=
  let visorFile := (efiFsFindFile fw.openFile s.filesystems visorPath readMode 0).1
  let s := { s with visorFile := visorFile }
  if visorFile = 0 then s
  else
    match fw.getInfo with
    | none => s
    | some fileSize => readVisor fw fileSize s

/-- The mapper of `efi_loader_map`.  It has the contents of the buffer as they are before
`map_to` writes. -/
def loaderMapper (exports : Exports) (s : Globals) : ElfMapper :=
  .ofFile (fun off ↦ s.image.mem (s.visorReal + off)) (efiLoaderImports exports)

/-- `efi_loader_map` -/
def efiLoaderMap (exports : Exports) (env : Machine) (fw : LoaderFirmware) (s : Globals) :
    Globals :=
  let mapper := loaderMapper exports s
  -- a call that fails leaves the pointer as it is
  let visorMapped := fw.imagePages.getD s.visorMapped
  let image := mapper.mapTo env visorMapped ⟨s.image.mem, []⟩
  { s with
    visorMapped := visorMapped
    image := ⟨image.mem, image.written ++ s.image.written⟩
    mapped := image.written
    entered := mapper.getEntrypoint visorMapped :: s.entered }

/-- The part of `efi_main` that is about the hypervisor. -/
def efiMain (exports : Exports) (env : Machine) (fw : LoaderFirmware) (s : Globals) : Globals :=
  efiLoaderMap exports env fw (efiLoaderInit fw s)

/-! ## Whether control passes to a loaded hypervisor only -/

section onlyLoaded

variable (exports : Exports) (env : Machine) (fw : LoaderFirmware) (s : Globals)

/-- Every step succeeded. -/
structure Loaded : Prop where
  found : (efiFsFindFile fw.openFile s.filesystems visorPath readMode 0).1 ≠ 0
  read : ∃ fileSize, fw.getInfo = some fileSize ∧
    (efiAllocate s.allocations fileSize fw.bufferPages).2 ≠ 0 ∧
    fw.read.success = true ∧ fw.read.bytes.length = fileSize.toNat
  pages : fw.imagePages.isSome

/-- `x` is in the buffer or in the pages of the image, as far as these were allocated. -/
def InAllocations (x : BitVec 64) : Prop :=
  (∃ fileSize, fw.getInfo = some fileSize ∧ (efiLoaderInit fw s).visorReal ≠ 0 ∧
    (x - (efiLoaderInit fw s).visorReal).toNat < pageBytes (numPages fileSize)) ∨
  ∃ pages, fw.imagePages = some pages ∧
    (loaderMapper exports (efiLoaderInit fw s)).InPages pages x

/-- The hypervisor is mapped and entered only when every step succeeded; otherwise nothing
outside the loader's allocations is written. -/
structure OnlyLoaded : Prop where
  entered : (efiMain exports env fw s).entered ≠ [] → Loaded fw s
  mapped : (efiMain exports env fw s).mapped ≠ [] → Loaded fw s
  written : ¬ Loaded fw s →
    ∀ x, (efiMain exports env fw s).image.Wrote x → InAllocations exports fw s x

end onlyLoaded

section lemmas

variable (exports : Exports) (env : Machine) (fw : LoaderFirmware) (s : Globals)

theorem visorMapped_efiLoaderInit : (efiLoaderInit fw s).visorMapped = s.visorMapped := by
  rw [efiLoaderInit]
  split
  · rfl
  · cases fw.getInfo <;> rfl

/-- Without pages for the image, `visor_mapped` is what it is to begin with. -/
theorem visorMapped_efiMain (hpages : fw.imagePages = none) :
    (efiMain exports env fw s).visorMapped = s.visorMapped := by
  rw [← visorMapped_efiLoaderInit fw s, efiMain, efiLoaderMap, hpages]
  rfl

/-- `hypervisor_main` is called in every run. -/
theorem efiMain_entered : (efiMain exports env fw s).entered ≠ [] := List.cons_ne_nil _ _

/-- The ELF header is written to `visor_mapped` in every run. -/
theorem efiMain_wrote {x : BitVec 64}
    (hx : (x - (efiMain exports env fw s).visorMapped).toNat < ehdrSize) :
    ∃ r ∈ (efiMain exports env fw s).mapped, (x - r.1).toNat < r.2 := by
  have hheader := (loaderMapper exports (efiLoaderInit fw s)).wrote_mapTo env
    (efiMain exports env fw s).visorMapped ⟨(efiLoaderInit fw s).image.mem, []⟩ x
  exact hheader.mpr (.inr (.inl hx))

theorem efiMain_mapped : (efiMain exports env fw s).mapped ≠ [] := by
  intro hnil
  obtain ⟨r, hr, -⟩ := efiMain_wrote exports env fw s (x := (efiMain exports env fw s).visorMapped)
    (by rw [BitVec.sub_self]; decide)
  rw [hnil] at hr
  exact List.not_mem_nil hr

end lemmas

/-- Control passes only to a loaded hypervisor, and nothing else is written to, exactly when
every step succeeds. -/
theorem onlyLoaded_iff (exports : Exports) (env : Machine) (fw : LoaderFirmware)
    (filesystems : Filesystems) (allocations : EfiAllocations) (memory : Mem) :
    OnlyLoaded exports env fw (Globals.initial filesystems allocations memory) ↔
      Loaded fw (Globals.initial filesystems allocations memory) := by
  constructor
  · intro h
    exact h.entered (efiMain_entered exports env fw _)
  · intro h
    exact ⟨fun _ ↦ h, fun _ ↦ h, fun hnot ↦ absurd h hnot⟩

/-- A firmware that has a file of one byte, and no pages for the image. -/
def noImagePages : LoaderFirmware where
  openFile _ _ _ _ := some 0x1000
  getInfo := some 1
  bufferPages := some 0x200000
  read := ⟨true, [0]⟩
  imagePages := none

/-- The globals with one volume, and nothing allocated. -/
def oneVolume : Globals :=
  .initial ⟨fun _ ↦ 0x2000, 1⟩ State.initial.table fun _ ↦ 0

/-- The loader with that firmware. -/
def noImagePagesRun : Globals :=
  efiMain ⟨0, 0, 0, 0, 0, 0⟩ ElfMapper.zeroMachine noImagePages oneVolume

/-- The image is mapped over the address that `visor_mapped` has to begin with, and
entered. -/
theorem noImagePages_entered :
    noImagePagesRun.visorMapped = 0x00800000 ∧ noImagePagesRun.entered ≠ [] ∧
    (∃ r ∈ noImagePagesRun.mapped, (0x00800000 - r.1).toNat < r.2) ∧
    ¬ OnlyLoaded ⟨0, 0, 0, 0, 0, 0⟩ ElfMapper.zeroMachine noImagePages oneVolume := by
  have hmapped : noImagePagesRun.visorMapped = 0x00800000 := visorMapped_efiMain _ _ _ _ rfl
  have hentered : noImagePagesRun.entered ≠ [] := efiMain_entered _ _ _ _
  refine ⟨hmapped, hentered, ?_, ?_⟩
  · apply efiMain_wrote
    rw [show (efiMain _ _ _ _).visorMapped = 0x00800000 from hmapped]
    decide
  · intro h
    exact absurd (h.entered hentered).pages Bool.false_ne_true

end Hypervi.Loader
