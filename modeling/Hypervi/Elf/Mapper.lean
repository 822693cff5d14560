import Hypervi.Control
import Hypervi.Elf.Format
import Hypervi.Freestanding.Libc
import Hypervi.Memory.Patch
import Hypervi.Memory.Runs

/-!
# `elf_mapper`

The class `elf_mapper` lays an ELF file out in memory.  `map_to` copies the ELF header
and the segments, and then goes through the section table once: a section named `.got`
has the load base added to each of its words, and the entries of a relocation section
are applied, in the order in which the sections stand.

The file is a map from offsets to bytes; the image is memory of its own.  A table of
the file is a function from indices to records, as `m_phdrs[i]` and `m_shdrs[i]` are.

`mapTo_mem` is what later modules reason with: the memory that `map_to` leaves is a list
of runs (`segmentRuns`) followed by a list of patches of words (`patches`), and the bytes
it writes are those of the header, of the runs and of the patches (`wrote_mapTo`).
-/

namespace Hypervi.Elf

open Memory Freestanding

/-! ## The image being written -/

/-- Memory, and the runs of bytes written so far, the latest first. -/
structure Image where
  mem : Mem
  written : List (BitVec 64 × Nat)

namespace Image

/-- The byte at `x` has been written. -/
def Wrote (im : Image) (x : BitVec 64) : Prop := ∃ r ∈ im.written, (x - r.1).toNat < r.2

def writeRun (im : Image) (r : Run) : Image where
  mem := r.write im.mem
  written := (r.start, r.size) :: im.written

/-- `_movsb`, from an offset of the file. -/
def movsb (im : Image) (buf : BitVec 64) (file : Mem) (val size : BitVec 64) : Image :=
  im.writeRun ⟨buf, size.toNat, fun off ↦ file (val + off)⟩

/-- `_stosb`.  The routine stores `al`, which it does not load from its argument. -/
def stosb (im : Image) (buf : BitVec 64) (al : BitVec 8) (size : BitVec 64) : Image :=
  im.writeRun ⟨buf, size.toNat, fun _ ↦ al⟩

/-- `*ptr` -/
def loadWord (im : Image) (ptr : BitVec 64) : BitVec 64 := load64 im.mem ptr

/-- `*ptr = value` -/
def storeWord (im : Image) (ptr value : BitVec 64) : Image where
  mem := store64 im.mem ptr value
  written := (ptr, 8) :: im.written

/-- The word at the target of a patch is replaced. -/
def patch (im : Image) (p : Patch) : Image := im.storeWord p.target (p.op (im.loadWord p.target))

def patchAll (im : Image) (ps : List Patch) : Image := ps.foldl patch im

section lemmas

variable {im : Image} {x : BitVec 64}

theorem wrote_cons {m : Mem} {r : BitVec 64 × Nat} {rs : List (BitVec 64 × Nat)} :
    (Image.mk m (r :: rs)).Wrote x ↔ (Image.mk m rs).Wrote x ∨ (x - r.1).toNat < r.2 := by
  simp only [Wrote, List.mem_cons, exists_eq_or_imp]
  exact or_comm

theorem wrote_writeRun {r : Run} : (im.writeRun r).Wrote x ↔ im.Wrote x ∨ r.Over x := wrote_cons

theorem wrote_patch {p : Patch} :
    (im.patch p).Wrote x ↔ im.Wrote x ∨ (x - p.target).toNat < 8 := wrote_cons

theorem patchAll_append (im : Image) (ps qs : List Patch) :
    im.patchAll (ps ++ qs) = (im.patchAll ps).patchAll qs := List.foldl_append

theorem patchAll_mem (im : Image) (ps : List Patch) :
    (im.patchAll ps).mem = Memory.patchAll ps im.mem := by
  induction ps generalizing im with
  | nil => rfl
  | cons p ps ih => exact ih (im.patch p)

theorem wrote_patchAll {ps : List Patch} :
    (im.patchAll ps).Wrote x ↔ im.Wrote x ∨ ∃ p ∈ ps, (x - p.target).toNat < 8 := by
  induction ps generalizing im with
  | nil => simp [patchAll]
  | cons p ps ih =>
      have hstep : im.patchAll (p :: ps) = (im.patch p).patchAll ps := rfl
      rw [hstep, ih, wrote_patch, or_assoc]
      simp only [List.mem_cons, exists_eq_or_imp]

/-- A loop that patches some words in each iteration. -/
theorem forRange_patchAll (f : Nat → List Patch) (n : Nat) (im : Image) :
    forRange n (fun i im ↦ im.patchAll (f i)) im = im.patchAll ((List.range n).flatMap f) := by
  induction n with
  | zero => rfl
  | succ n ih =>
      rw [forRange_succ, ih, List.range_succ, List.flatMap_append, patchAll_append,
        List.flatMap_singleton]

end lemmas

end Image

/-! ## The class -/

/-- `elf_import` -/
structure ElfImport where
  name : CString
  address : BitVec 64

/-- `elf_mapper`, with the contents of the file for the pointer to it. -/
structure ElfMapper where
  mFile : Mem
  mImports : List ElfImport
  mEhdr : Elf64Ehdr
  mPhdrs : Nat → Elf64Phdr
  mShdrs : Nat → Elf64Shdr

/-- What the machine has that neither the file nor the mapper determines: `al` when the
`i`-th program header is filled, and the memory at address zero, which a pointer that is
still null reads. -/
structure Machine where
  al : Nat → BitVec 8
  null : Mem

/-- `.got` -/
def gotName : CString := .ofChars ['.', 'g', 'o', 't'] rfl

/-- `.dynstr` -/
def dynstrName : CString := .ofChars ['.', 'd', 'y', 'n', 's', 't', 'r'] rfl

namespace ElfMapper

/-- The constructor. -/
def ofFile (file : Mem) (imports : List ElfImport) : ElfMapper where
  mFile := file
  mImports := imports
  mEhdr := .read file
  mPhdrs i := .read file (recordAt (Elf64Ehdr.read file).ePhoff phdrSize i)
  mShdrs i := .read file (recordAt (Elf64Ehdr.read file).eShoff shdrSize i)

section model

variable (m : ElfMapper) (env : Machine) (mapped : BitVec 64)

/-- `e_phnum` -/
def phnum : Nat := m.mEhdr.ePhnum.toNat

/-- `e_shnum` -/
def shnum : Nat := m.mEhdr.eShnum.toNat

/-- `get_mapped_size` -/
def getMappedSize : BitVec 64 :=
  forRange m.phnum (fun i result ↦
    let off := (m.mPhdrs i).pVaddr + (m.mPhdrs i).pMemsz
    if result < off then off else result) 0

/-- `get_entrypoint` -/
def getEntrypoint : BitVec 64 := mapped + m.mEhdr.eEntry

/-! ### Looking things up in the file -/

/-- The name of a section, in the section that `e_shstrndx` names. -/
def sectionName (sec : Elf64Shdr) : Nat → BitVec 8 := fun k ↦
  m.mFile ((m.mShdrs m.mEhdr.eShstrndx.toNat).shOffset + sec.shName.setWidth 64 +
    BitVec.ofNat 64 k)

/-- `strcmp(section_name, name) == 0` -/
def isNamed (sec : Elf64Shdr) (name : CString) : Bool :=
  strcmp name.length (m.sectionName sec) name.char == 0

/-- The first section header that the test accepts. -/
def findSection (test : Elf64Shdr → Bool) : Option Elf64Shdr :=
  ((List.range m.shnum).map m.mShdrs).find? test

/-- `dynstr_section`.  The source keeps a pointer to the copy of the header that the loop
has made; here it is the copy. -/
def dynstrSection : Option Elf64Shdr :=
  m.findSection fun sec ↦ sec.shType == .strtab && m.isNamed sec dynstrName

/-- The section that `dynsyms` points to. -/
def dynsymSection : Option Elf64Shdr := m.findSection fun sec ↦ sec.shType == .dynsym

/-- `dynstr_section->sh_offset` -/
def dynstrOffset : BitVec 64 :=
  match m.dynstrSection with
  | some sec => sec.shOffset
  | none => member 8 env.null 0 24

/-- `dynsyms[sym]` -/
def dynsym (sym : BitVec 32) : Elf64Sym :=
  match m.dynsymSection with
  | some sec => .read m.mFile (recordAt sec.shOffset symSize sym.toNat)
  | none => .read env.null (recordAt 0 symSize sym.toNat)

/-- `reloc_name` -/
def symbolName (sym : BitVec 32) : Nat → BitVec 8 := fun k ↦
  m.mFile (m.dynstrOffset env + (m.dynsym env sym).stName.setWidth 64 + BitVec.ofNat 64 k)

/-- `resolve_import` -/
def resolveImport (name : Nat → BitVec 8) : BitVec 64 :=
  match m.mImports.find? fun imp ↦ strcmp imp.name.length imp.name.char name == 0 with
  | some imp => imp.address
  | none => 0

/-! ### `map_to` -/

/-- The loop over the program headers: one of them. -/
def mapHeader (i : Nat) (im : Image) : Image :=
  let phdr := m.mPhdrs i
  let target := mapped + phdr.pVaddr
  if phdr.pType &&& ptLoad ≠ 0 then
    im.movsb target m.mFile phdr.pOffset phdr.pFilesz
  else if 0 < phdr.pMemsz then
    im.stosb target (env.al i) phdr.pMemsz
  else
    im

/-- `relocs[reli]`, for the table of relocations at an offset of the file. -/
def rela (relocs : BitVec 64) (reli : Nat) : Elf64Rela :=
  .read m.mFile (recordAt relocs relaSize reli)

/-- A section named `.got`: the base is added to each of its words. -/
def adjustGot (sec : Elf64Shdr) (im : Image) : Image :=
  forRange (sec.shSize.toNat / 8) (fun k im ↦
    let entry := mapped + sec.shAddr + BitVec.ofNat 64 (8 * k)
    im.storeWord entry (mapped + im.loadWord entry)) im

/-- One relocation, the `reli`-th of the `i`-th section. -/
def relocate (i : Nat) (relocs : BitVec 64) (reli : Nat) (im : Image) : Image :=
  let info := (m.rela relocs reli).rInfo
  let type := elf64RGetType info
  let sym := elf64RGetSym info
  let relocPtr := mapped + (m.rela relocs reli).rOffset
  if type = .relative then
    im.storeWord relocPtr (im.loadWord relocPtr + mapped)
  else if type = .junpSlot ∨ type = .globDat then
    if (m.dynsym env sym).stValue = 0 then
      im.storeWord relocPtr (m.resolveImport (m.symbolName env sym))
    else
      -- `relocs[i]`, where `i` is the index of the section
      im.storeWord relocPtr ((m.dynsym env sym).stValue + (m.rela relocs i).rAddend)
  else
    im

/-- The number of relocations in a section. -/
def relocCount (sec : Elf64Shdr) : Nat := sec.shSize.toNat / relaSize

/-- The loop over the sections: one of them. -/
def relocateSection (i : Nat) (im : Image) : Image :=
  let sec := m.mShdrs i
  let im := if m.isNamed sec gotName then adjustGot mapped sec im else im
  if sec.shType = .rela then
    forRange (relocCount sec) (fun reli im ↦ m.relocate env mapped i sec.shOffset reli im) im
  else
    im

/-- The loop over the program headers. -/
def mapHeaders (im : Image) : Image :=
  forRange m.phnum (fun i im ↦ m.mapHeader env mapped i im) im

/-- The loop over the sections. -/
def relocateSections (im : Image) : Image :=
  forRange m.shnum (fun i im ↦ m.relocateSection env mapped i im) im

/-- `map_to` -/
def mapTo (im : Image) : Image :=
  let im := im.movsb mapped m.mFile 0 (BitVec.ofNat 64 ehdrSize)
  let im := m.mapHeaders env mapped im
  m.relocateSections env mapped im

end model

theorem isNamed_iff (m : ElfMapper) (sec : Elf64Shdr) (name : CString) :
    m.isNamed sec name = true ↔ Spells (m.sectionName sec) name := by
  rw [isNamed, beq_iff_eq]
  exact strcmp_char_eq_zero_iff _ name

/-! ## What `map_to` amounts to -/

section spec

variable (m : ElfMapper) (env : Machine) (mapped : BitVec 64)

/-- What a program header puts into the image. -/
def phdrRun (al : BitVec 8) (phdr : Elf64Phdr) : Run :=
  if phdr.pType &&& ptLoad ≠ 0 then
    ⟨mapped + phdr.pVaddr, phdr.pFilesz.toNat, fun off ↦ m.mFile (phdr.pOffset + off)⟩
  else
    ⟨mapped + phdr.pVaddr, phdr.pMemsz.toNat, fun _ ↦ al⟩

/-- The run of the `i`-th program header. -/
def segmentRun (i : Nat) : Run := m.phdrRun mapped (env.al i) (m.mPhdrs i)

def segmentRuns : List Run := (List.range m.phnum).map (m.segmentRun env mapped)

/-- The additions of the base to the words of a section. -/
def gotPatches (sec : Elf64Shdr) : List Patch :=
  (List.range (sec.shSize.toNat / 8)).map fun k ↦
    ⟨mapped + sec.shAddr + BitVec.ofNat 64 (8 * k), fun v ↦ mapped + v⟩

/-- The word that a relocation against a symbol stores. -/
def boundValue (i : Nat) (relocs : BitVec 64) (reli : Nat) : BitVec 64 :=
  let sym := elf64RGetSym (m.rela relocs reli).rInfo
  if (m.dynsym env sym).stValue = 0 then m.resolveImport (m.symbolName env sym)
  else (m.dynsym env sym).stValue + (m.rela relocs i).rAddend

/-- The patch that a relocation makes, if it is of a type that the mapper knows. -/
def relocPatch (i : Nat) (relocs : BitVec 64) (reli : Nat) : Option Patch :=
  let type := elf64RGetType (m.rela relocs reli).rInfo
  let relocPtr := mapped + (m.rela relocs reli).rOffset
  if type = .relative then some ⟨relocPtr, fun v ↦ v + mapped⟩
  else if type = .junpSlot ∨ type = .globDat then
    some ⟨relocPtr, fun _ ↦ m.boundValue env i relocs reli⟩
  else none

def relaPatches (i : Nat) (sec : Elf64Shdr) : List Patch :=
  (List.range (relocCount sec)).filterMap (m.relocPatch env mapped i sec.shOffset)

/-- The patches of the `i`-th section. -/
def sectionPatches (i : Nat) : List Patch :=
  (if m.isNamed (m.mShdrs i) gotName then gotPatches mapped (m.mShdrs i) else []) ++
    if (m.mShdrs i).shType = .rela then m.relaPatches env mapped i (m.mShdrs i) else []

def patches : List Patch := (List.range m.shnum).flatMap (m.sectionPatches env mapped)

/-- One program header writes its run, or nothing when the run is empty. -/
theorem mapHeader_eq (i : Nat) (im : Image) :
    m.mapHeader env mapped i im = im.writeRun (m.segmentRun env mapped i) ∨
      m.mapHeader env mapped i im = im ∧ (m.segmentRun env mapped i).size = 0 := by
  simp only [mapHeader, segmentRun, phdrRun]
  by_cases hload : (m.mPhdrs i).pType &&& ptLoad ≠ 0
  · simp only [if_pos hload]
    exact .inl rfl
  · simp only [if_neg hload]
    by_cases hmemsz : 0 < (m.mPhdrs i).pMemsz
    · rw [if_pos hmemsz]
      exact .inl rfl
    · rw [if_neg hmemsz]
      exact .inr ⟨rfl, Nat.eq_zero_of_not_pos hmemsz⟩

theorem mapHeader_mem (i : Nat) (im : Image) :
    (m.mapHeader env mapped i im).mem = (m.segmentRun env mapped i).write im.mem := by
  rcases m.mapHeader_eq env mapped i im with heq | ⟨heq, hsize⟩
  · rw [heq]
    rfl
  · rw [heq]
    funext x
    exact (Run.write_of_not_over (Run.not_over_of_size hsize) im.mem).symm

theorem wrote_mapHeader (i : Nat) (im : Image) (x : BitVec 64) :
    (m.mapHeader env mapped i im).Wrote x ↔ im.Wrote x ∨ (m.segmentRun env mapped i).Over x := by
  rcases m.mapHeader_eq env mapped i im with heq | ⟨heq, hsize⟩
  · rw [heq]
    exact Image.wrote_writeRun
  · rw [heq, or_iff_left (Run.not_over_of_size hsize)]

theorem mapHeaders_mem (im : Image) :
    (m.mapHeaders env mapped im).mem = overwrite (m.segmentRuns env mapped) im.mem := by
  unfold mapHeaders segmentRuns
  induction m.phnum with
  | zero => rfl
  | succ n ih =>
      rw [forRange_succ, mapHeader_mem, ih, List.range_succ, List.map_append, overwrite_append]
      rfl

theorem wrote_mapHeaders (im : Image) (x : BitVec 64) :
    (m.mapHeaders env mapped im).Wrote x ↔
      im.Wrote x ∨ ∃ i < m.phnum, (m.segmentRun env mapped i).Over x := by
  unfold mapHeaders
  induction m.phnum with
  | zero => simp [forRange]
  | succ n ih =>
      rw [forRange_succ, wrote_mapHeader, ih, or_assoc]
      simp only [Nat.lt_succ_iff_lt_or_eq, or_and_right, exists_or, exists_eq_left]

theorem adjustGot_eq (sec : Elf64Shdr) (im : Image) :
    adjustGot mapped sec im = im.patchAll (gotPatches mapped sec) := by
  rw [gotPatches, List.map_eq_flatMap, ← Image.forRange_patchAll]
  rfl

theorem relocate_eq (i : Nat) (relocs : BitVec 64) (reli : Nat) (im : Image) :
    m.relocate env mapped i relocs reli im =
      im.patchAll (m.relocPatch env mapped i relocs reli).toList := by
  simp only [relocate, relocPatch, boundValue]
  split
  · rfl
  · split
    · split
      · rfl
      · rfl
    · rfl

theorem relocateSection_eq (i : Nat) (im : Image) :
    m.relocateSection env mapped i im = im.patchAll (m.sectionPatches env mapped i) := by
  have hrela (sec : Elf64Shdr) (im : Image) :
      forRange (relocCount sec) (fun reli im ↦ m.relocate env mapped i sec.shOffset reli im) im =
        im.patchAll (m.relaPatches env mapped i sec) := by
    simp only [relocate_eq]
    rw [Image.forRange_patchAll, relaPatches, List.filterMap_eq_flatMap_toList]
  simp only [relocateSection, sectionPatches, Image.patchAll_append, adjustGot_eq, hrela]
  split
  · split
    · rfl
    · rfl
  · split
    · rfl
    · rfl

theorem relocateSections_eq (im : Image) :
    m.relocateSections env mapped im = im.patchAll (m.patches env mapped) := by
  simp only [relocateSections, relocateSection_eq]
  exact Image.forRange_patchAll _ _ im

/-- The run of the ELF header. -/
def ehdrRun : Run := ⟨mapped, ehdrSize, fun off ↦ m.mFile (0 + off)⟩

/-- Memory before the sections are looked at. -/
def loaded (mem : Mem) : Mem :=
  overwrite (m.segmentRuns env mapped) ((m.ehdrRun mapped).write mem)

theorem mapTo_mem (im : Image) :
    (m.mapTo env mapped im).mem = patchAll (m.patches env mapped) (m.loaded env mapped im.mem) := by
  rw [mapTo, relocateSections_eq, Image.patchAll_mem, mapHeaders_mem]
  rfl

/-- The bytes that `map_to` writes. -/
theorem wrote_mapTo (im : Image) (x : BitVec 64) :
    (m.mapTo env mapped im).Wrote x ↔
      im.Wrote x ∨ (m.ehdrRun mapped).Over x ∨
        (∃ i < m.phnum, (m.segmentRun env mapped i).Over x) ∨
        ∃ p ∈ m.patches env mapped, (x - p.target).toNat < 8 := by
  rw [mapTo, relocateSections_eq, Image.wrote_patchAll, wrote_mapHeaders, ← or_assoc, ← or_assoc]
  rw [show (im.movsb mapped m.mFile 0 (BitVec.ofNat 64 ehdrSize)).Wrote x ↔
    im.Wrote x ∨ (m.ehdrRun mapped).Over x from Image.wrote_writeRun]

/-- The other bytes stay. -/
theorem mapTo_mem_of_not_wrote {im : Image} {x : BitVec 64}
    (hx : ¬ (m.mapTo env mapped im).Wrote x) : (m.mapTo env mapped im).mem x = im.mem x := by
  rw [wrote_mapTo, not_or, not_or, not_or] at hx
  obtain ⟨-, hheader, hsegments, hpatches⟩ := hx
  have houtside : ∀ p ∈ m.patches env mapped, 8 ≤ (x - p.target).toNat :=
    fun p hp ↦ Nat.le_of_not_lt fun hlt ↦ hpatches ⟨p, hp, hlt⟩
  have hruns : ∀ i ∈ List.range m.phnum, ¬ (m.segmentRun env mapped i).Over x :=
    fun i hi hover ↦ hsegments ⟨i, List.mem_range.mp hi, hover⟩
  rw [mapTo_mem, patchAll_of_outside houtside, loaded, segmentRuns, overwrite_map_of_none hruns]
  exact Run.write_of_not_over hheader im.mem

end spec

end ElfMapper

end Hypervi.Elf
