import Hypervi.Memory.Byte

/-!
# The records of `elf.h`

The records of an ELF64 file that the mapper reads, with the members it reads, and the
offsets of these members in the file.  A file is a map from offsets to bytes.
-/

namespace Hypervi.Elf

open Memory

/-! ## The header -/

/-- `elf64_ehdr` -/
structure Elf64Ehdr where
  eEntry : BitVec 64
  ePhoff : BitVec 64
  eShoff : BitVec 64
  ePhnum : BitVec 16
  eShnum : BitVec 16
  eShstrndx : BitVec 16
deriving DecidableEq, Repr

/-- `sizeof(elf64_ehdr)` -/
def ehdrSize : Nat := 64

def Elf64Ehdr.read (file : Mem) : Elf64Ehdr where
  eEntry := member 8 file 0 24
  ePhoff := member 8 file 0 32
  eShoff := member 8 file 0 40
  ePhnum := member 2 file 0 56
  eShnum := member 2 file 0 60
  eShstrndx := member 2 file 0 62

/-! ## Program headers -/

/-- `elf64_phdr` -/
structure Elf64Phdr where
  pType : BitVec 32
  pOffset : BitVec 64
  pVaddr : BitVec 64
  pFilesz : BitVec 64
  pMemsz : BitVec 64
deriving DecidableEq, Repr

/-- `sizeof(elf64_phdr)` -/
def phdrSize : Nat := 56

/-- `PT_LOAD` -/
def ptLoad : BitVec 32 := 1

def Elf64Phdr.read (file : Mem) (off : BitVec 64) : Elf64Phdr where
  pType := member 4 file off 0
  pOffset := member 8 file off 8
  pVaddr := member 8 file off 16
  pFilesz := member 8 file off 32
  pMemsz := member 8 file off 40

/-! ## Section headers -/

/-- `elf_section_type`.  A file may hold any number here. -/
abbrev ElfSectionType := BitVec 32

namespace ElfSectionType

def strtab : ElfSectionType := 3
def rela : ElfSectionType := 4
def dynsym : ElfSectionType := 11

end ElfSectionType

/-- `elf64_shdr` -/
structure Elf64Shdr where
  shName : BitVec 32
  shType : ElfSectionType
  shAddr : BitVec 64
  shOffset : BitVec 64
  shSize : BitVec 64
deriving DecidableEq, Repr

/-- `sizeof(elf64_shdr)` -/
def shdrSize : Nat := 64

def Elf64Shdr.read (file : Mem) (off : BitVec 64) : Elf64Shdr where
  shName := member 4 file off 0
  shType := member 4 file off 4
  shAddr := member 8 file off 16
  shOffset := member 8 file off 24
  shSize := member 8 file off 32

/-! ## Symbols and relocations -/

/-- `elf64_sym` -/
structure Elf64Sym where
  stName : BitVec 32
  stValue : BitVec 64
deriving DecidableEq, Repr

/-- `sizeof(elf64_sym)` -/
def symSize : Nat := 24

def Elf64Sym.read (file : Mem) (off : BitVec 64) : Elf64Sym where
  stName := member 4 file off 0
  stValue := member 8 file off 8

/-- `elf64_rela` -/
structure Elf64Rela where
  rOffset : BitVec 64
  rInfo : BitVec 64
  rAddend : BitVec 64
deriving DecidableEq, Repr

/-- `sizeof(elf64_rela)` -/
def relaSize : Nat := 24

def Elf64Rela.read (file : Mem) (off : BitVec 64) : Elf64Rela where
  rOffset := member 8 file off 0
  rInfo := member 8 file off 8
  rAddend := member 8 file off 16

/-- `elf64_r_type` -/
abbrev Elf64RType := BitVec 32

namespace Elf64RType

def globDat : Elf64RType := 6
def junpSlot : Elf64RType := 7
def relative : Elf64RType := 8

end Elf64RType

/-- `elf64_r_get_type` -/
def elf64RGetType (info : BitVec 64) : Elf64RType := info.setWidth 32

/-- `elf64_r_get_sym` -/
def elf64RGetSym (info : BitVec 64) : BitVec 32 := (info >>> 32).setWidth 32

/-- The offset of the `i`-th record of a table of records of the given size. -/
def recordAt (table : BitVec 64) (size i : Nat) : BitVec 64 := table + BitVec.ofNat 64 (size * i)

/-! ## Files written down member by member -/

/-- A file given by its members: offset, size and value of each, and zeros between. -/
def fileOf (members : List (Nat × Nat × Nat)) : Mem := fun off ↦
  match members.find? fun e ↦ decide (e.1 ≤ off.toNat ∧ off.toNat < e.1 + e.2.1) with
  | some e => BitVec.ofNat 8 (e.2.2 >>> (8 * (off.toNat - e.1)))
  | none => 0

/-- A text. -/
def textMembers (off : Nat) (text : List Char) : List (Nat × Nat × Nat) :=
  [(off, text.length, text.foldr (fun c n ↦ c.toNat + 256 * n) 0)]

/-- The header of a shared object for x86-64. -/
def ehdrMembers (phoff phnum shoff shnum shstrndx : Nat) : List (Nat × Nat × Nat) :=
  [(0, 8, 0x10102464C457F), (16, 2, 3), (18, 2, 62), (20, 4, 1), (32, 8, phoff), (40, 8, shoff),
    (52, 2, ehdrSize), (54, 2, phdrSize), (56, 2, phnum), (58, 2, shdrSize), (60, 2, shnum),
    (62, 2, shstrndx)]

/-- A program header at an offset of the file. -/
def phdrMembers (off type offset vaddr filesz memsz : Nat) : List (Nat × Nat × Nat) :=
  [(off, 4, type), (off + 8, 8, offset), (off + 16, 8, vaddr), (off + 24, 8, vaddr),
    (off + 32, 8, filesz), (off + 40, 8, memsz)]

/-- A section header. -/
def shdrMembers (off name type addr offset size : Nat) : List (Nat × Nat × Nat) :=
  [(off, 4, name), (off + 4, 4, type), (off + 16, 8, addr), (off + 24, 8, offset),
    (off + 32, 8, size)]

/-- A symbol. -/
def symMembers (off name value : Nat) : List (Nat × Nat × Nat) :=
  [(off, 4, name), (off + 8, 8, value)]

/-- A relocation. -/
def relaMembers (off offset type sym addend : Nat) : List (Nat × Nat × Nat) :=
  [(off, 8, offset), (off + 8, 8, 2 ^ 32 * sym + type), (off + 16, 8, addend)]

end Hypervi.Elf
