import Hypervi.Elf.Mapper

/-!
# Files without a dynamic string or symbol table

`map_to` looks up the section `.dynstr` and the dynamic symbols and keeps a null pointer
when there is none.  The loop over the relocations computes the name of the symbol of
each entry, through both pointers, before it looks at the type of the entry.

`tableReads` lists the reads through the two pointers, in order; `mapTo_null` says that it
is complete, and `noNullReads_iff` when none of them goes through a null pointer: a file
with a single relocation, of whatever type, needs both tables.
-/

namespace Hypervi.Elf

open Memory Freestanding

/-- The two pointers of `map_to` that a file may leave null. -/
inductive TablePointer where
  | dynstrSection | dynsyms
  deriving DecidableEq, Repr

namespace ElfMapper

section reads

variable (m : ElfMapper) (env : Machine)

/-- The pointer is still null after the lookups. -/
def isNull : TablePointer → Bool
  | .dynstrSection => m.dynstrSection.isNone
  | .dynsyms => m.dynsymSection.isNone

/-- The reads for one relocation, of the table at an offset of the file. -/
def relocateReads (relocs : BitVec 64) (reli : Nat) : List TablePointer :=
  let info := (m.rela relocs reli).rInfo
  let type := elf64RGetType info
  let sym := elf64RGetSym info
  -- `dynstr_section->sh_offset` and `dynsyms[sym].st_name`, for `reloc_name`
  let name := [.dynstrSection, .dynsyms]
  if type = .relative then name
  else if type = .junpSlot ∨ type = .globDat then
    if (m.dynsym env sym).stValue = 0 then name ++ [.dynsyms]
    else name ++ [.dynsyms, .dynsyms]
  else name

/-- The reads of the loop over the sections. -/
def tableReads : List TablePointer :=
  (List.range m.shnum).flatMap fun i ↦
    let sec := m.mShdrs i
    if sec.shType = .rela then
      (List.range (relocCount sec)).flatMap (m.relocateReads env sec.shOffset)
    else []

/-- No read goes through a null pointer. -/
def NoNullReads : Prop := ∀ p ∈ m.tableReads env, m.isNull p = false

/-- No section holds a relocation. -/
def NoRelocations : Prop := ∀ i < m.shnum, (m.mShdrs i).shType = .rela → relocCount (m.mShdrs i) = 0

end reads

section lemmas

variable {m : ElfMapper} {env : Machine}

/-- Every relocation reads through both pointers. -/
theorem mem_relocateReads (p : TablePointer) (relocs : BitVec 64) (reli : Nat) :
    p ∈ m.relocateReads env relocs reli := by
  have hname : p ∈ [TablePointer.dynstrSection, .dynsyms] := by
    cases p <;> decide
  unfold relocateReads
  simp only
  split
  · exact hname
  · split
    · split
      · exact List.mem_append_left _ hname
      · exact List.mem_append_left _ hname
    · exact hname

theorem mem_tableReads_iff {p : TablePointer} : p ∈ m.tableReads env ↔ ¬ m.NoRelocations := by
  rw [tableReads, List.mem_flatMap, NoRelocations]
  simp only [List.mem_range]
  constructor
  · rintro ⟨i, hi, hp⟩ hnone
    split at hp
    · next hrela =>
      rw [hnone i hi hrela] at hp
      exact List.not_mem_nil hp
    · exact List.not_mem_nil hp
  · intro h
    push Not at h
    obtain ⟨i, hi, hrela, hcount⟩ := h
    refine ⟨i, hi, ?_⟩
    rw [if_pos hrela]
    exact List.mem_flatMap.mpr ⟨0, List.mem_range.mpr (Nat.pos_of_ne_zero hcount),
      mem_relocateReads p _ _⟩

theorem isNull_eq_false_iff :
    (∀ p, m.isNull p = false) ↔ m.dynstrSection.isSome ∧ m.dynsymSection.isSome := by
  constructor
  · intro h
    have hstr : m.dynstrSection.isNone = false := h .dynstrSection
    have hsyms : m.dynsymSection.isNone = false := h .dynsyms
    exact ⟨Option.isNone_eq_false_iff.mp hstr, Option.isNone_eq_false_iff.mp hsyms⟩
  · rintro ⟨hstr, hsyms⟩ (_ | _)
    · exact Option.isNone_eq_false_iff.mpr hstr
    · exact Option.isNone_eq_false_iff.mpr hsyms

theorem NoNullReads.tables (h : m.NoNullReads env) :
    m.NoRelocations ∨ (m.dynstrSection.isSome ∧ m.dynsymSection.isSome) := by
  by_cases hnone : m.NoRelocations
  · exact .inl hnone
  · exact .inr (isNull_eq_false_iff.mp fun p ↦ h p (mem_tableReads_iff.mpr hnone))

end lemmas

/-- **Null tables.**  No read goes through a null pointer exactly when the file has no
relocation at all, or has both tables. -/
theorem noNullReads_iff (m : ElfMapper) (env : Machine) :
    m.NoNullReads env ↔
      m.NoRelocations ∨ (m.dynstrSection.isSome ∧ m.dynsymSection.isSome) := by
  constructor
  · exact NoNullReads.tables
  · rintro (hnone | htables) p hp
    · exact absurd hnone (mem_tableReads_iff.mp hp)
    · exact isNull_eq_false_iff.mpr htables p

/-! ## The reads are complete -/

section complete

variable {m : ElfMapper} {env : Machine} {null : Mem}

theorem dynsym_null (h : m.dynsymSection.isSome) (sym : BitVec 32) :
    m.dynsym { env with null := null } sym = m.dynsym env sym := by
  obtain ⟨sec, hsec⟩ := Option.isSome_iff_exists.mp h
  rw [dynsym, dynsym, hsec]

theorem symbolName_null (hstr : m.dynstrSection.isSome) (hsyms : m.dynsymSection.isSome)
    (sym : BitVec 32) : m.symbolName { env with null := null } sym = m.symbolName env sym := by
  obtain ⟨sec, hsec⟩ := Option.isSome_iff_exists.mp hstr
  unfold symbolName
  rw [dynsym_null hsyms, dynstrOffset, dynstrOffset, hsec]

theorem relocateSection_null (h : m.NoNullReads env) (mapped : BitVec 64) {i : Nat}
    (hi : i < m.shnum) (im : Image) :
    m.relocateSection { env with null := null } mapped i im =
      m.relocateSection env mapped i im := by
  unfold relocateSection
  simp only
  by_cases hrela : (m.mShdrs i).shType = .rela
  · rw [if_pos hrela, if_pos hrela]
    rcases h.tables with hnone | ⟨hstr, hsyms⟩
    · rw [hnone i hi hrela]
      rfl
    · refine forRange_congr fun reli _ im ↦ ?_
      simp only [relocate, dynsym_null hsyms, symbolName_null hstr hsyms]
  · rw [if_neg hrela, if_neg hrela]

/-- Without a read through a null pointer the image does not depend on what memory holds at
address zero. -/
theorem mapTo_null (h : m.NoNullReads env) (mapped : BitVec 64) (im : Image) :
    m.mapTo { env with null := null } mapped im = m.mapTo env mapped im := by
  unfold mapTo
  exact forRange_congr fun i hi im ↦ relocateSection_null h mapped hi im

end complete

/-- A file with a single `RELATIVE` relocation, which needs no symbol. -/
def relativeFile : Mem :=
  fileOf (ehdrMembers 64 1 0x200 1 0 ++ phdrMembers 64 1 0 0 0x400 0x400 ++
    relaMembers 0x100 0x180 8 0 0 ++ shdrMembers 0x200 0 4 0 0x100 24)

theorem not_noNullReads_relativeFile :
    ¬ (ofFile relativeFile []).NoNullReads ⟨fun _ ↦ 0, fun _ ↦ 0⟩ := by
  intro h
  have hnull := h .dynstrSection (by decide +kernel)
  revert hnull
  decide +kernel

end ElfMapper

end Hypervi.Elf
