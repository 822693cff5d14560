import Hypervi.Elf.Relocations
import Hypervi.Freestanding.Efi

/-!
# Whether the image stays inside its pages

`efi_loader_map` allocates `NUM_PAGES(get_mapped_size())` pages.  That size is the greatest
`p_vaddr + p_memsz`, and nothing relates the other fields that `map_to` writes by to it.

`mapTo_inside_iff` lists what would have to hold of them (`Fits`): in plain numbers, the
ELF header, each program header's bytes, each `.got` and each target of a relocation have
to end inside the pages.
-/

namespace Hypervi.Elf.ElfMapper

open Memory Freestanding

section bounds

variable (m : ElfMapper) (mapped : BitVec 64)

/-- The bytes that are allocated for the image. -/
def allocated : Nat := pageBytes (numPages m.getMappedSize)

/-- `x` is in the pages at `visor_mapped`. -/
def InPages (x : BitVec 64) : Prop := (x - mapped).toNat < m.allocated

/-- The number of bytes that a program header has written. -/
def writtenSize (phdr : Elf64Phdr) : Nat :=
  if phdr.pType &&& ptLoad ≠ 0 then phdr.pFilesz.toNat else phdr.pMemsz.toNat

/-- Everything that is written ends inside the pages. -/
structure Fits : Prop where
  header : ehdrSize ≤ m.allocated
  segment : ∀ i < m.phnum, writtenSize (m.mPhdrs i) = 0 ∨
    (m.mPhdrs i).pVaddr.toNat + writtenSize (m.mPhdrs i) ≤ m.allocated
  got : ∀ g < m.shnum, m.isNamed (m.mShdrs g) gotName = true →
    (m.mShdrs g).shSize.toNat / 8 = 0 ∨
      (m.mShdrs g).shAddr.toNat + 8 * ((m.mShdrs g).shSize.toNat / 8) ≤ m.allocated
  reloc : ∀ i reli, m.IsReloc i reli → IsKnown (m.relocType i reli) →
    (m.relocAt i reli).rOffset.toNat + 8 ≤ m.allocated

end bounds

section lemmas

variable {m : ElfMapper} (env : Machine) (mapped : BitVec 64)

theorem allocated_lt : m.allocated < 2 ^ 64 := pageBytes_numPages_lt _

theorem segment_inside_iff (i : Nat) :
    (∀ x, (m.segmentRun env mapped i).Over x → m.InPages mapped x) ↔
      writtenSize (m.mPhdrs i) = 0 ∨
        (m.mPhdrs i).pVaddr.toNat + writtenSize (m.mPhdrs i) ≤ m.allocated := by
  have hrun : ∀ x, (m.segmentRun env mapped i).Over x ↔
      (x - (mapped + (m.mPhdrs i).pVaddr)).toNat < writtenSize (m.mPhdrs i) := by
    intro x
    unfold segmentRun phdrRun writtenSize
    split
    · rfl
    · rfl
  have hsize : writtenSize (m.mPhdrs i) ≤ 2 ^ 64 := by
    unfold writtenSize
    split
    · exact Nat.le_of_lt (m.mPhdrs i).pFilesz.isLt
    · exact Nat.le_of_lt (m.mPhdrs i).pMemsz.isLt
  simp only [hrun]
  exact run_inside_iff mapped _ hsize allocated_lt

theorem word_inside_iff (off : BitVec 64) :
    (∀ x : BitVec 64, (x - (mapped + off)).toNat < 8 → m.InPages mapped x) ↔
      off.toNat + 8 ≤ m.allocated := by
  have hne : ¬ 8 = 0 := by decide
  exact (run_inside_iff mapped off (by decide) allocated_lt).trans (or_iff_right hne)

/-- The words of a `.got` are inside the pages together. -/
theorem got_inside_iff (sec : Elf64Shdr) :
    (∀ p ∈ gotPatches mapped sec, ∀ x, (x - p.target).toNat < 8 → m.InPages mapped x) ↔
      sec.shSize.toNat / 8 = 0 ∨
        sec.shAddr.toNat + 8 * (sec.shSize.toNat / 8) ≤ m.allocated := by
  have hsize : 8 * (sec.shSize.toNat / 8) ≤ 2 ^ 64 := by
    have := sec.shSize.isLt
    omega
  have hrun := run_inside_iff mapped sec.shAddr hsize m.allocated_lt
  have hzero : 8 * (sec.shSize.toNat / 8) = 0 ↔ sec.shSize.toNat / 8 = 0 := by omega
  rw [hzero] at hrun
  rw [← hrun]
  constructor
  · intro h x hx
    obtain ⟨k, hk, hx⟩ := (in_words_iff _ x hsize).mpr hx
    exact h _ (mem_gotPatches.mpr ⟨k, hk, rfl⟩) x hx
  · intro h p hp x hx
    obtain ⟨k, hk, rfl⟩ := mem_gotPatches.mp hp
    exact h x ((in_words_iff _ x hsize).mp ⟨k, hk, hx⟩)

end lemmas

/-- **The image and its pages.**  Every byte that `map_to` writes is in the pages
allocated for the image exactly when everything that is written ends inside them. -/
theorem mapTo_inside_iff (m : ElfMapper) (env : Machine) (mapped : BitVec 64) (mem : Mem) :
    (∀ x, (m.mapTo env mapped ⟨mem, []⟩).Wrote x → m.InPages mapped x) ↔ m.Fits := by
  have hblank (x : BitVec 64) : ¬ (Image.mk mem []).Wrote x := by
    rintro ⟨r, hr, -⟩
    exact List.not_mem_nil hr
  have hheader : (∀ x, (m.ehdrRun mapped).Over x → m.InPages mapped x) ↔
      ehdrSize ≤ m.allocated := by
    have hrun := run_inside_iff mapped 0 (n := ehdrSize) (by decide) m.allocated_lt
    have hbase : mapped + 0 = mapped := BitVec.add_zero mapped
    have hzero : (0 : BitVec 64).toNat = 0 := rfl
    rw [hbase, or_iff_right (by decide), hzero, Nat.zero_add] at hrun
    exact hrun
  simp only [wrote_mapTo, hblank, false_or, or_imp, forall_and]
  constructor
  · rintro ⟨hehdr, hsegments, hpatches⟩
    refine ⟨hheader.mp hehdr, ?_, ?_, ?_⟩
    · intro i hi
      exact (segment_inside_iff env mapped i).mp fun x hx ↦ hsegments x ⟨i, hi, hx⟩
    · intro g hg hname
      refine (got_inside_iff mapped _).mp fun p hp x hx ↦ ?_
      exact hpatches x ⟨p, mem_patches.mpr (.inl ⟨g, hg, hname, hp⟩), hx⟩
    · intro i reli hreloc hknown
      have hpatch := hreloc.mem_patches hknown env mapped
      exact (word_inside_iff mapped _).mp fun x hx ↦ hpatches x ⟨_, hpatch, hx⟩
  · intro h
    refine ⟨hheader.mpr h.header, ?_, ?_⟩
    · rintro x ⟨i, hi, hx⟩
      exact (segment_inside_iff env mapped i).mpr (h.segment i hi) x hx
    · rintro x ⟨p, hp, hx⟩
      rcases mem_patches.mp hp with ⟨g, hg, hname, hp⟩ | ⟨i, reli, hreloc, hp⟩
      · exact (got_inside_iff mapped _).mpr (h.got g hg hname) p hp x hx
      · obtain ⟨hknown, rfl⟩ := relocPatch_eq_some_iff.mp hp
        exact (word_inside_iff mapped _).mpr (h.reloc i reli hreloc hknown) x hx

/-- A segment with more bytes in the file than in memory: one page is allocated for it, and
two are copied. -/
def overlongFile : Mem := fileOf (ehdrMembers 64 1 0 0 0 ++ phdrMembers 64 1 0 0 0x2000 0x1000)

theorem overlongFile_not_inside :
    (ofFile overlongFile []).getMappedSize = 0x1000 ∧
      ((ofFile overlongFile []).mapTo zeroMachine 0x100000 blankImage).Wrote 0x101000 ∧
      ¬ (ofFile overlongFile []).InPages 0x100000 0x101000 := by
  refine ⟨by decide +kernel, ?_, by unfold InPages; decide +kernel⟩
  rw [wrote_mapTo]
  exact .inr (.inr (.inl ⟨0, by decide +kernel, by decide +kernel⟩))

end Hypervi.Elf.ElfMapper
