import Hypervi.Elf.Bounds
import Hypervi.Memory.Rebase

/-!
# The image at another address

`efi_loader_map` takes whatever pages the firmware has for the image, so that the same file is
mapped to another address each time.  `mapTo_rebase` compares two images of one file.  Where
nothing is patched they have the same bytes.  A word that the patches keep apart from others
moves with the image as many times as the base was added to it since it was last replaced: once
is right for a pointer, never is what a symbol of the file gets, and twice is what a relocation
of an entry of `.got` comes to.
-/

namespace Hypervi.Elf.ElfMapper

open Memory Freestanding

section rebase

variable (m : ElfMapper) (env : Machine)

/-! ## The patches by their offsets -/

def gotOffsets (sec : Elf64Shdr) : List OffsetPatch :=
  (List.range (sec.shSize.toNat / 8)).map fun k ↦
    ⟨sec.shAddr + BitVec.ofNat 64 (8 * k), .addBase⟩

def relocOffset (i : Nat) (relocs : BitVec 64) (reli : Nat) : Option OffsetPatch :=
  let type := elf64RGetType (m.rela relocs reli).rInfo
  if type = .relative then some ⟨(m.rela relocs reli).rOffset, .addBase⟩
  else if type = .junpSlot ∨ type = .globDat then
    some ⟨(m.rela relocs reli).rOffset, .put (m.boundValue env i relocs reli)⟩
  else none

def sectionOffsets (i : Nat) : List OffsetPatch :=
  (if m.isNamed (m.mShdrs i) gotName then gotOffsets (m.mShdrs i) else []) ++
    if (m.mShdrs i).shType = .rela then
      (List.range (relocCount (m.mShdrs i))).filterMap
        (m.relocOffset env i (m.mShdrs i).shOffset)
    else []

/-- What `map_to` patches, wherever the image is. -/
def offsetPatches : List OffsetPatch := (List.range m.shnum).flatMap (m.sectionOffsets env)

/-- A byte of the image that is loaded from the file or filled. -/
def Loads (off : BitVec 64) : Prop :=
  off.toNat < ehdrSize ∨
    ∃ i < m.phnum, (off - (m.mPhdrs i).pVaddr).toNat < writtenSize (m.mPhdrs i)

/-- An offset that no patch is over. -/
def Unpatched (off : BitVec 64) : Prop :=
  ∀ p ∈ m.offsetPatches env, 8 ≤ (off - p.offset).toNat

end rebase

section lemmas

variable {m : ElfMapper} {env : Machine} {base base' off : BitVec 64} {mem mem' : Mem}

theorem gotPatches_eq (base : BitVec 64) (sec : Elf64Shdr) :
    gotPatches base sec = (gotOffsets sec).map (·.at' base) := by
  rw [gotPatches, gotOffsets, List.map_map]
  refine List.map_congr_left fun k _ ↦ ?_
  simp only [Function.comp, OffsetPatch.at', BitVec.add_assoc, Patch.mk.injEq, true_and]
  funext v
  exact BitVec.add_comm base v

theorem relocPatch_at (base : BitVec 64) (i : Nat) (relocs : BitVec 64) (reli : Nat) :
    m.relocPatch env base i relocs reli =
      (m.relocOffset env i relocs reli).map (·.at' base) := by
  rw [relocPatch, relocOffset]
  split
  · rfl
  · split
    · rfl
    · rfl

theorem patches_eq (m : ElfMapper) (env : Machine) (base : BitVec 64) :
    m.patches env base = (m.offsetPatches env).map (·.at' base) := by
  rw [patches, offsetPatches, List.map_flatMap]
  refine congrArg (List.flatMap · _) (funext fun i ↦ ?_)
  rw [sectionPatches, sectionOffsets, List.map_append]
  congr 1
  · split
    · exact gotPatches_eq base _
    · rfl
  · split
    · rw [relaPatches, List.map_filterMap]
      exact congrArg (List.filterMap · _) (funext fun reli ↦ relocPatch_at base i _ reli)
    · rfl

/-! ## The bytes that are loaded -/

theorem segmentRun_eq (m : ElfMapper) (env : Machine) (i : Nat) : ∃ byte, ∀ base,
    m.segmentRun env base i = ⟨base + (m.mPhdrs i).pVaddr, writtenSize (m.mPhdrs i), byte⟩ := by
  unfold segmentRun phdrRun writtenSize
  split
  · exact ⟨_, fun _ ↦ rfl⟩
  · exact ⟨_, fun _ ↦ rfl⟩

/-- The bytes before the sections are looked at. -/
theorem loaded_rebase (hmem : m.Loads off ∨ mem' (base' + off) = mem (base + off)) :
    m.loaded env base' mem' (base' + off) = m.loaded env base mem (base + off) := by
  have hover (base : BitVec 64) (i : Nat) : (m.segmentRun env base i).Over (base + off) ↔
      (off - (m.mPhdrs i).pVaddr).toNat < writtenSize (m.mPhdrs i) := by
    obtain ⟨byte, hrun⟩ := m.segmentRun_eq env i
    rw [hrun, Run.Over, add_sub_add_left]
  have hat (i : Nat) : (m.segmentRun env base' i).at' (base' + off) =
      (m.segmentRun env base i).at' (base + off) := by
    obtain ⟨byte, hrun⟩ := m.segmentRun_eq env i
    rw [hrun, hrun, Run.at', Run.at', add_sub_add_left, add_sub_add_left]
  apply overwrite_rebase
  · intro i _
    rw [hover, hover]
  · exact fun i _ ↦ hat i
  · intro hnone
    have hself (base : BitVec 64) : base + off - base = off := by
      rw [BitVec.add_comm, BitVec.add_sub_cancel]
    simp only [Run.write, Run.Over, Run.at', ehdrRun, hself]
    split
    · rfl
    · rename_i hheader
      refine hmem.resolve_left ?_
      rintro (hlt | ⟨i, hi, hlt⟩)
      · exact hheader hlt
      · exact hnone i (List.mem_range.mpr hi) ((hover base i).mpr hlt)

/-- **One file at two addresses.**  The bytes that nothing patches are the same, and a word that
the patches keep apart from others moves by the difference of the addresses, as many times as
they leave the base in it. -/
theorem mapTo_rebase (m : ElfMapper) (env : Machine) (base base' : BitVec 64) (mem mem' : Mem)
    (hmem : ∀ off, m.Loads off ∨ mem' (base' + off) = mem (base + off)) :
    (∀ off, m.Unpatched env off → (m.mapTo env base' ⟨mem', []⟩).mem (base' + off) =
        (m.mapTo env base ⟨mem, []⟩).mem (base + off)) ∧
      ∀ off, (∀ p ∈ m.offsetPatches env, Separated p.offset off) →
        load64 (m.mapTo env base' ⟨mem', []⟩).mem (base' + off) =
          load64 (m.mapTo env base ⟨mem, []⟩).mem (base + off) +
            BitVec.ofNat 64 (bases (m.offsetPatches env) off) * (base' - base) := by
  simp only [mapTo_mem, patches_eq]
  constructor
  · intro off hunpatched
    have houtside (base : BitVec 64) : ∀ q ∈ (m.offsetPatches env).map (·.at' base),
        8 ≤ (base + off - q.target).toNat := by
      intro q hq
      obtain ⟨p, hp, rfl⟩ := List.mem_map.mp hq
      rw [OffsetPatch.target_at', add_sub_add_left]
      exact hunpatched p hp
    rw [patchAll_of_outside (houtside base'), patchAll_of_outside (houtside base)]
    exact loaded_rebase (hmem off)
  · intro off hsep
    apply load64_rebase hsep
    refine load_eq_load_iff.mpr fun i _ ↦ ?_
    rw [BitVec.add_assoc, BitVec.add_assoc]
    exact loaded_rebase (hmem _)

/-- The word in the `.got` that is relocated as well has the base twice. -/
theorem mapTo_rebase_relocMapper :
    load64 (relocMapper.mapTo zeroMachine 0x200000 blankImage).mem (0x200000 + 0x3D0) =
      load64 (relocMapper.mapTo zeroMachine 0x100000 blankImage).mem (0x100000 + 0x3D0) +
        BitVec.ofNat 64 (bases (relocMapper.offsetPatches zeroMachine) 0x3D0) *
          (0x200000 - 0x100000) ∧
      bases (relocMapper.offsetPatches zeroMachine) 0x3D0 = 2 := by
  have hbases : bases (relocMapper.offsetPatches zeroMachine) 0x3D0 = 2 := by decide +kernel
  refine ⟨?_, hbases⟩
  apply (mapTo_rebase relocMapper zeroMachine 0x100000 0x200000 (fun _ ↦ 0) (fun _ ↦ 0)
    fun _ ↦ .inr rfl).2
  unfold Separated
  decide +kernel

end lemmas

end Hypervi.Elf.ElfMapper
