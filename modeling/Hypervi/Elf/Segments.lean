import Hypervi.Elf.Mapper
import Mathlib.Data.List.Pairwise

/-!
# The program headers and the image

Only `PT_LOAD` headers describe memory; the others (`PT_DYNAMIC`, `PT_NOTE`,
`GNU_RELRO`, ...) name parts of it that a `PT_LOAD` header has described already.
`map_to` tests a bit of the type instead: a header of odd type has its file bytes copied
as if it were `PT_LOAD`, and one of even type has its memory filled.

`mapHeaders_eq_onlyLoad_iff` says when that makes no difference: each byte that such a
header has the last word on must be the byte that is due there (`OthersHarmless`).
-/

namespace Hypervi.Elf.ElfMapper

open Memory

section segments

variable (m : ElfMapper) (env : Machine) (mapped : BitVec 64)

/-- The program header table. -/
def headers : List Elf64Phdr := (List.range m.phnum).map m.mPhdrs

/-- `p_type` is exactly `PT_LOAD`. -/
def isLoad (phdr : Elf64Phdr) : Bool := phdr.pType == ptLoad

/-- The file without the program headers of any other type. -/
def onlyLoad : ElfMapper where
  mFile := m.mFile
  mImports := m.mImports
  mEhdr := { m.mEhdr with ePhnum := BitVec.ofNat 16 (m.headers.filter isLoad).length }
  mPhdrs i := (m.headers.filter isLoad).getD i (m.mPhdrs i)
  mShdrs := m.mShdrs

/-- `x` is in the memory of the segment. -/
def InSegment (phdr : Elf64Phdr) (x : BitVec 64) : Prop :=
  (x - (mapped + phdr.pVaddr)).toNat < phdr.pMemsz.toNat

/-- `x` is one of the bytes of the segment that come from the file. -/
def InFile (phdr : Elf64Phdr) (x : BitVec 64) : Prop :=
  (x - (mapped + phdr.pVaddr)).toNat < phdr.pFilesz.toNat

instance (phdr : Elf64Phdr) (x : BitVec 64) : Decidable (InFile mapped phdr x) := Nat.decLt _ _

/-- The `PT_LOAD` segments have memory for their file bytes and do not overlap. -/
structure LoadsOk : Prop where
  filesz_le : ∀ phdr ∈ m.headers.filter isLoad, phdr.pFilesz ≤ phdr.pMemsz
  disjoint : (m.headers.filter isLoad).Pairwise fun phdr phdr' ↦
    ∀ x, InSegment mapped phdr x → ¬ InSegment mapped phdr' x

/-- The byte of the file for `x`. -/
def fileByte (phdr : Elf64Phdr) (x : BitVec 64) : BitVec 8 :=
  m.mFile (phdr.pOffset + (x - (mapped + phdr.pVaddr)))

/-- The byte due at `x`: that of the `PT_LOAD` segment with a file byte there, or what
memory had before. -/
def dueByte (mem : Mem) (x : BitVec 64) : BitVec 8 :=
  match (m.headers.filter isLoad).find? fun phdr ↦ InFile mapped phdr x with
  | some phdr => m.fileByte mapped phdr x
  | none => mem x

/-- The headers of other types do no harm: where one of them is the last in the table to
put a byte, it puts the byte that is due. -/
def OthersHarmless (mem : Mem) : Prop :=
  ∀ before phdr after, m.headers = before ++ phdr :: after → isLoad phdr = false →
    ∀ x, (m.phdrRun mapped 0 phdr).Over x →
      (∀ phdr' ∈ after, ¬ (m.phdrRun mapped 0 phdr').Over x) →
        (m.phdrRun mapped 0 phdr).at' x = m.dueByte mapped mem x

/-- Only `PT_LOAD` headers shape what the loop over the program headers leaves, and each
file byte of their segments is in place. -/
def OnlyLoadsShape (im : Image) : Prop :=
  (m.mapHeaders env mapped im).mem = (m.onlyLoad.mapHeaders env mapped im).mem ∧
    ∀ i < m.phnum, isLoad (m.mPhdrs i) = true →
      ∀ x, InFile mapped (m.mPhdrs i) x →
        (m.mapHeaders env mapped im).mem x = m.fileByte mapped (m.mPhdrs i) x

end segments

section lemmas

variable {m : ElfMapper} {env : Machine} {mapped : BitVec 64}

theorem phdrRun_of_isLoad {phdr : Elf64Phdr} (h : isLoad phdr = true) (al : BitVec 8) :
    m.phdrRun mapped al phdr =
      ⟨mapped + phdr.pVaddr, phdr.pFilesz.toNat, fun off ↦ m.mFile (phdr.pOffset + off)⟩ := by
  have htype : phdr.pType = ptLoad := beq_iff_eq.mp h
  exact if_pos (by rw [htype]; decide)

theorem segmentRuns_eq (hal : ∀ i, env.al i = 0) :
    m.segmentRuns env mapped = m.headers.map (m.phdrRun mapped 0) := by
  rw [segmentRuns, headers, List.map_map]
  apply List.map_congr_left
  intro i _
  rw [segmentRun, hal i]
  rfl

theorem length_filter_headers : (m.headers.filter isLoad).length < 2 ^ 16 := by
  have hle := List.length_filter_le isLoad m.headers
  rw [headers, List.length_map, List.length_range] at hle
  exact Nat.lt_of_le_of_lt hle m.mEhdr.ePhnum.isLt

theorem headers_onlyLoad : m.onlyLoad.headers = m.headers.filter isLoad := by
  have hnum : m.onlyLoad.phnum = (m.headers.filter isLoad).length := by
    rw [phnum, onlyLoad, BitVec.toNat_ofNat, Nat.mod_eq_of_lt length_filter_headers]
  rw [headers, hnum]
  apply List.ext_getElem
  · rw [List.length_map, List.length_range]
  · intro i hi hi'
    rw [List.getElem_map, List.getElem_range]
    exact List.getD_eq_getElem _ _ hi'

theorem segmentRuns_onlyLoad (hal : ∀ i, env.al i = 0) :
    m.onlyLoad.segmentRuns env mapped =
      (m.headers.filter isLoad).map (m.phdrRun mapped 0) := by
  rw [segmentRuns_eq hal, headers_onlyLoad]
  rfl

/-- Only one `PT_LOAD` segment has a file byte at `x`. -/
theorem LoadsOk.eq_of_inFile (h : m.LoadsOk mapped) {phdr phdr' : Elf64Phdr} {x : BitVec 64}
    (hmem : phdr ∈ m.headers.filter isLoad) (hmem' : phdr' ∈ m.headers.filter isLoad)
    (hx : InFile mapped phdr x) (hx' : InFile mapped phdr' x) : phdr = phdr' := by
  have hsegment : ∀ phdr ∈ m.headers.filter isLoad, InFile mapped phdr x →
      InSegment mapped phdr x :=
    fun phdr hmem hx ↦ Nat.lt_of_lt_of_le hx (h.filesz_le phdr hmem)
  have hsymm : Std.Symm fun phdr phdr' ↦
      ∀ x, InSegment mapped phdr x → ¬ InSegment mapped phdr' x :=
    ⟨fun _ _ h x hx' hx ↦ h x hx hx'⟩
  by_contra hne
  exact h.disjoint.forall hmem hmem' hne x (hsegment phdr hmem hx) (hsegment phdr' hmem' hx')

theorem over_phdrRun_iff {phdr : Elf64Phdr} (hmem : phdr ∈ m.headers.filter isLoad)
    (x : BitVec 64) : (m.phdrRun mapped 0 phdr).Over x ↔ InFile mapped phdr x := by
  rw [phdrRun_of_isLoad (List.of_mem_filter hmem)]
  rfl

theorem at'_phdrRun {phdr : Elf64Phdr} (hmem : phdr ∈ m.headers.filter isLoad) (x : BitVec 64) :
    (m.phdrRun mapped 0 phdr).at' x = m.fileByte mapped phdr x := by
  rw [phdrRun_of_isLoad (List.of_mem_filter hmem)]
  rfl

theorem dueByte_of_inFile (h : m.LoadsOk mapped) {phdr : Elf64Phdr} {x : BitVec 64}
    (hmem : phdr ∈ m.headers.filter isLoad) (hx : InFile mapped phdr x) (mem : Mem) :
    m.dueByte mapped mem x = m.fileByte mapped phdr x := by
  rw [dueByte]
  cases hfind : (m.headers.filter isLoad).find? fun phdr ↦ InFile mapped phdr x with
  | some phdr' =>
      have hx' := List.find?_some hfind
      simp only [decide_eq_true_eq] at hx'
      rw [h.eq_of_inFile (List.mem_of_find?_eq_some hfind) hmem hx' hx]
  | none =>
      have hnot := List.find?_eq_none.mp hfind phdr hmem
      exact absurd (decide_eq_true hx) hnot

/-- The `PT_LOAD` headers alone leave the byte due at each address. -/
theorem overwrite_onlyLoad (h : m.LoadsOk mapped) (mem : Mem) (x : BitVec 64) :
    overwrite ((m.headers.filter isLoad).map (m.phdrRun mapped 0)) mem x =
      m.dueByte mapped mem x := by
  rcases last_or_none (m.phdrRun mapped 0) (m.headers.filter isLoad) x with
    ⟨before, phdr, after, heq, hover, hafter⟩ | hnone
  · have hmem : phdr ∈ m.headers.filter isLoad := by
      rw [heq]
      exact List.mem_append_right before List.mem_cons_self
    have hx := (over_phdrRun_iff hmem x).mp hover
    rw [dueByte_of_inFile h hmem hx, ← at'_phdrRun hmem, heq]
    exact overwrite_map_of_last hover hafter mem
  · rw [overwrite_map_of_none hnone, dueByte, List.find?_eq_none.mpr]
    intro phdr hmem hx
    exact hnone phdr hmem ((over_phdrRun_iff hmem x).mpr (of_decide_eq_true hx))

end lemmas

/-! ## When only `PT_LOAD` headers count -/

/-- For `PT_LOAD` segments that do not overlap, and a `_stosb` that stores the zero it is
given: the headers of other types leave no trace exactly when they are harmless. -/
theorem mapHeaders_eq_onlyLoad_iff (m : ElfMapper) (env : Machine) (mapped : BitVec 64)
    (im : Image) (hal : ∀ i, env.al i = 0) (hok : m.LoadsOk mapped) :
    m.OnlyLoadsShape env mapped im ↔ m.OthersHarmless mapped im.mem := by
  have hmem : (m.mapHeaders env mapped im).mem = (m.onlyLoad.mapHeaders env mapped im).mem ↔
      m.OthersHarmless mapped im.mem := by
    rw [mapHeaders_mem, mapHeaders_mem, segmentRuns_eq hal, segmentRuns_onlyLoad hal,
      overwrite_filter_eq_iff]
    simp only [overwrite_onlyLoad hok]
    rfl
  constructor
  · intro h
    exact hmem.mp h.1
  · intro h
    refine ⟨hmem.mpr h, ?_⟩
    intro i hi hload x hx
    have hin : m.mPhdrs i ∈ m.headers.filter isLoad := by
      apply List.mem_filter.mpr
      exact ⟨List.mem_map_of_mem (List.mem_range.mpr hi), hload⟩
    rw [hmem.mpr h, mapHeaders_mem, segmentRuns_onlyLoad hal, overwrite_onlyLoad hok,
      dueByte_of_inFile hok hin hx]

/-- A file of one segment, and a `PT_DYNAMIC` header for sixteen bytes of it. -/
def dynamicFile : Mem :=
  fileOf (ehdrMembers 64 2 0 0 0 ++ phdrMembers 64 1 0 0 176 176 ++ phdrMembers 120 2 64 64 16 16)

theorem loadsOk_dynamicFile : (ofFile dynamicFile []).LoadsOk 0x100000 := by
  have hloads : (ofFile dynamicFile []).headers.filter isLoad = [⟨1, 0, 0, 176, 176⟩] := by
    decide +kernel
  constructor
  · rw [hloads]
    decide
  · rw [hloads]
    exact List.pairwise_singleton _ _

/-- Those sixteen bytes are filled with zeros after the segment has been copied. -/
theorem dynamicFile_not_onlyLoadsShape :
    (ofFile dynamicFile []).LoadsOk 0x100000 ∧
      ¬ (ofFile dynamicFile []).OnlyLoadsShape ⟨fun _ ↦ 0, fun _ ↦ 0⟩ 0x100000 ⟨fun _ ↦ 0, []⟩ := by
  refine ⟨loadsOk_dynamicFile, ?_⟩
  intro h
  have hbyte := h.2 0 (by decide +kernel) (by decide +kernel) 0x100040 (by decide +kernel)
  revert hbyte
  decide +kernel

theorem mapHeaders_eq_onlyLoad_iff_dynamicFile :
    (ofFile dynamicFile []).OnlyLoadsShape ⟨fun _ ↦ 0, fun _ ↦ 0⟩ 0x100000 ⟨fun _ ↦ 0, []⟩ ↔
      (ofFile dynamicFile []).OthersHarmless 0x100000 (fun _ ↦ 0) :=
  mapHeaders_eq_onlyLoad_iff (ofFile dynamicFile []) ⟨fun _ ↦ 0, fun _ ↦ 0⟩ 0x100000
    ⟨fun _ ↦ 0, []⟩ (fun _ ↦ rfl) loadsOk_dynamicFile

end Hypervi.Elf.ElfMapper
