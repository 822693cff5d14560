import Hypervi.Elf.Segments

/-!
# The zero-initialised data of the image

The bytes of a `PT_LOAD` segment from `p_filesz` to `p_memsz` have no contents in the
file and are due to be zero.  The loop over the program headers copies the file bytes of
such a segment and clears nothing behind them; the branch that fills with zeros is for
headers of other types.

`bssZero_iff` says what would have to hold beforehand (`BssPrepared`): the memory that
the image is laid out in would have to be clear, except where another header has the
last word.
-/

namespace Hypervi.Elf.ElfMapper

open Memory

section bss

variable (m : ElfMapper) (env : Machine) (mapped : BitVec 64)

/-- `x` is in the memory of a `PT_LOAD` segment behind its file bytes, and not under the
copy of the ELF header. -/
def IsBss (x : BitVec 64) : Prop :=
  (∃ i < m.phnum, isLoad (m.mPhdrs i) = true ∧ InSegment mapped (m.mPhdrs i) x ∧
    ¬ InFile mapped (m.mPhdrs i) x) ∧ ¬ (m.ehdrRun mapped).Over x

/-- The `j`-th program header is the last in the table to put a byte at `x`. -/
def IsLastOver (j : Nat) (x : BitVec 64) : Prop :=
  (m.segmentRun env mapped j).Over x ∧
    ∀ k, j < k → k < m.phnum → ¬ (m.segmentRun env mapped k).Over x

/-- Memory after the loop over the program headers of `map_to`. -/
def afterHeaders (im : Image) : Image :=
  m.mapHeaders env mapped (im.movsb mapped m.mFile 0 (BitVec.ofNat 64 ehdrSize))

/-- The zero-initialised data is zero after the loop. -/
def BssZero (im : Image) : Prop :=
  ∀ x, m.IsBss mapped x → (m.afterHeaders env mapped im).mem x = 0

/-- What would have to hold of the zero-initialised data beforehand. -/
structure BssPrepared (mem : Mem) : Prop where
  /-- Where no program header puts a byte, memory is clear. -/
  fresh : ∀ x, m.IsBss mapped x → (∀ j < m.phnum, ¬ (m.segmentRun env mapped j).Over x) → mem x = 0
  /-- Where the last header over a byte is of odd type, it copies a zero. -/
  copied : ∀ j < m.phnum, (m.mPhdrs j).pType &&& ptLoad ≠ 0 → ∀ x, m.IsBss mapped x →
    m.IsLastOver env mapped j x → m.fileByte mapped (m.mPhdrs j) x = 0
  /-- Where it is of even type, `_stosb` is given a zero. -/
  filled : ∀ j < m.phnum, (m.mPhdrs j).pType &&& ptLoad = 0 → ∀ x, m.IsBss mapped x →
    m.IsLastOver env mapped j x → env.al j = 0

end bss

section lemmas

variable {m : ElfMapper} {env : Machine} {mapped : BitVec 64} {j : Nat} {x : BitVec 64}

theorem at'_segmentRun (j : Nat) (x : BitVec 64) : (m.segmentRun env mapped j).at' x =
    if (m.mPhdrs j).pType &&& ptLoad ≠ 0 then m.fileByte mapped (m.mPhdrs j) x else env.al j := by
  unfold segmentRun phdrRun
  split
  · rfl
  · rfl

/-- A byte that some header puts is that of the last one. -/
theorem afterHeaders_of_isLastOver (hj : j < m.phnum) (h : m.IsLastOver env mapped j x)
    (im : Image) : (m.afterHeaders env mapped im).mem x = (m.segmentRun env mapped j).at' x := by
  rw [afterHeaders, mapHeaders_mem]
  exact overwrite_range_of_last hj h.1 h.2 _

/-- Any other byte stays, outside the ELF header. -/
theorem afterHeaders_of_none (hnone : ∀ j < m.phnum, ¬ (m.segmentRun env mapped j).Over x)
    (hehdr : ¬ (m.ehdrRun mapped).Over x) (im : Image) :
    (m.afterHeaders env mapped im).mem x = im.mem x := by
  rw [afterHeaders, mapHeaders_mem, segmentRuns,
    overwrite_map_of_none fun j hj ↦ hnone j (List.mem_range.mp hj)]
  exact Run.write_of_not_over hehdr im.mem

end lemmas

/-- **Zero-initialised data.**  It is zero after the loop exactly when memory is clear
beforehand wherever no header puts a byte, and the headers that put one put a zero. -/
theorem bssZero_iff (m : ElfMapper) (env : Machine) (mapped : BitVec 64) (im : Image) :
    m.BssZero env mapped im ↔ m.BssPrepared env mapped im.mem := by
  constructor
  · intro h
    refine ⟨fun x hx hnone ↦ ?_, fun j hj hodd x hx hlast ↦ ?_, fun j hj heven x hx hlast ↦ ?_⟩
    · rw [← afterHeaders_of_none hnone hx.2 im]
      exact h x hx
    · have hbyte := h x hx
      rwa [afterHeaders_of_isLastOver hj hlast, at'_segmentRun, if_pos hodd] at hbyte
    · have hbyte := h x hx
      rwa [afterHeaders_of_isLastOver hj hlast, at'_segmentRun,
        if_neg (not_not_intro heven)] at hbyte
  · intro h x hx
    rcases last_or_none_range (m.segmentRun env mapped) m.phnum x with ⟨j, hj, hlast⟩ | hnone
    · rw [afterHeaders_of_isLastOver hj hlast, at'_segmentRun]
      split
      · next hodd => exact h.copied j hj hodd x hx hlast
      · next heven => exact h.filled j hj (not_not.mp heven) x hx hlast
    · rw [afterHeaders_of_none hnone hx.2]
      exact h.fresh x hx hnone

/-- A file of one segment, whose last 80 bytes have no contents. -/
def bssFile : Mem := fileOf (ehdrMembers 64 1 0 0 0 ++ phdrMembers 64 1 0 0 176 256)

/-- Pages that the firmware has filled with ones keep them. -/
theorem not_bssZero_bssFile :
    (ofFile bssFile []).LoadsOk 0x100000 ∧
      ¬ (ofFile bssFile []).BssZero ⟨fun _ ↦ 0, fun _ ↦ 0⟩ 0x100000 ⟨fun _ ↦ 0xFF, []⟩ := by
  have hloads : (ofFile bssFile []).headers.filter isLoad = [⟨1, 0, 0, 176, 256⟩] := by
    decide +kernel
  refine ⟨⟨?_, ?_⟩, fun h ↦ ?_⟩
  · rw [hloads]
    decide
  · rw [hloads]
    exact List.pairwise_singleton _ _
  · have hbss : (ofFile bssFile []).IsBss 0x100000 0x1000B0 := by
      refine ⟨⟨0, by decide +kernel, by decide +kernel, ?_, by decide +kernel⟩, by decide +kernel⟩
      unfold InSegment
      decide +kernel
    have hbyte := h 0x1000B0 hbss
    revert hbyte
    decide +kernel

end Hypervi.Elf.ElfMapper
