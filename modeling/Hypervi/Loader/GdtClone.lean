import Hypervi.Loader.Gdt

/-!
# The descriptors of the firmware in the copied table

`efi_gdt_init` copies the GDT of the firmware into a table of its own.  A GDT of limit
`L` has `L + 1` bytes and the code copies `L` of them, so that the last byte of the last
descriptor, the high byte of its base, is whatever the new table held there.
`preservesDescriptors_iff` says that this is the only damage: the descriptor of the task
state segment is written behind the copy, and nothing else is written into it.
-/

namespace Hypervi.Loader

open Bits Ia32 Memory Freestanding Cpu

/-! ## Bytes that are left alone -/

section frame

variable {m : Mem} {a x : BitVec 64}

theorem setMember_of_outside {n off k : Nat} {v : BitVec (8 * n)} (hin : off + n ≤ k)
    (hx : k ≤ (x - a).toNat) : setMember n m a off v x = m x := by
  refine if_neg ?_
  have hlt := (x - a).isLt
  rw [← BitVec.sub_sub, BitVec.toNat_sub, BitVec.toNat_ofNat]
  omega

theorem memset_of_outside {c : BitVec 8} {n : Nat} (hx : n ≤ (x - a).toNat) :
    memset m a c n x = m x := if_neg (Nat.not_lt.mpr hx)

/-- The assignments to the descriptor stay inside its sixteen bytes. -/
theorem writeTssDescriptor_of_outside {entry tssPtr : BitVec 64} {al : BitVec 8}
    (hx : 16 ≤ (x - entry).toNat) : writeTssDescriptor m entry tssPtr al x = m x := by
  unfold writeTssDescriptor
  rw [setMember_of_outside (by decide) hx, setMember_of_outside (by decide) hx,
    setMember_of_outside (by decide) hx, setMember_of_outside (by decide) hx,
    setMember_of_outside (by decide) hx, setMember_of_outside (by decide) hx,
    setMember_of_outside (by decide) hx, memset_of_outside hx]

theorem ltr_of_outside {entry : BitVec 64} (hx : 16 ≤ (x - entry).toNat) :
    ltr m entry x = m x := setMember_of_outside (by decide) hx

end frame

/-! ## The copy -/

section clone

variable {gdtr : SegmentDescriptorRegister64} {mem : Mem} {newGdt newTss : BitVec 64}
  {fills : GdtFills}

/-- Memory after `efi_gdt_init`, which ends with `write_tr`. -/
def clonedGdt (gdtr : SegmentDescriptorRegister64) (mem : Mem) (newGdt newTss : BitVec 64)
    (fills : GdtFills) : Mem :=
  ltr (efiGdtInit gdtr mem newGdt newTss fills) (tssDescriptor gdtr newGdt)

/-- The bytes of the new table below the descriptor of the task state segment. -/
theorem clonedGdt_apply (hdvd : 8 ∣ gdtr.limit.toNat + 1) (hmax : gdtr.limit.toNat + 16 ≤ 0xFFFF)
    (hapart : Apart newTss tssSize newGdt (newGdtSize gdtr)) {k : Nat}
    (hk : k ≤ gdtr.limit.toNat) :
    clonedGdt gdtr mem newGdt newTss fills (newGdt + BitVec.ofNat 64 k) =
      if k < gdtr.limit.toNat then mem (gdtr.baseAddress + BitVec.ofNat 64 k)
      else mem (newGdt + BitVec.ofNat 64 k) := by
  have hentry : 16 ≤ (newGdt + BitVec.ofNat 64 k - tssDescriptor gdtr newGdt).toNat := by
    rw [tssDescriptor_eq hdvd hmax, BitVec.toNat_sub, BitVec.toNat_add, BitVec.toNat_add,
      BitVec.toNat_ofNat, BitVec.toNat_ofNat]
    have := newGdt.isLt
    omega
  have htss : tssSize ≤ (newGdt + BitVec.ofNat 64 k - newTss).toNat :=
    hapart.le_toNat_sub (by rw [newGdtSize, gdtEntries]; omega)
  have hself : newGdt + BitVec.ofNat 64 k - newGdt = BitVec.ofNat 64 k := by
    rw [BitVec.add_comm, BitVec.add_sub_cancel]
  have hnat : (BitVec.ofNat 64 k).toNat = k := by
    rw [BitVec.toNat_ofNat]
    omega
  rw [clonedGdt, ltr_of_outside hentry, efiGdtInit, memset_of_outside htss,
    writeTssDescriptor_of_outside hentry, memcpy, hself, hnat]

/-- The first `n` descriptors of two tables agree byte by byte. -/
def SameDescriptors (n : Nat) (m : Mem) (table : BitVec 64) (m' : Mem) (table' : BitVec 64) :
    Prop :=
  ∀ i < n, ∀ k < 8,
    m' (table' + BitVec.ofNat 64 (8 * i + k)) = m (table + BitVec.ofNat 64 (8 * i + k))

/-- A word that lies in a run of bytes on which two memories agree. -/
theorem load32_of_same {L : Nat} {m m' : Mem} {table table' : BitVec 64}
    (h : ∀ k ≤ L, m' (table' + BitVec.ofNat 64 k) = m (table + BitVec.ofNat 64 k)) (off : Nat)
    (hoff : off + 3 ≤ L) :
    load32 m' (table' + BitVec.ofNat 64 off) = load32 m (table + BitVec.ofNat 64 off) := by
  refine load_eq_load_iff.mpr fun i hi ↦ ?_
  rw [BitVec.add_assoc, BitVec.add_assoc, ← BitVec.ofNat_add]
  exact h (off + i) (by omega)

/-- The `i`-th descriptor of a table is inside the limit, with its upper half when it
is that of a system segment. -/
def ValidIndex (m : Mem) (table : BitVec 64) (limit i : Nat) : Prop :=
  8 * i + 7 ≤ limit ∧
    ((descriptorAt m (table + BitVec.ofNat 64 (8 * i))).isSegment = false → 8 * i + 15 ≤ limit)

/-- Every descriptor is preserved, and with it what a valid selector means: the two
words with limit, rights and the low half of the base, and the whole base. -/
structure PreservesDescriptors (limit : Nat) (m : Mem) (table : BitVec 64) (m' : Mem)
    (table' : BitVec 64) : Prop where
  same : SameDescriptors ((limit + 1) / 8) m table m' table'
  descriptor : ∀ i, ValidIndex m table limit i →
    descriptorAt m' (table' + BitVec.ofNat 64 (8 * i)) =
      descriptorAt m (table + BitVec.ofNat 64 (8 * i))
  base : ∀ i, ValidIndex m table limit i →
    architecturalBase m' (table' + BitVec.ofNat 64 (8 * i)) =
      architecturalBase m (table + BitVec.ofNat 64 (8 * i))

theorem sameDescriptors_iff {limit : Nat} (hdvd : 8 ∣ limit + 1) {m m' : Mem}
    {table table' : BitVec 64} :
    SameDescriptors ((limit + 1) / 8) m table m' table' ↔
      ∀ k ≤ limit, m' (table' + BitVec.ofNat 64 k) = m (table + BitVec.ofNat 64 k) := by
  obtain ⟨n, hn⟩ := hdvd
  constructor
  · intro h k hk
    have hbyte := h (k / 8) (by omega) (k % 8) (Nat.mod_lt _ (by decide))
    rwa [Nat.div_add_mod] at hbyte
  · intro h i hi k hk
    exact h (8 * i + k) (by omega)

/-- The base depends on the descriptor, and for a system segment on what follows it. -/
theorem architecturalBase_congr {m m' : Mem} {a a' : BitVec 64}
    (hdescriptor : descriptorAt m' a' = descriptorAt m a)
    (hupper : (descriptorAt m a).isSegment = false →
      baseAddressUpper m' a' = baseAddressUpper m a) :
    architecturalBase m' a' = architecturalBase m a := by
  cases hs : (descriptorAt m a).isSegment with
  | true => simp only [architecturalBase, hdescriptor, hs, if_true]
  | false => simp only [architecturalBase, hdescriptor, hs, hupper hs]

theorem preservesDescriptors_of_same {limit : Nat} (hdvd : 8 ∣ limit + 1) {m m' : Mem}
    {table table' : BitVec 64}
    (h : ∀ k ≤ limit, m' (table' + BitVec.ofNat 64 k) = m (table + BitVec.ofNat 64 k)) :
    PreservesDescriptors limit m table m' table' := by
  have hdescriptor (i : Nat) (hi : 8 * i + 7 ≤ limit) :
      descriptorAt m' (table' + BitVec.ofNat 64 (8 * i)) =
        descriptorAt m (table + BitVec.ofNat 64 (8 * i)) := by
    have hhigh := load32_of_same h (8 * i + 4) (by omega)
    rw [BitVec.ofNat_add, ← BitVec.add_assoc, ← BitVec.add_assoc] at hhigh
    exact congrArg₂ SegmentDescriptor32.mk (load32_of_same h (8 * i) (by omega)) hhigh
  refine ⟨(sameDescriptors_iff hdvd).mpr h, fun i hi ↦ hdescriptor i hi.1, fun i hi ↦ ?_⟩
  refine architecturalBase_congr (hdescriptor i hi.1) fun hs ↦ ?_
  have hbound := hi.2 hs
  have hupper := load32_of_same h (8 * i + 8) (by omega)
  rwa [BitVec.ofNat_add, ← BitVec.add_assoc, ← BitVec.add_assoc] at hupper

/-- The copied table preserves the descriptors of the firmware exactly when the byte that
is not copied happens to be right already. -/
theorem preservesDescriptors_iff (gdtr : SegmentDescriptorRegister64) (mem : Mem)
    (newGdt newTss : BitVec 64) (fills : GdtFills) (hdvd : 8 ∣ gdtr.limit.toNat + 1)
    (hmax : gdtr.limit.toNat + 16 ≤ 0xFFFF)
    (hapart : Apart newTss tssSize newGdt (newGdtSize gdtr)) :
    PreservesDescriptors gdtr.limit.toNat mem gdtr.baseAddress
        (clonedGdt gdtr mem newGdt newTss fills) newGdt ↔
      mem (newGdt + gdtr.limit.setWidth 64) = mem (gdtr.baseAddress + gdtr.limit.setWidth 64) := by
  have hlimit : gdtr.limit.setWidth 64 = BitVec.ofNat 64 gdtr.limit.toNat := by
    apply BitVec.eq_of_toNat_eq
    rw [BitVec.toNat_setWidth, BitVec.toNat_ofNat]
  have hlast : clonedGdt gdtr mem newGdt newTss fills (newGdt + BitVec.ofNat 64 gdtr.limit.toNat) =
      mem (newGdt + BitVec.ofNat 64 gdtr.limit.toNat) := by
    rw [clonedGdt_apply hdvd hmax hapart (Nat.le_refl _), if_neg (Nat.lt_irrefl _)]
  rw [hlimit, ← hlast]
  constructor
  · exact fun h ↦ (sameDescriptors_iff hdvd).mp h.same _ (Nat.le_refl _)
  · refine fun h ↦ preservesDescriptors_of_same hdvd fun k hk ↦ ?_
    rcases Nat.lt_or_eq_of_le hk with hlt | rfl
    · rw [clonedGdt_apply hdvd hmax hapart hk, if_pos hlt]
    · exact h

end clone

/-! ## Two tables -/

/-- A flat code segment as the last of two descriptors, at `0x1000`, and zeros in the
memory of the new table. -/
def twoEntries : Mem := store64 (fun _ ↦ 0) 0x1008 0x00AF9A000000FFFF

/-- The base of the flat segment ends in a zero byte, as fresh memory does here. -/
theorem preservesDescriptors_twoEntries :
    PreservesDescriptors 0xF twoEntries 0x1000
      (clonedGdt ⟨0xF, 0x1000⟩ twoEntries 0x200000 0x300000 ⟨0, 0⟩) 0x200000 :=
  (preservesDescriptors_iff ⟨0xF, 0x1000⟩ twoEntries 0x200000 0x300000 ⟨0, 0⟩ (by decide) (by decide)
    ⟨by decide, by decide⟩).mpr (by decide +kernel)

/-- The same table, cloned into memory filled with ones: the segment moves up to
`0xFF000000`. -/
theorem not_preservesDescriptors_twoEntries :
    ¬ PreservesDescriptors 0xF (memset twoEntries 0x200000 0xFF 0x20) 0x1000
      (clonedGdt ⟨0xF, 0x1000⟩ (memset twoEntries 0x200000 0xFF 0x20) 0x200000 0x300000 ⟨0, 0⟩)
      0x200000 := by
  intro h
  have hlast := h.same 1 (by decide) 7 (by decide)
  revert hlast
  decide +kernel

end Hypervi.Loader
