import Hypervi.Cpu.Init

/-!
# The task state segment of the loader

`efi_gdt_init` copies the GDT of the firmware, appends a descriptor of its own task
state segment and loads it into `TR`.  It writes the descriptor as a `tss_gdt_entry`,
byte by byte; `get_segment_base` reads the same sixteen bytes as a
`segment_descriptor_64`, by bit-fields of its words.

`EncodesTss` is what the two views have in common: the bytes of a descriptor of a given
segment.  `efi_gdt_init` establishes it, `ltr` keeps it, and the base is decoded from it
(`getDescriptorBase_of_encodesTss`).

One of the sixteen bytes, `flags2`, is left to the `memset` before the assignments, and
`_stosb` stores what `al` holds.  Its bit 4 is the one that `get_descriptor_base` looks at, and
when it is set the upper half of the address is lost (`tss_roundTrip_iff`).
-/

namespace Hypervi.Loader

open Bits Ia32 Memory Freestanding Cpu

/-! ## The descriptor -/

/-- `sizeof(new_tss)` -/
def tssSize : Nat := 104

/-- What `al` holds at the two calls of `memset`, and `_stosb` stores. -/
structure GdtFills where
  /-- At the call for the descriptor. -/
  descriptor : BitVec 8
  /-- At the call for `new_tss`. -/
  tss : BitVec 8

/-- The assignments to the `tss_gdt_entry` at `entry`, after the `memset`, which fills it with
`al`. -/
def writeTssDescriptor (m : Mem) (entry tssPtr : BitVec 64) (al : BitVec 8) : Mem :=
  let m := memset m entry al 16
  let m := setMember 2 m entry 0 (BitVec.ofNat 16 (tssSize - 1))
  let m := setMember 2 m entry 2 (tssPtr.setWidth 16)
  let m := setMember 1 m entry 4 ((tssPtr >>> 16).setWidth 8)
  let m := setMember 1 m entry 7 ((tssPtr >>> 24).setWidth 8)
  let m := setMember 4 m entry 8 ((tssPtr >>> 32).setWidth 32)
  let m := setMember 1 m entry 5 0b10001001
  setMember 4 m entry 12 0

/-- The bytes of a descriptor of the task state segment at `tssPtr`, available or busy, with a
given `flags2`. -/
structure EncodesTss (m : Mem) (entry tssPtr : BitVec 64) (flags2 : BitVec 8) : Prop where
  low : member 2 m entry 2 = tssPtr.extractLsb' 0 16
  middle : member 1 m entry 4 = tssPtr.extractLsb' 16 8
  high : member 1 m entry 7 = tssPtr.extractLsb' 24 8
  upper : member 4 m entry 8 = tssPtr.extractLsb' 32 32
  flags1 : member 1 m entry 5 = 0x89 ∨ member 1 m entry 5 = 0x8B
  flags2 : member 1 m entry 6 = flags2

/-- A shifted and truncated word is a run of its bits. -/
theorem setWidth_ushiftRight (x : BitVec 64) (start len : Nat) :
    (x >>> start).setWidth len = x.extractLsb' start len := by
  apply BitVec.eq_of_getLsbD_eq
  intro i hi
  simp [hi]

theorem encodesTss_writeTssDescriptor (m : Mem) (entry tssPtr : BitVec 64) (al : BitVec 8) :
    EncodesTss (writeTssDescriptor m entry tssPtr al) entry tssPtr al where
  low := by
    simp (disch := decide) only [writeTssDescriptor, member_setMember_self,
      member_setMember_of_disjoint]
    exact (congrArg (BitVec.setWidth 16) (BitVec.ushiftRight_zero tssPtr)).symm.trans
      (setWidth_ushiftRight tssPtr 0 16)
  middle := by
    simp (disch := decide) only [writeTssDescriptor, member_setMember_self,
      member_setMember_of_disjoint]
    exact setWidth_ushiftRight tssPtr 16 8
  high := by
    simp (disch := decide) only [writeTssDescriptor, member_setMember_self,
      member_setMember_of_disjoint]
    exact setWidth_ushiftRight tssPtr 24 8
  upper := by
    simp (disch := decide) only [writeTssDescriptor, member_setMember_self,
      member_setMember_of_disjoint]
    exact setWidth_ushiftRight tssPtr 32 32
  flags1 := by
    refine .inl ?_
    simp (disch := decide) only [writeTssDescriptor, member_setMember_self,
      member_setMember_of_disjoint]
  flags2 := by
    simp (disch := decide) only [writeTssDescriptor, member_setMember_of_disjoint,
      member_memset_byte]

section decode

/-- The bytes of the second word of a descriptor. -/
theorem extractLsb'_high (m : Mem) (entry : BitVec 64) {j k : Nat} (h : k + j ≤ 4) :
    (descriptorAt m entry).high.extractLsb' (8 * k) (8 * j) = member j m entry (4 + k) := by
  rw [member, BitVec.ofNat_add, ← BitVec.add_assoc]
  exact extractLsb'_load h m (entry + 4)

/-- A field of the second word that lies in one byte of it. -/
theorem get_high (m : Mem) (entry : BitVec 64) {f : Field} {k : Nat} (hk : k < 4)
    (hoff : 8 * k ≤ f.off) (hlen : f.off + f.len ≤ 8 * k + 8) :
    f.get (descriptorAt m entry).high =
      ((member 1 m entry (4 + k)).extractLsb' (f.off - 8 * k) f.len).setWidth 32 := by
  have hbyte := extractLsb'_high m entry (j := 1) (k := k) (by omega)
  rw [← hbyte]
  apply BitVec.eq_of_getLsbD_eq
  intro i hi
  rw [Field.getLsbD_get, BitVec.getLsbD_setWidth, BitVec.getLsbD_extractLsb',
    BitVec.getLsbD_extractLsb']
  by_cases hif : i < f.len
  · have hbit : 8 * k + (f.off - 8 * k + i) = f.off + i := by omega
    have hin : f.off - 8 * k + i < 8 * 1 := by omega
    simp [hi, hif, hbit, hin]
  · simp [hif]

variable {m : Mem} {entry tssPtr : BitVec 64} {flags2 : BitVec 8}

theorem EncodesTss.base_eq (h : EncodesTss m entry tssPtr flags2) :
    (descriptorAt m entry).base = tssPtr.extractLsb' 0 32 := by
  have hlow : (descriptorAt m entry).low.extractLsb' 16 16 = tssPtr.extractLsb' 0 16 :=
    (extractLsb'_load (n := 4) (j := 2) (k := 2) (by decide) m entry).trans h.low
  have hmiddle : (descriptorAt m entry).high.extractLsb' 0 8 = tssPtr.extractLsb' 16 8 :=
    (extractLsb'_high m entry (j := 1) (k := 0) (by decide)).trans h.middle
  have hhigh : (descriptorAt m entry).high.extractLsb' 24 8 = tssPtr.extractLsb' 24 8 :=
    (extractLsb'_high m entry (j := 1) (k := 3) (by decide)).trans h.high
  rw [SegmentDescriptor32.base, hlow, hmiddle, hhigh]
  rw [BitVec.extractLsb'_append_extractLsb'_eq_extractLsb' (by decide),
    BitVec.extractLsb'_append_extractLsb'_eq_extractLsb' (by decide)]

/-- The bit available to software is in `flags2`. -/
theorem EncodesTss.availableClear_iff (h : EncodesTss m entry tssPtr flags2) :
    (descriptorAt m entry).AvailableClear ↔ flags2.getLsbD 4 = false := by
  have hsystem := get_high m entry (f := SegmentDescriptor32.system) (k := 2) (by decide)
    (by decide) (by decide)
  have hbit : ∀ b : BitVec 8, ((b.extractLsb' 4 1).setWidth 32 = (0 : BitVec 32)) ↔
      b.getLsbD 4 = false := by decide
  rw [SegmentDescriptor32.AvailableClear, hsystem, h.flags2]
  exact hbit flags2

/-- `get_descriptor_base` reads the address back, or its lower half. -/
theorem getDescriptorBase_of_encodesTss (h : EncodesTss m entry tssPtr flags2) :
    getDescriptorBase m entry =
      if flags2.getLsbD 4 = false then tssPtr else (tssPtr.setWidth 32).setWidth 64 := by
  have htype : (descriptorAt m entry).HasTssType := by
    have hfield := get_high m entry (f := SegmentDescriptor32.type) (k := 1) (by decide)
      (by decide) (by decide)
    rw [SegmentDescriptor32.HasTssType, hfield]
    rcases h.flags1 with hflags | hflags
    · rw [hflags]
      decide
    · rw [hflags]
      decide
  split
  · rename_i hclear
    have hupper : baseAddressUpper m entry = tssPtr.extractLsb' 32 32 := h.upper
    rw [getDescriptorBase_of_tss (h.availableClear_iff.mpr hclear) htype, h.base_eq, hupper,
      BitVec.extractLsb'_append_extractLsb'_eq_extractLsb' (by decide)]
    exact BitVec.extractLsb'_eq_self
  · rename_i hset
    have hlow : tssPtr.extractLsb' 0 32 = tssPtr.setWidth 32 :=
      (setWidth_ushiftRight tssPtr 0 32).symm.trans
        (congrArg (BitVec.setWidth 32) (BitVec.ushiftRight_zero tssPtr))
    rw [getDescriptorBase_of_not_tss fun hboth ↦ hset (h.availableClear_iff.mp hboth.1),
      h.base_eq, hlow]

end decode

/-! ## `efi_gdt_init` -/

section init

variable (gdtr : SegmentDescriptorRegister64) (mem : Mem) (newGdt newTss : BitVec 64)
  (fills : GdtFills)

/-- `entries`.  The division is done first. -/
def gdtEntries : Nat := gdtr.limit.toNat + 1 / 16

/-- The size in bytes of `new_gdt`. -/
def newGdtSize : Nat := 16 * (gdtEntries gdtr + 1)

/-- `tr.flags` -/
def trSelector : BitVec 16 :=
  SegmentSelector.index.set 0 (BitVec.ofNat 16 ((gdtr.limit.toNat + 1) / 8))

/-- `new_gdtr` -/
def newGdtr : SegmentDescriptorRegister64 where
  limit := gdtr.limit + 16
  baseAddress := newGdt

/-- `tss_descriptor` -/
def tssDescriptor : BitVec 64 :=
  newGdt + (SegmentSelector.index.get (trSelector gdtr)).setWidth 64 * 8

/-- The memory that `efi_gdt_init` leaves, for the GDT register it reads, the array that
`new` returns, the address of `new_tss` and what the calls of `memset` store. -/
def efiGdtInit : Mem :=
  -- a table of `limit + 1` bytes: the last one is not copied
  let m := memcpy mem newGdt gdtr.baseAddress gdtr.limit.toNat
  let m := writeTssDescriptor m (tssDescriptor gdtr newGdt) newTss fills.descriptor
  memset m newTss fills.tss tssSize

/-- What `ltr` does to a descriptor: it sets the busy bit of the type. -/
def ltr (m : Mem) (entry : BitVec 64) : Mem := setMember 1 m entry 5 (member 1 m entry 5 ||| 2)

end init

/-- `ltr` changes the byte of the type only. -/
theorem member_ltr {n off : Nat} (hn : 0 < n) (hoff : off + n ≤ 16) (h : off + n ≤ 5 ∨ 6 ≤ off)
    (m : Mem) (entry : BitVec 64) : member n (ltr m entry) entry off = member n m entry off :=
  member_setMember_of_disjoint (by decide) hn (by decide) (by omega) h.symm

theorem EncodesTss.ltr {m : Mem} {entry tssPtr : BitVec 64} {flags2 : BitVec 8}
    (h : EncodesTss m entry tssPtr flags2) : EncodesTss (ltr m entry) entry tssPtr flags2 where
  low := (member_ltr (by decide) (by decide) (by decide) m entry).trans h.low
  middle := (member_ltr (by decide) (by decide) (by decide) m entry).trans h.middle
  high := (member_ltr (by decide) (by decide) (by decide) m entry).trans h.high
  upper := (member_ltr (by decide) (by decide) (by decide) m entry).trans h.upper
  flags1 := by
    refine .inr ?_
    rw [Loader.ltr, member_setMember_self (by decide)]
    rcases h.flags1 with hflags | hflags
    · rw [hflags]
      rfl
    · rw [hflags]
      rfl
  flags2 := (member_ltr (by decide) (by decide) (by decide) m entry).trans h.flags2

theorem EncodesTss.memset {m : Mem} {entry tssPtr b : BitVec 64} {flags2 c : BitVec 8} {n : Nat}
    (h : EncodesTss m entry tssPtr flags2) (hapart : Apart b n entry 16) :
    EncodesTss (memset m b c n) entry tssPtr flags2 where
  low := (member_memset_of_apart hapart (by decide) (by decide)).trans h.low
  middle := (member_memset_of_apart hapart (by decide) (by decide)).trans h.middle
  high := (member_memset_of_apart hapart (by decide) (by decide)).trans h.high
  upper := (member_memset_of_apart hapart (by decide) (by decide)).trans h.upper
  flags1 := by
    rw [member_memset_of_apart hapart (by decide) (by decide)]
    exact h.flags1
  flags2 := (member_memset_of_apart hapart (by decide) (by decide)).trans h.flags2

/-! ## The round trip -/

section roundTrip

variable {gdtr : SegmentDescriptorRegister64} (mem : Mem) {newGdt newTss : BitVec 64}
  (fills : GdtFills)

theorem toNat_index_trSelector (hmax : gdtr.limit.toNat + 16 ≤ 0xFFFF) :
    (SegmentSelector.index.get (trSelector gdtr)).toNat = (gdtr.limit.toNat + 1) / 8 := by
  rw [trSelector, Field.get_set_self _ _ _ (by decide), Field.toNat_trunc, BitVec.toNat_ofNat]
  have hlen : SegmentSelector.index.len = 13 := rfl
  rw [hlen]
  omega

/-- The descriptor follows the last one of the firmware. -/
theorem tssDescriptor_eq (hdvd : 8 ∣ gdtr.limit.toNat + 1) (hmax : gdtr.limit.toNat + 16 ≤ 0xFFFF) :
    tssDescriptor gdtr newGdt = newGdt + BitVec.ofNat 64 (gdtr.limit.toNat + 1) := by
  rw [tssDescriptor]
  congr 1
  apply BitVec.eq_of_toNat_eq
  rw [BitVec.toNat_mul, BitVec.toNat_setWidth, toNat_index_trSelector hmax, BitVec.toNat_ofNat]
  obtain ⟨n, hn⟩ := hdvd
  have height : (8 : BitVec 64).toNat = 8 := rfl
  rw [hn, Nat.mul_div_cancel_left n (by decide), height]
  omega

theorem encodesTss_efiGdtInit (hdvd : 8 ∣ gdtr.limit.toNat + 1)
    (hmax : gdtr.limit.toNat + 16 ≤ 0xFFFF)
    (hapart : Apart newTss tssSize newGdt (newGdtSize gdtr)) :
    EncodesTss (efiGdtInit gdtr mem newGdt newTss fills) (tssDescriptor gdtr newGdt) newTss
      fills.descriptor := by
  apply EncodesTss.memset
  · exact encodesTss_writeTssDescriptor _ _ _ _
  · rw [tssDescriptor_eq hdvd hmax]
    apply hapart.sub (by decide)
    rw [newGdtSize, gdtEntries]
    omega

/-- The base of the selector that `efi_gdt_init` loads into `TR`. -/
theorem getSegmentBase_trSelector (hmin : 7 ≤ gdtr.limit.toNat)
    (hmax : gdtr.limit.toNat + 16 ≤ 0xFFFF) (m : Mem) :
    getSegmentBase m newGdt (trSelector gdtr) = getDescriptorBase m (tssDescriptor gdtr newGdt) := by
  apply getSegmentBase_of_gdt
  · rw [trSelector, Field.get_set_of_disjoint (by decide)]
    rfl
  · intro h
    have hindex := toNat_index_trSelector hmax
    rw [h] at hindex
    have hzero : (0 : BitVec 16).toNat = 0 := rfl
    omega

/-- The base that `get_segment_base` finds, when the segment is at `newTss`. -/
def trBase (newTss : BitVec 64) (fills : GdtFills) : BitVec 64 :=
  if fills.descriptor.getLsbD 4 = false then newTss else (newTss.setWidth 32).setWidth 64

theorem trBase_eq_iff : trBase newTss fills = newTss ↔
    fills.descriptor.getLsbD 4 = false ∨ newTss.toNat < 2 ^ 32 := by
  have htruncated : (newTss.setWidth 32).setWidth 64 = newTss ↔ newTss.toNat < 2 ^ 32 := by
    rw [← BitVec.toNat_inj, BitVec.toNat_setWidth, BitVec.toNat_setWidth]
    omega
  rw [trBase]
  by_cases hclear : fills.descriptor.getLsbD 4 = false
  · rw [if_pos hclear]
    exact iff_of_true rfl (.inl hclear)
  · rw [if_neg hclear, htruncated]
    exact (or_iff_right hclear).symm

section base

variable (hdvd : 8 ∣ gdtr.limit.toNat + 1) (hmin : 7 ≤ gdtr.limit.toNat)
  (hmax : gdtr.limit.toNat + 16 ≤ 0xFFFF) (hapart : Apart newTss tssSize newGdt (newGdtSize gdtr))

include hdvd hmin hmax hapart

theorem getSegmentBase_efiGdtInit :
    getSegmentBase (efiGdtInit gdtr mem newGdt newTss fills) newGdt (trSelector gdtr) =
      trBase newTss fills :=
  (getSegmentBase_trSelector hmin hmax _).trans
    (getDescriptorBase_of_encodesTss (encodesTss_efiGdtInit mem fills hdvd hmax hapart))

/-- The processor sets the busy bit, which is not looked at. -/
theorem getSegmentBase_ltr :
    getSegmentBase (ltr (efiGdtInit gdtr mem newGdt newTss fills) (tssDescriptor gdtr newGdt))
      newGdt (trSelector gdtr) = trBase newTss fills :=
  (getSegmentBase_trSelector hmin hmax _).trans
    (getDescriptorBase_of_encodesTss (encodesTss_efiGdtInit mem fills hdvd hmax hapart).ltr)

/-- The base that `cpu_init` writes to the VMCS, for the host and for the guest. -/
theorem lookup_trBase {h : Host} (hgdtr : h.gdtr = newGdtr gdtr newGdt)
    (htr : h.selector .tr = trSelector gdtr)
    (hmem : h.mem = ltr (efiGdtInit gdtr mem newGdt newTss fills) (tssDescriptor gdtr newGdt))
    (c : Core) :
    (vmcsWrites h c).lookup .hostTrBase = some (trBase newTss fills) ∧
      (vmcsWrites h c).lookup (.guestBase .tr) = some (trBase newTss fills) := by
  have hbase : segmentBase h .tr = trBase newTss fills := by
    rw [segmentBase, hmem, hgdtr, htr]
    exact getSegmentBase_ltr mem fills hdvd hmin hmax hapart
  rw [← hbase]
  exact ⟨rfl, rfl⟩

end base

/-- What is wanted of the selector in the task register: it lies inside the new limit and
behind the old one, and the base that `get_segment_base` finds for it is the address of the
task state segment, before `ltr` and after it. -/
structure TssRoundTrip (gdtr : SegmentDescriptorRegister64) (mem : Mem)
    (newGdt newTss : BitVec 64) (fills : GdtFills) : Prop where
  inside : 8 * (SegmentSelector.index.get (trSelector gdtr)).toNat + 15 ≤
    (newGdtr gdtr newGdt).limit.toNat
  behind : gdtr.limit.toNat < 8 * (SegmentSelector.index.get (trSelector gdtr)).toNat
  base : getSegmentBase (efiGdtInit gdtr mem newGdt newTss fills)
    (newGdtr gdtr newGdt).baseAddress (trSelector gdtr) = newTss
  busy : getSegmentBase (ltr (efiGdtInit gdtr mem newGdt newTss fills) (tssDescriptor gdtr newGdt))
    (newGdtr gdtr newGdt).baseAddress (trSelector gdtr) = newTss

/-- **The address comes back** exactly when `al` leaves the bit available to software clear, or
there is nothing in the upper half to lose. -/
theorem tss_roundTrip_iff (hdvd : 8 ∣ gdtr.limit.toNat + 1) (hmin : 7 ≤ gdtr.limit.toNat)
    (hmax : gdtr.limit.toNat + 16 ≤ 0xFFFF)
    (hapart : Apart newTss tssSize newGdt (newGdtSize gdtr)) :
    TssRoundTrip gdtr mem newGdt newTss fills ↔
      fills.descriptor.getLsbD 4 = false ∨ newTss.toNat < 2 ^ 32 := by
  have hbase := getSegmentBase_efiGdtInit mem fills hdvd hmin hmax hapart
  have hbusy := getSegmentBase_ltr mem fills hdvd hmin hmax hapart
  have hlimit : (newGdtr gdtr newGdt).limit.toNat = gdtr.limit.toNat + 16 := by
    rw [newGdtr, BitVec.toNat_add]
    exact Nat.mod_eq_of_lt (Nat.lt_of_le_of_lt hmax (by decide))
  rw [← trBase_eq_iff]
  constructor
  · exact fun h ↦ hbase.symm.trans h.base
  · refine fun htr ↦ ⟨?_, ?_, hbase.trans htr, hbusy.trans htr⟩
    · rw [hlimit, toNat_index_trSelector hmax]
      omega
    · rw [toNat_index_trSelector hmax]
      omega

end roundTrip

/-- A GDT of six entries, and a task state segment in the upper half of the address
space. -/
theorem tss_roundTrip_sixEntries :
    TssRoundTrip ⟨0x2F, 0x1000⟩ (fun _ ↦ 0) 0x200000 0xFFFF800012345678 ⟨0, 0⟩ :=
  (tss_roundTrip_iff (fun _ ↦ 0) ⟨0, 0⟩ (by decide) (by decide) (by decide)
    ⟨by decide, by decide⟩).mpr (.inl rfl)

/-- With `0x10` in `al`, its upper half is lost. -/
theorem tss_roundTrip_truncated :
    ¬ TssRoundTrip ⟨0x2F, 0x1000⟩ (fun _ ↦ 0) 0x200000 0xFFFF800012345678 ⟨0x10, 0⟩ := by
  intro h
  have hbase : getSegmentBase
      (efiGdtInit ⟨0x2F, 0x1000⟩ (fun _ ↦ 0) 0x200000 0xFFFF800012345678 ⟨0x10, 0⟩) 0x200000
      (trSelector ⟨0x2F, 0x1000⟩) = 0x12345678 :=
    getSegmentBase_efiGdtInit (fun _ ↦ 0) ⟨0x10, 0⟩ (by decide) (by decide) (by decide)
      ⟨by decide, by decide⟩
  exact absurd (hbase.symm.trans h.base) (by decide)

end Hypervi.Loader
