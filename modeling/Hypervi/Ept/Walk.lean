import Hypervi.Ept.Tables
import Hypervi.Mtrr.Region

/-!
# The processor's walk of the tables

`eptWalk` is the EPT walk of the Intel SDM (vol. 3C, "EPT Translation Mechanism")
for a walk length of four and 48 physical address bits: it ends at the entry that
maps a page, or finds nothing when an entry on the way is not present or
misconfigured.

`Built.eptWalk_of_split` and `Built.eptWalk_of_not_split` say where the walk of the
tables of `ept_init_core` ends.  In a region split into 4 KiB pages it gives back the
address it started from.  In a region mapped by a large page it does not: the code assigns
`addr >> 12` to a frame number that counts 2 MiB frames, so that the region is
mapped 512 times too high.  `identityMapped_iff` is the exact extent of that.
-/

namespace Hypervi.Ept

open Bits Ia32 Memory Mtrr Freestanding

/-! ## The walk -/

/-- What a walk that succeeds has found. -/
structure Translation where
  /-- The entries used, from the PML4 entry to the one that maps the page. -/
  path : List (BitVec 64)
  /-- The page has `2 ^ pageBits` bytes. -/
  pageBits : Nat
  memoryType : MemoryType
  hpa : BitVec 64
deriving DecidableEq, Repr

/-- An entry can be used: it is present, not write-only, and its reserved bits
are clear. -/
def usable (reserved : List Field) (e : BitVec 64) : Bool :=
  (readAccess.test e || executeAccess.test e || writeAccess.test e) &&
    (readAccess.test e || !writeAccess.test e) && reserved.all fun f ↦ !f.test e

/-- The physical address bits that a processor with 48 of them does not have. -/
def reservedAddress : Field := ⟨48, 4⟩

/-- A page of `2 ^ bits` bytes is mapped by the last entry of the path. -/
def leaf (bits : Nat) (path : List (BitVec 64)) (e gpa : BitVec 64) : Option Translation :=
  if MemoryType.Legal ((leafMemoryType.get e).setWidth 8) then
    some { path := path ++ [e], pageBits := bits, memoryType := (leafMemoryType.get e).setWidth 8,
           hpa := (Field.get ⟨bits, 48 - bits⟩ e <<< bits) + Field.get ⟨0, bits⟩ gpa }
  else none

/-- The walk that translates a guest-physical address. -/
def eptWalk (m : Mem) (eptp gpa : BitVec 64) : Option Translation :=
  if EptPointer.pageWalkLength.get eptp ≠ eptPageWalkLength4 then none else
  let pml4e := entry m (EptPointer.pageFrameNumber.get eptp <<< 12) (gpa.toNat / 2 ^ 39 % 512)
  if !usable [⟨3, 5⟩, reservedAddress] pml4e then none else
  let pdpte := entry m (tableOf pml4e) (gpa.toNat / 2 ^ 30 % 512)
  if largePage.test pdpte then
    if !usable [⟨12, 18⟩, reservedAddress] pdpte then none else leaf 30 [pml4e] pdpte gpa
  else if !usable [⟨3, 4⟩, reservedAddress] pdpte then none else
  let pde := entry m (tableOf pdpte) (gpa.toNat / 2 ^ 21 % 512)
  if largePage.test pde then
    if !usable [⟨12, 9⟩, reservedAddress] pde then none else leaf 21 [pml4e, pdpte] pde gpa
  else if !usable [⟨3, 4⟩, reservedAddress] pde then none else
  let pte := entry m (tableOf pde) (gpa.toNat / 2 ^ 12 % 512)
  if !usable [reservedAddress] pte then none else leaf 12 [pml4e, pdpte, pde] pte gpa

/-- Reading, writing and executing are allowed. -/
def AllowsAll (e : BitVec 64) : Prop :=
  readAccess.test e = true ∧ writeAccess.test e = true ∧ executeAccess.test e = true

instance (e : BitVec 64) : Decidable (AllowsAll e) := inferInstanceAs (Decidable (_ ∧ _))

/-- The walk for `a` ends at a page of 2 MiB or 4 KiB, through entries that allow
every access, and translates `a` to itself. -/
def IdentityMapped (s : EptState) (a : BitVec 64) : Prop :=
  ∃ t, eptWalk s.mem s.ptr a = some t ∧ (t.pageBits = 21 ∨ t.pageBits = 12) ∧
    (∀ e ∈ t.path, AllowsAll e) ∧ t.hpa = a

/-! ## Reading the entries -/

/-- The start of the 2 MiB region of an address. -/
def regionStart (a : BitVec 64) : BitVec 64 := (a >>> 21) <<< 21

/-- The start of the page of an address. -/
def pageStart (a : BitVec 64) : BitVec 64 := (a >>> 12) <<< 12

theorem toNat_regionStart (a : BitVec 64) : (regionStart a).toNat = a.toNat / 2 ^ 21 * 2 ^ 21 := by
  rw [regionStart, BitVec.toNat_shiftLeft, BitVec.toNat_ushiftRight, Nat.shiftLeft_eq,
    Nat.shiftRight_eq_div_pow]
  omega

theorem toNat_pageStart (a : BitVec 64) : (pageStart a).toNat = a.toNat / 2 ^ 12 * 2 ^ 12 := by
  rw [pageStart, BitVec.toNat_shiftLeft, BitVec.toNat_ushiftRight, Nat.shiftLeft_eq,
    Nat.shiftRight_eq_div_pow]
  omega

section addresses

variable {a : BitVec 64}

theorem toNat_addressOf {i j k : Nat} (hi : i < 512) (hj : j < 512) (hk : k < 512) :
    (addressOf i j k).toNat = i * 2 ^ 30 + j * 2 ^ 21 + k * 2 ^ 12 := by
  rw [addressOf, toNat_ptToAddress, BitVec.toNat_ofNat, BitVec.toNat_ofNat, BitVec.toNat_ofNat]
  simp
  omega

/-- The region that the builder looks up for the PD entry of an address. -/
theorem addressOf_region (ha : a.toNat < 2 ^ 39) :
    addressOf (a.toNat / 2 ^ 30 % 512) (a.toNat / 2 ^ 21 % 512) 0 = regionStart a := by
  apply BitVec.eq_of_toNat_eq
  rw [toNat_addressOf (Nat.mod_lt _ (by decide)) (Nat.mod_lt _ (by decide)) (by decide),
    toNat_regionStart]
  omega

/-- The page that the builder looks up for the PT entry of an address. -/
theorem addressOf_page (ha : a.toNat < 2 ^ 39) :
    addressOf (a.toNat / 2 ^ 30 % 512) (a.toNat / 2 ^ 21 % 512) (a.toNat / 2 ^ 12 % 512) =
      pageStart a := by
  apply BitVec.eq_of_toNat_eq
  rw [toNat_addressOf (Nat.mod_lt _ (by decide)) (Nat.mod_lt _ (by decide))
    (Nat.mod_lt _ (by decide)), toNat_pageStart]
  omega

end addresses

/-- A field of an entry that is not assigned after the access bits. -/
theorem get_accessible {f : Field} (hr : f.Disjoint readAccess) (hw : f.Disjoint writeAccess)
    (hx : f.Disjoint executeAccess) : f.get (accessible 0) = 0 := by
  rw [accessible, Field.get_set_of_disjoint hx, Field.get_set_of_disjoint hw,
    Field.get_set_of_disjoint hr]
  exact Field.get_zero f

theorem get_tableEntry {f : Field} (hr : f.Disjoint readAccess) (hw : f.Disjoint writeAccess)
    (hx : f.Disjoint executeAccess) (hf : f.Disjoint pageFrameNumber) (page : BitVec 64) :
    f.get (tableEntry page) = 0 := by
  rw [tableEntry, Field.get_set_of_disjoint hf]
  exact get_accessible hr hw hx

theorem allowsAll_accessible : AllowsAll (accessible 0) := by decide

/-- Fields above the access bits do not take them away. -/
theorem AllowsAll.set {e : BitVec 64} (h : AllowsAll e) {f : Field} (hf : 3 ≤ f.off)
    (v : BitVec 64) : AllowsAll (f.set e v) := by
  have hr : readAccess.Disjoint f := Or.inl (Nat.le_trans (by decide) hf)
  have hw : writeAccess.Disjoint f := Or.inl (Nat.le_trans (by decide) hf)
  have hx : executeAccess.Disjoint f := Or.inl (Nat.le_trans (by decide) hf)
  rw [AllowsAll, Field.test_set_of_disjoint hr, Field.test_set_of_disjoint hw,
    Field.test_set_of_disjoint hx]
  exact h

theorem allowsAll_tableEntry (page : BitVec 64) : AllowsAll (tableEntry page) :=
  allowsAll_accessible.set (by decide) _

theorem allowsAll_largeEntry (addr : BitVec 64) (t : MemoryType) :
    AllowsAll (largeEntry addr t) :=
  ((allowsAll_accessible.set (by decide) _).set (by decide) _).set (by decide) _

theorem allowsAll_pageEntry (addr : BitVec 64) (t : MemoryType) : AllowsAll (pageEntry addr t) :=
  (allowsAll_accessible.set (by decide) _).set (by decide) _

/-- An entry that allows everything is usable when its reserved bits are clear. -/
theorem AllowsAll.usable {e : BitVec 64} (h : AllowsAll e) {reserved : List Field}
    (hr : ∀ f ∈ reserved, f.get e = 0) : usable reserved e = true := by
  obtain ⟨h₁, h₂, h₃⟩ := h
  have hall : reserved.all (fun f ↦ !f.test e) = true := by
    rw [List.all_eq_true]
    intro f hf
    simp [Field.test, hr f hf]
  simp [Ept.usable, h₁, hall]

/-- The frame number of an aligned page leads back to the page. -/
theorem shiftLeft_trunc_shiftRight {page : BitVec 64} (hd : 0x1000 ∣ page.toNat)
    (hlt : page.toNat < 2 ^ 48) {f : Field} (hf : f.len = 36) :
    f.trunc (page >>> 12) <<< 12 = page := by
  apply BitVec.eq_of_toNat_eq
  rw [BitVec.toNat_shiftLeft, Field.toNat_trunc, hf, BitVec.toNat_ushiftRight, Nat.shiftLeft_eq,
    Nat.shiftRight_eq_div_pow]
  omega

theorem tableOf_tableEntry {page : BitVec 64} (hd : 0x1000 ∣ page.toNat)
    (hlt : page.toNat < 2 ^ 48) : tableOf (tableEntry page) = page := by
  rw [tableOf, tableEntry, Field.get_set_self _ _ _ (by decide)]
  exact shiftLeft_trunc_shiftRight hd hlt rfl

theorem tableOf_eptPointer {page : BitVec 64} (hd : 0x1000 ∣ page.toNat)
    (hlt : page.toNat < 2 ^ 48) :
    EptPointer.pageFrameNumber.get (eptPointer page) <<< 12 = page := by
  rw [eptPointer, Field.get_set_self _ _ _ (by decide)]
  exact shiftLeft_trunc_shiftRight hd hlt rfl

theorem pageWalkLength_eptPointer (page : BitVec 64) :
    EptPointer.pageWalkLength.get (eptPointer page) = eptPageWalkLength4 := by
  rw [eptPointer, Field.get_set_of_disjoint (by decide), Field.get_set_self _ _ _ (by decide)]
  rfl

/-- A legal memory type fits the three bits it is stored in. -/
theorem trunc_leafMemoryType {t : MemoryType} (ht : t.Legal) :
    leafMemoryType.trunc (t.setWidth 64 : BitVec 64) = t.setWidth 64 := by
  rcases ht with rfl | rfl | rfl | rfl | rfl <;> decide

theorem setWidth_memoryType (t : MemoryType) : (t.setWidth 64).setWidth 8 = t := by
  rw [BitVec.setWidth_setWidth_of_le _ (by decide), BitVec.setWidth_eq]

theorem get_largeEntry (addr : BitVec 64) {t : MemoryType} (ht : t.Legal) :
    leafMemoryType.get (largeEntry addr t) = t.setWidth 64 := by
  rw [largeEntry, Field.get_set_of_disjoint (by decide), Field.get_set_self _ _ _ (by decide)]
  exact trunc_leafMemoryType ht

theorem get_pageEntry (addr : BitVec 64) {t : MemoryType} (ht : t.Legal) :
    leafMemoryType.get (pageEntry addr t) = t.setWidth 64 := by
  rw [pageEntry, Field.get_set_of_disjoint (by decide), Field.get_set_self _ _ _ (by decide)]
  exact trunc_leafMemoryType ht

theorem leafMemoryType_largeEntry (addr : BitVec 64) {t : MemoryType} (ht : t.Legal) :
    ((leafMemoryType.get (largeEntry addr t)).setWidth 8 : MemoryType) = t := by
  rw [get_largeEntry addr ht]
  exact setWidth_memoryType t

theorem leafMemoryType_pageEntry (addr : BitVec 64) {t : MemoryType} (ht : t.Legal) :
    ((leafMemoryType.get (pageEntry addr t)).setWidth 8 : MemoryType) = t := by
  rw [get_pageEntry addr ht]
  exact setWidth_memoryType t

theorem not_largePage_tableEntry (page : BitVec 64) : largePage.test (tableEntry page) = false := by
  rw [Field.test, get_tableEntry (by decide) (by decide) (by decide) (by decide)]
  rfl

theorem largePage_largeEntry (addr : BitVec 64) (t : MemoryType) :
    largePage.test (largeEntry addr t) = true := by
  rw [Field.test, largeEntry, Field.get_set_of_disjoint (by decide),
    Field.get_set_of_disjoint (by decide), Field.get_set_self _ _ _ (by decide)]
  rfl

theorem usable_tableEntry (page : BitVec 64) :
    usable [⟨3, 5⟩, reservedAddress] (tableEntry page) = true ∧
      usable [⟨3, 4⟩, reservedAddress] (tableEntry page) = true := by
  have h {f : Field} (hf : 3 ≤ f.off) (hd : f.Disjoint pageFrameNumber) :
      f.get (tableEntry page) = 0 :=
    get_tableEntry (Or.inr (Nat.le_trans (by decide) hf)) (Or.inr (Nat.le_trans (by decide) hf))
      (Or.inr (Nat.le_trans (by decide) hf)) hd page
  constructor <;> refine (allowsAll_tableEntry page).usable fun f hf ↦ ?_ <;>
    simp only [List.mem_cons, List.not_mem_nil, or_false] at hf <;> rcases hf with rfl | rfl <;>
      exact h (by decide) (by decide)

theorem usable_largeEntry (addr : BitVec 64) (t : MemoryType) :
    usable [⟨12, 9⟩, reservedAddress] (largeEntry addr t) = true := by
  refine (allowsAll_largeEntry addr t).usable fun f hf ↦ ?_
  simp only [List.mem_cons, List.not_mem_nil, or_false] at hf
  rcases hf with rfl | rfl <;>
    rw [largeEntry, Field.get_set_of_disjoint (by decide), Field.get_set_of_disjoint (by decide),
      Field.get_set_of_disjoint (by decide)] <;>
    exact get_accessible (by decide) (by decide) (by decide)

theorem usable_pageEntry (addr : BitVec 64) (t : MemoryType) :
    usable [reservedAddress] (pageEntry addr t) = true := by
  refine (allowsAll_pageEntry addr t).usable fun f hf ↦ ?_
  rw [List.mem_singleton.mp hf, pageEntry, Field.get_set_of_disjoint (by decide),
    Field.get_set_of_disjoint (by decide)]
  exact get_accessible (by decide) (by decide) (by decide)

/-! ## Where the walk ends -/

section walk

variable {alloc : Nat → BitVec 64} {g : Globals} {s : EptState} {a : BitVec 64}

/-- The PDPT index of an address. -/
def pdptIndex (a : BitVec 64) : Nat := a.toNat / 2 ^ 30 % 512

/-- The PD index of an address. -/
def pdIndex (a : BitVec 64) : Nat := a.toNat / 2 ^ 21 % 512

/-- The PT index of an address. -/
def ptIndex (a : BitVec 64) : Nat := a.toNat / 2 ^ 12 % 512

theorem pdptIndex_lt (a : BitVec 64) : pdptIndex a < 512 := Nat.mod_lt _ (by decide)
theorem pdIndex_lt (a : BitVec 64) : pdIndex a < 512 := Nat.mod_lt _ (by decide)
theorem ptIndex_lt (a : BitVec 64) : ptIndex a < 512 := Nat.mod_lt _ (by decide)

/-- The entries above the page directory, for every address below 512 GiB. -/
theorem Built.eptWalk (h : Built alloc g s) (hp : Pages alloc s.calls) (ha : a.toNat < 2 ^ 39) :
    eptWalk s.mem s.ptr a =
      let path := [tableEntry (alloc 1), tableEntry (alloc (s.pd (pdptIndex a)))]
      let pde := entry s.mem (alloc (s.pd (pdptIndex a))) (pdIndex a)
      if largePage.test pde then
        if !usable [⟨12, 9⟩, reservedAddress] pde then none else leaf 21 path pde a
      else if !usable [⟨3, 4⟩, reservedAddress] pde then none else
      let pte := entry s.mem (tableOf pde) (ptIndex a)
      if !usable [reservedAddress] pte then none else leaf 12 (path ++ [pde]) pte a := by
  have hpd := h.pdpt (pdptIndex a) (pdptIndex_lt a)
  have hlink : entry s.mem (alloc 1) (a.toNat / 2 ^ 30 % 512) =
      tableEntry (alloc (s.pd (pdptIndex a))) := hpd.link
  have h0 : 0 < s.calls := Nat.lt_of_lt_of_le Nat.two_pos h.calls
  have h4 : a.toNat / 2 ^ 39 % 512 = 0 := by omega
  rw [Ept.eptWalk, h.ptr, pageWalkLength_eptPointer, if_neg (not_not_intro rfl),
    tableOf_eptPointer (hp.aligned 0 h0) (hp.lt 0 h0), h4, h.pml4]
  simp only [tableOf_tableEntry (hp.aligned 1 h.calls) (hp.lt 1 h.calls), hlink,
    tableOf_tableEntry (hp.aligned _ hpd.allocated) (hp.lt _ hpd.allocated),
    (usable_tableEntry _).1, (usable_tableEntry _).2, not_largePage_tableEntry]
  rfl

/-- Where a region is split, the walk ends at the page of the address. -/
theorem Built.eptWalk_of_split (h : Built alloc g s) (hp : Pages alloc s.calls)
    (ha : a.toNat < 2 ^ 39) (hs : Split g (pdptIndex a) (pdIndex a))
    (hl : (eptGetMemoryType g (pageStart a) 0x1000).Legal) :
    Ept.eptWalk s.mem s.ptr a = some
      { path := [tableEntry (alloc 1), tableEntry (alloc (s.pd (pdptIndex a))),
          tableEntry (alloc (s.pt (pdptIndex a) (pdIndex a))),
          pageEntry (pageStart a) (eptGetMemoryType g (pageStart a) 0x1000)],
        pageBits := 12, memoryType := eptGetMemoryType g (pageStart a) 0x1000, hpa := a } := by
  have hpd := (h.pdpt (pdptIndex a) (pdptIndex_lt a)).directory (pdIndex a) (pdIndex_lt a)
  have hpage : addressOf (pdptIndex a) (pdIndex a) (ptIndex a) = pageStart a := addressOf_page ha
  have hhpa : (Field.get ⟨12, 48 - 12⟩ (pageEntry (pageStart a)
      (eptGetMemoryType g (pageStart a) 0x1000)) <<< 12) + Field.get ⟨0, 12⟩ a = a := by
    change (pageFrameNumber.get _ <<< 12) + _ = _
    rw [pageEntry, Field.get_set_self _ _ _ (by decide)]
    apply BitVec.eq_of_toNat_eq
    rw [BitVec.toNat_add, BitVec.toNat_shiftLeft, Field.toNat_trunc, Field.toNat_get_low,
      BitVec.toNat_ushiftRight, toNat_pageStart, Nat.shiftLeft_eq, Nat.shiftRight_eq_div_pow]
    simp only [pageFrameNumber]
    omega
  rw [h.eptWalk hp ha]
  simp only [hpd.split hs, not_largePage_tableEntry, (usable_tableEntry _).2,
    tableOf_tableEntry (hp.aligned _ (hpd.allocated hs)) (hp.lt _ (hpd.allocated hs)),
    hpd.pages hs _ (ptIndex_lt a), hpage, usable_pageEntry, leaf, leafMemoryType_pageEntry _ hl,
    if_pos hl, hhpa]
  rfl

/-- Where a region is mapped by a large page, the walk ends at a frame 512 times
as high as the region. -/
theorem Built.eptWalk_of_not_split (h : Built alloc g s) (hp : Pages alloc s.calls)
    (ha : a.toNat < 2 ^ 39) (hs : ¬ Split g (pdptIndex a) (pdIndex a))
    (hl : (eptGetMemoryType g (regionStart a) 0x200000).Legal) :
    Ept.eptWalk s.mem s.ptr a = some
      { path := [tableEntry (alloc 1), tableEntry (alloc (s.pd (pdptIndex a))),
          largeEntry (regionStart a) (eptGetMemoryType g (regionStart a) 0x200000)],
        pageBits := 21, memoryType := eptGetMemoryType g (regionStart a) 0x200000,
        hpa := (regionStart a <<< 9) + Field.get ⟨0, 21⟩ a } := by
  have hpd := (h.pdpt (pdptIndex a) (pdptIndex_lt a)).directory (pdIndex a) (pdIndex_lt a)
  have hregion : addressOf (pdptIndex a) (pdIndex a) 0 = regionStart a := addressOf_region ha
  have hframe : Field.get ⟨21, 48 - 21⟩ (largeEntry (regionStart a)
      (eptGetMemoryType g (regionStart a) 0x200000)) <<< 21 = regionStart a <<< 9 := by
    change Epde2mb.pageFrameNumber.get _ <<< 21 = _
    rw [largeEntry, Field.get_set_self _ _ _ (by decide)]
    apply BitVec.eq_of_toNat_eq
    rw [BitVec.toNat_shiftLeft, BitVec.toNat_shiftLeft, Field.toNat_trunc,
      BitVec.toNat_ushiftRight, toNat_regionStart, Nat.shiftLeft_eq, Nat.shiftLeft_eq,
      Nat.shiftRight_eq_div_pow]
    simp only [Epde2mb.pageFrameNumber]
    omega
  rw [h.eptWalk hp ha]
  simp only [hpd.large hs, hregion, largePage_largeEntry, usable_largeEntry, leaf,
    leafMemoryType_largeEntry _ hl, if_pos hl, hframe]
  rfl

end walk

/-! ## The identity mapping -/

section identity

variable {msrs : Msrs} {a : BitVec 64}

theorem split_iff {g : Globals} (ha : a.toNat < 2 ^ 39) :
    Split g (pdptIndex a) (pdIndex a) ↔
      eptGetMemoryType g (regionStart a) 0x200000 = memoryTypeInvalid := by
  rw [Split]
  exact addressOf_region ha ▸ Iff.rfl

theorem legal_pageStart (h : LegalTypes msrs) (rax : Nat → BitVec 64) (a : BitVec 64) :
    (eptGetMemoryType (eptInitMtrr rax msrs) (pageStart a) 0x1000).Legal :=
  h.page rax (by rw [toNat_pageStart]; exact Nat.dvd_mul_left _ _)

/-- A large page is an identity mapping in the first region only. -/
theorem shiftLeft_regionStart_eq_iff (ha : a.toNat < 2 ^ 39) :
    (regionStart a <<< 9) + Field.get ⟨0, 21⟩ a = a ↔ a.toNat < 0x200000 := by
  have h : ((regionStart a <<< 9) + Field.get ⟨0, 21⟩ a).toNat =
      a.toNat / 2 ^ 21 * 2 ^ 30 + a.toNat % 2 ^ 21 := by
    rw [BitVec.toNat_add, BitVec.toNat_shiftLeft, Field.toNat_get_low, toNat_regionStart,
      Nat.shiftLeft_eq]
    omega
  rw [← BitVec.toNat_inj, h]
  omega

/-- Splitting a region gives the identity mapping. -/
theorem Built.identityMapped_of_split {alloc : Nat → BitVec 64} {g : Globals} {s : EptState}
    (h : Built alloc g s) (hp : Pages alloc s.calls) (ha : a.toNat < 2 ^ 39)
    (hs : Split g (pdptIndex a) (pdIndex a))
    (hl : (eptGetMemoryType g (pageStart a) 0x1000).Legal) : IdentityMapped s a := by
  refine ⟨_, h.eptWalk_of_split hp ha hs hl, Or.inr rfl, ?_, rfl⟩
  intro e he
  simp only [List.mem_cons, List.not_mem_nil, or_false] at he
  rcases he with rfl | rfl | rfl | rfl
  · exact allowsAll_tableEntry _
  · exact allowsAll_tableEntry _
  · exact allowsAll_tableEntry _
  · exact allowsAll_pageEntry _ _

/-- A large page gives the identity mapping in the first region only. -/
theorem Built.identityMapped_iff_of_not_split {alloc : Nat → BitVec 64} {g : Globals}
    {s : EptState} (h : Built alloc g s) (hp : Pages alloc s.calls) (ha : a.toNat < 2 ^ 39)
    (hs : ¬ Split g (pdptIndex a) (pdIndex a))
    (hl : (eptGetMemoryType g (regionStart a) 0x200000).Legal) :
    IdentityMapped s a ↔ a.toNat < 0x200000 := by
  have hwalk := h.eptWalk_of_not_split hp ha hs hl
  rw [← shiftLeft_regionStart_eq_iff ha]
  constructor
  · rintro ⟨t, ht, -, -, hhpa⟩
    rw [hwalk] at ht
    cases ht
    exact hhpa
  · intro hhpa
    refine ⟨_, hwalk, Or.inl rfl, ?_, hhpa⟩
    intro e he
    simp only [List.mem_cons, List.not_mem_nil, or_false] at he
    rcases he with rfl | rfl | rfl
    · exact allowsAll_tableEntry _
    · exact allowsAll_tableEntry _
    · exact allowsAll_largeEntry _ _

/-- An address below 512 GiB is mapped to itself exactly when it lies in the first
2 MiB or in a region that has no single memory type and is split. -/
theorem identityMapped_iff (hl : LegalTypes msrs) (rax : Nat → BitVec 64)
    (alloc : Nat → BitVec 64) (mem : Mem)
    (hp : Pages alloc (eptInitCore alloc (eptInitMtrr rax msrs) mem).calls)
    (ha : a.toNat < 2 ^ 39) :
    IdentityMapped (eptInitCore alloc (eptInitMtrr rax msrs) mem) a ↔
      a.toNat < 0x200000 ∨
        eptGetMemoryType (eptInitMtrr rax msrs) (regionStart a) 0x200000 = memoryTypeInvalid := by
  have hb := built_eptInitCore mem hp
  by_cases hs : Split (eptInitMtrr rax msrs) (pdptIndex a) (pdIndex a)
  · exact iff_of_true (hb.identityMapped_of_split hp ha hs (legal_pageStart hl rax a))
      (Or.inr ((split_iff ha).mp hs))
  · have hne := fun h ↦ hs ((split_iff ha).mpr h)
    rw [or_iff_left hne]
    exact hb.identityMapped_iff_of_not_split hp ha hs
      ((hl.lookup rax (regionStart a) 0x200000).resolve_left hne)

end identity

/-! ## Memory without ranges -/

/-- Write-back memory without any range. -/
def writeBackOnly : Msrs := fun id ↦ if id = ia32MtrrDefType then 0x806 else 0

/-- An allocator that hands out one page after the other. -/
def consecutivePages (n : Nat) : BitVec 64 := BitVec.ofNat 64 ((n + 1) * 0x1000)

theorem pages_consecutivePages {n : Nat} (hn : n < 2 ^ 35) : Pages consecutivePages n := by
  have h : ∀ i < n, (consecutivePages i).toNat = (i + 1) * 0x1000 := fun i hi ↦ by
    rw [consecutivePages, BitVec.toNat_ofNat]
    omega
  constructor
  · intro i hi
    rw [h i hi]
    exact Nat.dvd_mul_left _ _
  · intro i hi h0
    have := h i hi
    rw [h0] at this
    simp at this
  · intro i hi
    rw [h i hi]
    omega
  · intro i hi j hj hij
    have hi' := h i hi
    have hj' := h j hj
    exact apart_of_le (by omega) (by omega) (by decide) (by decide) (by omega)

theorem legalTypes_writeBackOnly : LegalTypes writeBackOnly :=
  ⟨by decide, fun h ↦ absurd h (by decide), fun i hi ↦ absurd hi (Nat.not_lt_zero i)⟩

/-- The number of calls of `ldr_malloc` leaves room for consecutive pages. -/
theorem pages_eptInitCore (g : Globals) (mem : Mem) :
    Pages consecutivePages (eptInitCore consecutivePages g mem).calls :=
  pages_consecutivePages (Nat.lt_of_le_of_lt (calls_eptInitCore_le mem) (by decide))

/-- Without ranges the first region is mapped to itself. -/
theorem identityMapped_writeBackOnly :
    IdentityMapped (eptInitCore consecutivePages (eptInitMtrr (fun _ ↦ 0) writeBackOnly) fun _ ↦ 0)
      0x1000 :=
  (identityMapped_iff legalTypes_writeBackOnly _ _ _ (pages_eptInitCore _ _) (by decide)).mpr
    (Or.inl (by decide))

/-- The second region is mapped by a large page, at 1 GiB. -/
theorem not_identityMapped_writeBackOnly :
    LegalTypes writeBackOnly ∧
    Pages consecutivePages (eptInitCore consecutivePages
      (eptInitMtrr (fun _ ↦ 0) writeBackOnly) fun _ ↦ 0).calls ∧
    ¬ IdentityMapped (eptInitCore consecutivePages (eptInitMtrr (fun _ ↦ 0) writeBackOnly)
      fun _ ↦ 0) 0x200000 := by
  have hp := pages_eptInitCore (eptInitMtrr (fun _ ↦ 0) writeBackOnly) fun _ ↦ 0
  have hl : (eptGetMemoryType (eptInitMtrr (fun _ ↦ 0) writeBackOnly) (regionStart 0x200000)
      0x200000).Legal := by decide +kernel
  have hs : ¬ Split (eptInitMtrr (fun _ ↦ 0) writeBackOnly) (pdptIndex 0x200000)
      (pdIndex 0x200000) := by decide +kernel
  refine ⟨legalTypes_writeBackOnly, hp, fun h ↦ ?_⟩
  have hbuilt := built_eptInitCore (fun _ ↦ 0) hp
  exact absurd ((hbuilt.identityMapped_iff_of_not_split hp (by decide) hs hl).mp h) (by decide)

end Hypervi.Ept
