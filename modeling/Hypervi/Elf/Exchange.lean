import Hypervi.Elf.Relocations
import Hypervi.Elf.Touch
import Hypervi.Freestanding.Strings
import Hypervi.Memory.Reorder
import Mathlib.Logic.Equiv.Basic

/-!
# Two section headers change places

The mapper goes through the section table once, so the place of a section decides what comes
before it, and also which addend it takes for its symbols.  `sectionTouches` lists what a section
does to a word, and `boundAt` the addresses that it binds from a place in the table.

When two sections change places, every word that shares no byte with another one that is touched
ends as before exactly on the condition `ExchangeKeeps`, and so it is for memory, when the
patches of the other words may be made in either order (`mem_swapSections`,
`exchangeKeeps_of_mem_eq`).
-/

namespace Hypervi.Elf.ElfMapper

open Memory Freestanding

/-! ## What a section does to a word -/

section touches

variable (m : ElfMapper) (env : Machine) (mapped : BitVec 64)

/-- What an entry does to the word at `t`. -/
def entryTouch (t : BitVec 64) (j reli : Nat) : Option (Touch Nat) :=
  if m.relocTarget mapped j reli = t then
    if m.relocType j reli = .relative then some .rebase
    else if m.relocType j reli = .junpSlot ∨ m.relocType j reli = .globDat then some (.bind reli)
    else none
  else none

/-- What a section does to it. -/
def sectionTouches (t : BitVec 64) (j : Nat) : List (Touch Nat) :=
  (if m.GotHas mapped t j then [.rebase] else []) ++
    if (m.mShdrs j).shType = .rela then
      (List.range (relocCount (m.mShdrs j))).filterMap (m.entryTouch mapped t j)
    else []

/-- The address that an entry of the `j`-th section binds when the section is the `i`-th. -/
def boundAt (i j reli : Nat) : BitVec 64 := m.boundValue env i (m.mShdrs j).shOffset reli

/-- What the `j`-th section does to the word from the `i`-th place. -/
def touchesAt (t : BitVec 64) (i j : Nat) : List (Touch (BitVec 64)) :=
  (m.sectionTouches mapped t j).map (Touch.map (m.boundAt env i j))

/-- The patches of the `j`-th section from the `i`-th place. -/
def patchesAt (i j : Nat) : List Patch :=
  (if m.isNamed (m.mShdrs j) gotName then gotPatches mapped (m.mShdrs j) else []) ++
    if (m.mShdrs j).shType = .rela then m.relaPatches env mapped i (m.mShdrs j) else []

variable {m env mapped}

theorem patchWord_entry (t : BitVec 64) (i j reli : Nat) (v : BitVec 64) :
    patchWord (m.relocPatch env mapped i (m.mShdrs j).shOffset reli).toList t v =
      Touch.settle mapped
        ((m.entryTouch mapped t j reli).map (Touch.map (m.boundAt env i j))).toList v := by
  have hone (p : Patch) : patchWord [p] t v = if p.target = t then p.op v else v := rfl
  have hpatch : m.relocPatch env mapped i (m.mShdrs j).shOffset reli =
      if m.relocType j reli = .relative then
        some ⟨m.relocTarget mapped j reli, fun v ↦ v + mapped⟩
      else if m.relocType j reli = .junpSlot ∨ m.relocType j reli = .globDat then
        some ⟨m.relocTarget mapped j reli, fun _ ↦ m.boundAt env i j reli⟩
      else none := rfl
  rw [hpatch, entryTouch, ← Touch.foldl_touch]
  by_cases ht : m.relocTarget mapped j reli = t
  · rw [if_pos ht]
    split
    · rw [Option.toList_some, hone, if_pos ht]
      rfl
    · split
      · rw [Option.toList_some, hone, if_pos ht]
        rfl
      · rfl
  · rw [if_neg ht]
    split
    · rw [Option.toList_some, hone, if_neg ht]
      rfl
    · split
      · rw [Option.toList_some, hone, if_neg ht]
        rfl
      · rfl

theorem patchWord_entries (t : BitVec 64) (i j : Nat) (relis : List Nat) (v : BitVec 64) :
    patchWord (relis.filterMap (m.relocPatch env mapped i (m.mShdrs j).shOffset)) t v =
      Touch.settle mapped
        ((relis.filterMap (m.entryTouch mapped t j)).map (Touch.map (m.boundAt env i j))) v := by
  rw [List.map_filterMap, List.filterMap_eq_flatMap_toList, List.filterMap_eq_flatMap_toList]
  induction relis generalizing v with
  | nil => exact (Touch.settle_nil mapped v).symm
  | cons reli relis ih =>
      rw [List.flatMap_cons, List.flatMap_cons, patchWord_append, Touch.settle_append,
        patchWord_entry, ih]

/-- What the patches of a section make of a word, as what happens to it. -/
theorem patchWord_patchesAt (t : BitVec 64) (i j : Nat) (v : BitVec 64) :
    patchWord (m.patchesAt env mapped i j) t v =
      Touch.settle mapped (m.touchesAt env mapped t i j) v := by
  have hgot : patchWord (if m.isNamed (m.mShdrs j) gotName then gotPatches mapped (m.mShdrs j)
      else []) t v = Touch.settle mapped ((if m.GotHas mapped t j then [Touch.rebase] else []).map
        (Touch.map (m.boundAt env i j))) v := by
    rw [patchWord_got, ← Touch.foldl_touch]
    split
    · rfl
    · rfl
  rw [patchesAt, touchesAt, sectionTouches, List.map_append, patchWord_append,
    Touch.settle_append, hgot]
  split
  · exact patchWord_entries t i j _ _
  · rw [List.map_nil, Touch.settle_nil]
    rfl

theorem patchWord_sections (t : BitVec 64) (is : List Nat) (v : BitVec 64) :
    patchWord (is.flatMap (m.sectionPatches env mapped)) t v =
      Touch.settle mapped (is.flatMap fun k ↦ m.touchesAt env mapped t k k) v := by
  induction is generalizing v with
  | nil => exact (Touch.settle_nil mapped v).symm
  | cons k is ih =>
      have hk : m.sectionPatches env mapped k = m.patchesAt env mapped k k := rfl
      rw [List.flatMap_cons, List.flatMap_cons, patchWord_append, Touch.settle_append, hk,
        patchWord_patchesAt, ih]

end touches

/-! ## Two section headers change places -/

section swap

/-- The file with the `g`-th and the `r`-th section header exchanged, and the index of the
section of names with them. -/
def swapSections (m : ElfMapper) (g r : Nat) : ElfMapper where
  mFile := m.mFile
  mImports := m.mImports
  mEhdr := { m.mEhdr with
    eShstrndx := BitVec.ofNat 16 (Equiv.swap g r m.mEhdr.eShstrndx.toNat) }
  mPhdrs := m.mPhdrs
  mShdrs i := m.mShdrs (Equiv.swap g r i)

variable {m : ElfMapper} {env : Machine} {mapped : BitVec 64} {g r : Nat}

theorem swapSections_comm : m.swapSections g r = m.swapSections r g := by
  rw [swapSections, swapSections, Equiv.swap_comm]

theorem swapSections_self : m.swapSections g g = m := by
  simp only [swapSections, Equiv.swap_self, Equiv.refl_apply, BitVec.ofNat_toNat,
    BitVec.setWidth_eq]

theorem swap_lt {n i : Nat} (hg : g < n) (hr : r < n) (hi : i < n) : Equiv.swap g r i < n := by
  rw [Equiv.swap_apply_def]
  split
  · exact hr
  · split
    · exact hg
    · exact hi

theorem swap_lt_iff {n i : Nat} (hg : g < n) (hr : r < n) : Equiv.swap g r i < n ↔ i < n := by
  constructor
  · intro h
    have hback := swap_lt hg hr h
    rwa [Equiv.swap_apply_self] at hback
  · exact swap_lt hg hr

theorem isNamed_swapSections (hg : g < m.shnum) (hr : r < m.shnum) :
    (m.swapSections g r).isNamed = m.isNamed := by
  have hindex : (m.swapSections g r).mShdrs (m.swapSections g r).mEhdr.eShstrndx.toNat =
      m.mShdrs m.mEhdr.eShstrndx.toNat := by
    have hlt : Equiv.swap g r m.mEhdr.eShstrndx.toNat < 2 ^ 16 :=
      swap_lt (Nat.lt_trans hg m.mEhdr.eShnum.isLt) (Nat.lt_trans hr m.mEhdr.eShnum.isLt)
        m.mEhdr.eShstrndx.isLt
    simp only [swapSections, BitVec.toNat_ofNat]
    rw [Nat.mod_eq_of_lt hlt, Equiv.swap_apply_self]
  funext sec name
  have hname : (m.swapSections g r).sectionName sec = m.sectionName sec := by
    funext k
    rw [sectionName, sectionName, hindex]
    rfl
  rw [isNamed, isNamed, hname]

theorem isReloc_swapSections (hg : g < m.shnum) (hr : r < m.shnum) {i reli : Nat} :
    (m.swapSections g r).IsReloc i reli ↔ m.IsReloc (Equiv.swap g r i) reli := by
  constructor
  · rintro ⟨hlt, hrela, hreli⟩
    exact ⟨swap_lt hg hr hlt, hrela, hreli⟩
  · rintro ⟨hlt, hrela, hreli⟩
    exact ⟨(swap_lt_iff hg hr).mp hlt, hrela, hreli⟩

theorem relocAt_swapSections (i reli : Nat) :
    (m.swapSections g r).relocAt i reli = m.relocAt (Equiv.swap g r i) reli := rfl

theorem gotHas_swapSections (hg : g < m.shnum) (hr : r < m.shnum) {t : BitVec 64} {i : Nat} :
    (m.swapSections g r).GotHas mapped t i ↔ m.GotHas mapped t (Equiv.swap g r i) := by
  rw [GotHas, isNamed_swapSections hg hr]
  rfl

end swap

/-! ### The tables that the entries refer to -/

section tables

variable {m : ElfMapper} {env : Machine} {mapped : BitVec 64} {g r : Nat}

/-- A search that neither of the two answers ends as before. -/
theorem findSection_swapSections {test : Elf64Shdr → Bool} (hg : test (m.mShdrs g) = false)
    (hr : test (m.mShdrs r) = false) :
    (m.swapSections g r).findSection test = m.findSection test := by
  have hshnum : (m.swapSections g r).shnum = m.shnum := rfl
  have hstays (i : Nat) : test (m.mShdrs (Equiv.swap g r i)) = test (m.mShdrs i) ∧
      (test (m.mShdrs i) = true → m.mShdrs (Equiv.swap g r i) = m.mShdrs i) := by
    by_cases hig : i = g
    · rw [hig, Equiv.swap_apply_left, hg, hr]
      exact ⟨rfl, fun h ↦ absurd h Bool.false_ne_true⟩
    · by_cases hir : i = r
      · rw [hir, Equiv.swap_apply_right, hg, hr]
        exact ⟨rfl, fun h ↦ absurd h Bool.false_ne_true⟩
      · rw [Equiv.swap_apply_of_ne_of_ne hig hir]
        exact ⟨rfl, fun _ ↦ rfl⟩
  rw [findSection, findSection, hshnum]
  induction List.range m.shnum with
  | nil => rfl
  | cons i is ih =>
      have hi : (m.swapSections g r).mShdrs i = m.mShdrs (Equiv.swap g r i) := rfl
      obtain ⟨htest, hsame⟩ := hstays i
      rw [List.map_cons, List.map_cons, List.find?_cons, List.find?_cons, hi, htest]
      cases hcase : test (m.mShdrs i) with
      | true => rw [hsame hcase]
      | false => exact ih

theorem findSection_eq_some {test : Elf64Shdr → Bool} {sec : Elf64Shdr}
    (h : m.findSection test = some sec) : ∃ i < m.shnum, m.mShdrs i = sec ∧ test sec = true := by
  obtain ⟨i, hi, hsec⟩ := List.mem_map.mp (List.mem_of_find?_eq_some h)
  exact ⟨i, List.mem_range.mp hi, hsec, List.find?_some h⟩

theorem findSection_isSome {test : Elf64Shdr → Bool} {i : Nat} (hi : i < m.shnum)
    (htest : test (m.mShdrs i) = true) : ∃ sec, m.findSection test = some sec := by
  rw [← Option.isSome_iff_exists, findSection, List.find?_isSome]
  exact ⟨m.mShdrs i, List.mem_map_of_mem (List.mem_range.mpr hi), htest⟩

/-- And so does one that only one section answers. -/
theorem findSection_swapSections_of_unique {test : Elf64Shdr → Bool} (hg : g < m.shnum)
    (hr : r < m.shnum) (hone : ∀ i < m.shnum, ∀ j < m.shnum, test (m.mShdrs i) = true →
      test (m.mShdrs j) = true → m.mShdrs i = m.mShdrs j) :
    (m.swapSections g r).findSection test = m.findSection test := by
  cases hfound : m.findSection test with
  | some sec =>
      obtain ⟨i, hi, rfl, htest⟩ := findSection_eq_some hfound
      have hplace : (m.swapSections g r).mShdrs (Equiv.swap g r i) = m.mShdrs i :=
        congrArg m.mShdrs (Equiv.swap_apply_self g r i)
      obtain ⟨sec', hfound'⟩ := findSection_isSome (m := m.swapSections g r)
        (swap_lt hg hr hi) (hplace ▸ htest)
      obtain ⟨j, hj, rfl, htest'⟩ := findSection_eq_some hfound'
      rw [hfound']
      exact congrArg some (hone _ (swap_lt hg hr hj) i hi htest' htest)
  | none =>
      cases hfound' : (m.swapSections g r).findSection test with
      | none => rfl
      | some sec =>
          obtain ⟨j, hj, rfl, htest⟩ := findSection_eq_some hfound'
          obtain ⟨sec', hsec'⟩ := findSection_isSome (m := m) (swap_lt hg hr hj) htest
          rw [hfound] at hsec'
          exact absurd hsec' (Option.some_ne_none sec').symm

/-- A section has one name. -/
theorem not_isNamed_dynstr {sec : Elf64Shdr} (h : m.isNamed sec gotName = true) :
    m.isNamed sec dynstrName = false := by
  rw [Bool.eq_false_iff]
  intro hdynstr
  have hgot : Spells (m.sectionName sec) gotName := (m.isNamed_iff sec gotName).mp h
  have hname : Spells (m.sectionName sec) dynstrName := (m.isNamed_iff sec dynstrName).mp hdynstr
  exact absurd (hgot.from.unique hname.from) (by decide)

/-- The two kinds that change places; neither is the table of strings of the entries. -/
def GotOrRela (m : ElfMapper) (sec : Elf64Shdr) : Prop :=
  m.isNamed sec gotName = true ∨ sec.shType = .rela

theorem boundValue_swapSections (hg : g < m.shnum) (hr : r < m.shnum)
    (hgot : m.GotOrRela (m.mShdrs g)) (hrela : m.GotOrRela (m.mShdrs r))
    (hsym : (m.swapSections g r).dynsymSection = m.dynsymSection) :
    (m.swapSections g r).boundValue env = m.boundValue env := by
  have hnamed := isNamed_swapSections hg hr
  have hdynstr {sec : Elf64Shdr} (h : m.GotOrRela sec) :
      (sec.shType == .strtab && m.isNamed sec dynstrName) = false := by
    rcases h with hname | htype
    · rw [not_isNamed_dynstr hname, Bool.and_false]
    · rw [htype]
      rfl
  have hstr : (m.swapSections g r).dynstrSection = m.dynstrSection := by
    rw [dynstrSection, dynstrSection, hnamed]
    exact findSection_swapSections (hdynstr hgot) (hdynstr hrela)
  have hoffset : (m.swapSections g r).dynstrOffset env = m.dynstrOffset env := by
    rw [dynstrOffset, dynstrOffset, hstr]
  have hsymbol : (m.swapSections g r).dynsym env = m.dynsym env := by
    funext sym
    rw [dynsym, dynsym, hsym]
    rfl
  have hname : (m.swapSections g r).symbolName env = m.symbolName env := by
    funext sym k
    rw [symbolName, symbolName, hoffset, hsymbol]
    rfl
  funext i relocs reli
  rw [boundValue, boundValue, hsymbol, hname]
  rfl

theorem sectionPatches_swapSections (hg : g < m.shnum) (hr : r < m.shnum)
    (hgot : m.GotOrRela (m.mShdrs g)) (hrela : m.GotOrRela (m.mShdrs r))
    (hsym : (m.swapSections g r).dynsymSection = m.dynsymSection) (i : Nat) :
    (m.swapSections g r).sectionPatches env mapped i =
      m.patchesAt env mapped i (Equiv.swap g r i) := by
  have hbound : (m.swapSections g r).boundValue env = m.boundValue env :=
    boundValue_swapSections hg hr hgot hrela hsym
  have hreloc (sec : Elf64Shdr) : (m.swapSections g r).relaPatches env mapped i sec =
      m.relaPatches env mapped i sec := by
    rw [relaPatches, relaPatches]
    congr 1
    funext reli
    rw [relocPatch, relocPatch, hbound]
    rfl
  rw [sectionPatches, patchesAt, isNamed_swapSections hg hr, hreloc]
  rfl

end tables

/-! ## Words that are touched -/

section touched

variable (m : ElfMapper) (env : Machine) (mapped : BitVec 64)

/-- The word at `t` is one of a `.got`, or the target of an entry of a known type. -/
def Touched (t : BitVec 64) : Prop :=
  (∃ g < m.shnum, m.GotHas mapped t g) ∨
    ∃ i reli, m.IsReloc i reli ∧ IsKnown (m.relocType i reli) ∧ m.relocTarget mapped i reli = t

/-- Words that are touched are the same or have no byte in common. -/
def WordsSeparated : Prop := ∀ t t', m.Touched mapped t → m.Touched mapped t' → Separated t t'

variable {m env mapped}

theorem exists_patch_iff {t : BitVec 64} :
    (∃ p ∈ m.patches env mapped, p.target = t) ↔ m.Touched mapped t := by
  constructor
  · rintro ⟨p, hp, rfl⟩
    rcases mem_patches.mp hp with ⟨g, hg, hname, hp⟩ | ⟨i, reli, hreloc, hp⟩
    · obtain ⟨k, hk, rfl⟩ := mem_gotPatches.mp hp
      exact .inl ⟨g, hg, hname, k, hk, rfl⟩
    · obtain ⟨hknown, rfl⟩ := relocPatch_eq_some_iff.mp hp
      exact .inr ⟨i, reli, hreloc, hknown, rfl⟩
  · rintro (⟨g, hg, hname, k, hk, rfl⟩ | ⟨i, reli, hreloc, hknown, rfl⟩)
    · exact ⟨_, mem_patches.mpr (.inl ⟨g, hg, hname, mem_gotPatches.mpr ⟨k, hk, rfl⟩⟩), rfl⟩
    · exact ⟨_, hreloc.mem_patches hknown env mapped, rfl⟩

/-- The word at `t` shares no byte with another one that is touched. -/
def Isolated (m : ElfMapper) (mapped t : BitVec 64) : Prop :=
  ∀ t', m.Touched mapped t' → Separated t' t

theorem isolated_iff (env : Machine) {t : BitVec 64} :
    m.Isolated mapped t ↔ ¬ Overlapped (m.patches env mapped) t := by
  rw [not_overlapped_iff]
  constructor
  · intro h p hp
    exact h p.target (exists_patch_iff.mp ⟨p, hp, rfl⟩)
  · intro h t' ht'
    obtain ⟨p, hp, rfl⟩ := exists_patch_iff.mpr ht'
    exact h p hp

/-- Words at multiples of eight are separated. -/
theorem separated_of_dvd {off off' : BitVec 64} (h : 8 ∣ off.toNat) (h' : 8 ∣ off'.toNat) :
    Separated (mapped + off) (mapped + off') := by
  by_cases heq : off = off'
  · exact .inl (heq ▸ rfl)
  · refine .inr ?_
    have hne : off.toNat ≠ off'.toNat := fun hnat ↦ heq (BitVec.eq_of_toNat_eq hnat)
    have hlt := off.isLt
    have hlt' := off'.isLt
    have hbase := mapped.isLt
    constructor
    · rw [BitVec.toNat_sub, BitVec.toNat_add, BitVec.toNat_add]
      omega
    · rw [BitVec.toNat_sub, BitVec.toNat_add, BitVec.toNat_add]
      omega

/-- As in every file whose `.got` and targets are aligned. -/
theorem wordsSeparated_of_aligned
    (hgot : ∀ g < m.shnum, m.isNamed (m.mShdrs g) gotName = true → 8 ∣ (m.mShdrs g).shAddr.toNat)
    (hreloc : ∀ i reli, m.IsReloc i reli → 8 ∣ (m.relocAt i reli).rOffset.toNat) :
    m.WordsSeparated mapped := by
  have haligned : ∀ t, m.Touched mapped t →
      ∃ off : BitVec 64, 8 ∣ off.toNat ∧ t = mapped + off := by
    rintro t (⟨g, hg, hname, k, hk, rfl⟩ | ⟨i, reli, hrel, -, rfl⟩)
    · have hdvd := hgot g hg hname
      refine ⟨(m.mShdrs g).shAddr + BitVec.ofNat 64 (8 * k), ?_, BitVec.add_assoc _ _ _⟩
      rw [BitVec.toNat_add, BitVec.toNat_ofNat]
      omega
    · exact ⟨_, hreloc i reli hrel, rfl⟩
  intro t t' ht ht'
  obtain ⟨off, hoff, rfl⟩ := haligned t ht
  obtain ⟨off', hoff', rfl⟩ := haligned t' ht'
  exact separated_of_dvd hoff hoff'

theorem touched_swapSections {g r : Nat} (hg : g < m.shnum) (hr : r < m.shnum) {t : BitVec 64} :
    (m.swapSections g r).Touched mapped t ↔ m.Touched mapped t := by
  constructor
  · rintro (⟨i, hi, hhas⟩ | ⟨i, reli, hreloc, hknown, ht⟩)
    · exact .inl ⟨Equiv.swap g r i, swap_lt hg hr hi, (gotHas_swapSections hg hr).mp hhas⟩
    · exact .inr ⟨Equiv.swap g r i, reli, (isReloc_swapSections hg hr).mp hreloc, hknown, ht⟩
  · have hback (i : Nat) : Equiv.swap g r (Equiv.swap g r i) = i := Equiv.swap_apply_self g r i
    rintro (⟨i, hi, hhas⟩ | ⟨i, reli, hreloc, hknown, ht⟩)
    · refine .inl ⟨Equiv.swap g r i, swap_lt hg hr hi, (gotHas_swapSections hg hr).mpr ?_⟩
      rwa [hback]
    · refine .inr ⟨Equiv.swap g r i, reli, (isReloc_swapSections hg hr).mpr ?_, ?_, ?_⟩
      · rwa [hback]
      · rwa [relocType, relocAt_swapSections, hback]
      · rwa [relocTarget, relocAt_swapSections, hback]

end touched

/-! ## The table between the two -/

section window

variable {m : ElfMapper} {env : Machine} {mapped : BitVec 64} {lo hi : Nat}

/-- The numbers below `n` behind one of them. -/
def behind (n hi : Nat) : List Nat := List.range' (hi + 1) (n - hi - 1)

/-- The numbers between two others. -/
def between (lo hi : Nat) : List Nat := behind hi lo

theorem mem_behind {n k : Nat} : k ∈ behind n hi ↔ hi < k ∧ k < n := by
  rw [behind, List.mem_range'_1]
  omega

theorem mem_between {k : Nat} : k ∈ between lo hi ↔ lo < k ∧ k < hi := mem_behind

theorem range_eq_append_behind {n k : Nat} (hk : k < n) :
    List.range n = List.range k ++ k :: behind n k := by
  have hlast : k :: behind n k = List.range' k (n - k) := by
    rw [behind, show n - k = (n - k - 1) + 1 by omega, List.range'_succ]
    rfl
  have happend := List.range'_append_1 (s := 0) (m := k) (n := n - k)
  rw [Nat.zero_add, show k + (n - k) = n by omega] at happend
  rw [hlast, List.range_eq_range', List.range_eq_range', happend]

/-- All sections of `n`, with two of them singled out. -/
theorem range_window {n : Nat} (hlt : lo < hi) (hhi : hi < n) :
    List.range n = List.range lo ++ (lo :: (between lo hi ++ hi :: behind n hi)) := by
  have hmiddle : List.range hi = List.range lo ++ lo :: between lo hi :=
    range_eq_append_behind hlt
  rw [range_eq_append_behind hhi, hmiddle, List.append_assoc, List.cons_append]

end window

/-! ## The exchange -/

section exchange

variable (m : ElfMapper) (env : Machine) (mapped : BitVec 64) (lo hi : Nat)

/-- A section named `.got` and a relocation section, of which the second is behind. -/
structure Exchange : Prop where
  lt : lo < hi
  hi_lt : hi < m.shnum
  meet : m.isNamed (m.mShdrs lo) gotName = true ∧ (m.mShdrs hi).shType = .rela ∨
    (m.mShdrs lo).shType = .rela ∧ m.isNamed (m.mShdrs hi) gotName = true

/-- The entries refer to the same table of symbols after the exchange. -/
def SameSymbols : Prop := (m.swapSections lo hi).dynsymSection = m.dynsymSection

/-- No section behind `hi` binds the word. -/
def UnboundBehind (t : BitVec 64) : Prop :=
  ∀ k, hi < k → k < m.shnum → ∀ e ∈ m.sectionTouches mapped t k, e.bound = none

/-- What the exchange asks of the word at `t`. -/
def ExchangeKeeps (t : BitVec 64) : Prop :=
  Touch.Exchangeable mapped
    (m.sectionTouches mapped t lo) (m.boundAt env lo lo) (m.boundAt env hi lo)
    ((between lo hi).flatMap fun k ↦ m.touchesAt env mapped t k k)
    (m.sectionTouches mapped t hi) (m.boundAt env hi hi) (m.boundAt env lo hi)

/-- What it asks of the words that share bytes: the two sections bind the same addresses to
them from either place, and what is made before or behind another patch of them may be. -/
structure OrderFree : Prop where
  place : ∀ j, j = lo ∨ j = hi → ∀ reli, m.IsReloc j reli →
    m.relocType j reli = .junpSlot ∨ m.relocType j reli = .globDat →
      ¬ m.Isolated mapped (m.relocTarget mapped j reli) →
        m.boundAt env lo j reli = m.boundAt env hi j reli
  commute : ∀ a b, lo ≤ a → a < b → b ≤ hi → a = lo ∨ b = hi →
    ∀ p ∈ m.sectionPatches env mapped a, ∀ q ∈ m.sectionPatches env mapped b,
      ¬ m.Isolated mapped p.target → p.Commutes q

variable {m env mapped lo hi}

theorem Exchange.lo_lt (h : m.Exchange lo hi) : lo < m.shnum := Nat.lt_trans h.lt h.hi_lt

theorem Exchange.gotOrRela (h : m.Exchange lo hi) :
    m.GotOrRela (m.mShdrs lo) ∧ m.GotOrRela (m.mShdrs hi) := by
  rcases h.meet with ⟨hgot, hrela⟩ | ⟨hrela, hgot⟩
  · exact ⟨.inl hgot, .inr hrela⟩
  · exact ⟨.inr hrela, .inl hgot⟩

/-- As in every file with one table of symbols. -/
theorem Exchange.sameSymbols (h : m.Exchange lo hi)
    (hone : ∀ i < m.shnum, ∀ j < m.shnum, (m.mShdrs i).shType = .dynsym →
      (m.mShdrs j).shType = .dynsym → m.mShdrs i = m.mShdrs j) : m.SameSymbols lo hi := by
  refine findSection_swapSections_of_unique h.lo_lt h.hi_lt fun i hi j hj htesti htestj ↦ ?_
  exact hone i hi j hj (beq_iff_eq.mp htesti) (beq_iff_eq.mp htestj)

theorem patches_window (h : m.Exchange lo hi) :
    m.patches env mapped =
      (List.range lo).flatMap (m.sectionPatches env mapped) ++
        ((m.patchesAt env mapped lo lo ++
            ((between lo hi).flatMap (m.sectionPatches env mapped) ++
              m.patchesAt env mapped hi hi)) ++
          (behind m.shnum hi).flatMap (m.sectionPatches env mapped)) := by
  rw [patches, range_window h.lt h.hi_lt, List.flatMap_append, List.flatMap_cons,
    List.flatMap_append, List.flatMap_cons]
  simp only [List.append_assoc]
  rfl

theorem patches_swapSections (h : m.Exchange lo hi) (hsym : m.SameSymbols lo hi) :
    (m.swapSections lo hi).patches env mapped =
      (List.range lo).flatMap (m.sectionPatches env mapped) ++
        ((m.patchesAt env mapped lo hi ++
            ((between lo hi).flatMap (m.sectionPatches env mapped) ++
              m.patchesAt env mapped hi lo)) ++
          (behind m.shnum hi).flatMap (m.sectionPatches env mapped)) := by
  obtain ⟨hlo, hhi⟩ := h.gotOrRela
  have hsection (i : Nat) : (m.swapSections lo hi).sectionPatches env mapped i =
      m.patchesAt env mapped i (Equiv.swap lo hi i) :=
    sectionPatches_swapSections h.lo_lt h.hi_lt hlo hhi hsym i
  have hstays {is : List Nat} (his : ∀ i ∈ is, i ≠ lo ∧ i ≠ hi) :
      is.flatMap ((m.swapSections lo hi).sectionPatches env mapped) =
        is.flatMap (m.sectionPatches env mapped) := by
    apply List.flatMap_congr
    intro i hi'
    rw [hsection, Equiv.swap_apply_of_ne_of_ne (his i hi').1 (his i hi').2]
    rfl
  have hshnum : (m.swapSections lo hi).shnum = m.shnum := rfl
  have hlt := h.lt
  rw [patches, hshnum, range_window h.lt h.hi_lt, List.flatMap_append, List.flatMap_cons,
    List.flatMap_append, List.flatMap_cons, hsection lo, hsection hi, Equiv.swap_apply_left,
    Equiv.swap_apply_right, hstays, hstays, hstays]
  · simp only [List.append_assoc]
  · intro i hi'
    have := mem_behind.mp hi'
    omega
  · intro i hi'
    have := mem_between.mp hi'
    omega
  · intro i hi'
    have := List.mem_range.mp hi'
    omega

theorem unboundBehind_iff (env : Machine) {t : BitVec 64} :
    m.UnboundBehind mapped hi t ↔ Touch.lastBound
      ((behind m.shnum hi).flatMap fun k ↦ m.touchesAt env mapped t k k) = none := by
  rw [Touch.lastBound_eq_none_iff]
  constructor
  · intro h e he
    obtain ⟨k, hk, he⟩ := List.mem_flatMap.mp he
    obtain ⟨e', he', rfl⟩ := List.mem_map.mp he
    rw [Touch.bound_map, h k (mem_behind.mp hk).1 (mem_behind.mp hk).2 e' he', Option.map_none]
  · intro h k hlt hk e he
    have hbound := h (e.map (m.boundAt env k k)) (List.mem_flatMap.mpr
      ⟨k, mem_behind.mpr ⟨hlt, hk⟩, List.mem_map_of_mem he⟩)
    rw [Touch.bound_map] at hbound
    exact Option.map_eq_none_iff.mp hbound

/-- The word before, between and behind two places, with the `a`-th and the `b`-th section in
them. -/
theorem patchWord_window (a b : Nat) (t v : BitVec 64) :
    patchWord ((List.range lo).flatMap (m.sectionPatches env mapped) ++
        ((m.patchesAt env mapped lo a ++
            ((between lo hi).flatMap (m.sectionPatches env mapped) ++
              m.patchesAt env mapped hi b)) ++
          (behind m.shnum hi).flatMap (m.sectionPatches env mapped))) t v =
      Touch.settle mapped ((behind m.shnum hi).flatMap fun k ↦ m.touchesAt env mapped t k k)
        (Touch.settle mapped
          (m.touchesAt env mapped t lo a ++
            (((between lo hi).flatMap fun k ↦ m.touchesAt env mapped t k k) ++
              m.touchesAt env mapped t hi b))
          (Touch.settle mapped ((List.range lo).flatMap fun k ↦ m.touchesAt env mapped t k k)
            v)) := by
  simp only [patchWord_append, patchWord_sections, patchWord_patchesAt, Touch.settle_append]

/-- A word ends as before when it does so up to the two sections, or is bound behind them. -/
theorem patchWord_swapSections_iff (h : m.Exchange lo hi) (hsym : m.SameSymbols lo hi)
    (t v : BitVec 64) :
    patchWord ((m.swapSections lo hi).patches env mapped) t v =
        patchWord (m.patches env mapped) t v ↔
      (m.UnboundBehind mapped hi t → m.ExchangeKeeps env mapped lo hi t) := by
  rw [patches_swapSections h hsym, patches_window h, patchWord_window, patchWord_window]
  cases hbound : Touch.lastBound
      ((behind m.shnum hi).flatMap fun k ↦ m.touchesAt env mapped t k k) with
  | none =>
      rw [imp_iff_right ((unboundBehind_iff env).mpr hbound),
        Touch.settle_of_none hbound, Touch.settle_of_none hbound, BitVec.add_left_inj, eq_comm]
      exact Touch.settle_exchange_iff _
  | some a =>
      have hnot : ¬ m.UnboundBehind mapped hi t := by
        rw [unboundBehind_iff env, hbound]
        exact Option.some_ne_none a
      rw [Touch.settle_of_some hbound, Touch.settle_of_some hbound]
      exact iff_of_true rfl fun hunbound ↦ absurd hunbound hnot

theorem exists_patch_swapSections_iff (h : m.Exchange lo hi) (t : BitVec 64) :
    (∃ p ∈ m.patches env mapped, p.target = t) ↔
      ∃ q ∈ (m.swapSections lo hi).patches env mapped, q.target = t := by
  rw [exists_patch_iff, exists_patch_iff, touched_swapSections h.lo_lt h.hi_lt]

/-- The patches of a section to words that share bytes, from two places. -/
theorem filter_patchesAt {shared : Patch → Bool} {i i' j : Nat} (hj : j < m.shnum)
    (hbound : ∀ reli, m.IsReloc j reli →
      m.relocType j reli = .junpSlot ∨ m.relocType j reli = .globDat →
      shared ⟨m.relocTarget mapped j reli, fun _ ↦ m.boundAt env i j reli⟩ = true ∨
        shared ⟨m.relocTarget mapped j reli, fun _ ↦ m.boundAt env i' j reli⟩ = true →
      m.boundAt env i j reli = m.boundAt env i' j reli) :
    (m.patchesAt env mapped i j).filter shared = (m.patchesAt env mapped i' j).filter shared := by
  rw [patchesAt, patchesAt, List.filter_append, List.filter_append, List.append_right_inj]
  by_cases hrela : (m.mShdrs j).shType = .rela
  · rw [if_pos hrela, if_pos hrela, relaPatches, relaPatches, List.filter_filterMap,
      List.filter_filterMap]
    apply List.filterMap_congr
    intro reli hreli
    have hreloc : m.IsReloc j reli := ⟨hj, hrela, List.mem_range.mp hreli⟩
    have hpatch (i : Nat) : m.relocPatch env mapped i (m.mShdrs j).shOffset reli =
        if m.relocType j reli = .relative then
          some ⟨m.relocTarget mapped j reli, fun v ↦ v + mapped⟩
        else if m.relocType j reli = .junpSlot ∨ m.relocType j reli = .globDat then
          some ⟨m.relocTarget mapped j reli, fun _ ↦ m.boundAt env i j reli⟩
        else none := rfl
    rw [hpatch i, hpatch i']
    split
    · rfl
    · split
      · rename_i hbind
        have hsame := hbound reli hreloc hbind
        cases hi : shared ⟨m.relocTarget mapped j reli, fun _ ↦ m.boundAt env i j reli⟩ with
        | true => rw [hsame (.inl hi)]
        | false =>
            cases hi' : shared ⟨m.relocTarget mapped j reli, fun _ ↦ m.boundAt env i' j reli⟩ with
            | true => rw [hsame (.inr hi')]
            | false =>
                rw [Option.filter_some, Option.filter_some, hi, hi', if_neg Bool.false_ne_true,
                  if_neg Bool.false_ne_true]
      · rfl
  · rw [if_neg hrela, if_neg hrela]

section shared

variable {shared : Patch → Bool} (hshared : ∀ p, shared p = true → ¬ m.Isolated mapped p.target)

include hshared

/-- The two sections patch words that share bytes alike from either place. -/
theorem OrderFree.filter_patchesAt (hfree : m.OrderFree env mapped lo hi) {j : Nat}
    (hj : j = lo ∨ j = hi) (hlt : j < m.shnum) :
    (m.patchesAt env mapped lo j).filter shared = (m.patchesAt env mapped hi j).filter shared := by
  refine ElfMapper.filter_patchesAt hlt fun reli hreloc hbind hor ↦ ?_
  exact hfree.place j hj reli hreloc hbind (hor.elim (hshared _) (hshared _))

/-- The patches to such words of a section of the exchange, and those of one at or between its
places. -/
theorem OrderFree.commutes (hfree : m.OrderFree env mapped lo hi) {a b : Nat} (hlo : lo ≤ a)
    (hab : a < b) (hhi : b ≤ hi) (hor : a = lo ∨ b = hi) :
    ∀ p ∈ (m.sectionPatches env mapped a).filter shared,
      ∀ q ∈ (m.sectionPatches env mapped b).filter shared, p.Commutes q := by
  intro p hp q hq
  obtain ⟨hp, hpshared⟩ := List.mem_filter.mp hp
  exact hfree.commute a b hlo hab hhi hor p hp q (List.mem_filter.mp hq).1 (hshared p hpshared)

/-- So these patches may be made in either order. -/
theorem patchAll_filter_swapSections (h : m.Exchange lo hi) (hsym : m.SameSymbols lo hi)
    (hfree : m.OrderFree env mapped lo hi) (mem : Mem) :
    patchAll (((m.swapSections lo hi).patches env mapped).filter shared) mem =
      patchAll ((m.patches env mapped).filter shared) mem := by
  have hbetween {q : Patch} (hq : q ∈ ((between lo hi).flatMap
      (m.sectionPatches env mapped)).filter shared) : ∃ k, (lo < k ∧ k < hi) ∧
        q ∈ (m.sectionPatches env mapped k).filter shared := by
    obtain ⟨hq, hqshared⟩ := List.mem_filter.mp hq
    obtain ⟨k, hk, hq⟩ := List.mem_flatMap.mp hq
    exact ⟨k, mem_between.mp hk, List.mem_filter.mpr ⟨hq, hqshared⟩⟩
  have hsplit (window after : List Patch) :
      patchAll (((List.range lo).flatMap (m.sectionPatches env mapped)).filter shared ++
          (window ++ after)) mem =
        patchAll after (patchAll window (patchAll (((List.range lo).flatMap
          (m.sectionPatches env mapped)).filter shared) mem)) := by
    rw [patchAll_append, patchAll_append]
  rw [patches_swapSections h hsym, patches_window h]
  simp only [List.filter_append]
  rw [hfree.filter_patchesAt hshared (.inr rfl) h.hi_lt,
    ← hfree.filter_patchesAt hshared (.inl rfl) h.lo_lt, hsplit, hsplit]
  refine congrArg _ (patchAll_exchange ?_ ?_ ?_ _).symm
  · intro p hp q hq
    obtain ⟨k, hk, hq⟩ := hbetween hq
    exact hfree.commutes hshared (Nat.le_refl lo) hk.1 (Nat.le_of_lt hk.2) (.inl rfl) p hp q hq
  · exact hfree.commutes hshared (Nat.le_refl lo) h.lt (Nat.le_refl hi) (.inl rfl)
  · intro p hp
    obtain ⟨k, hk, hp⟩ := hbetween hp
    exact hfree.commutes hshared (Nat.le_of_lt hk.1) hk.2 (Nat.le_refl hi) (.inr rfl) p hp

end shared

/-- The exchange leaves memory as it is, when it leaves the words that share no byte so, and the
patches of the others may be made in either order. -/
theorem mem_swapSections (h : m.Exchange lo hi) (hsym : m.SameSymbols lo hi)
    (hfree : m.OrderFree env mapped lo hi)
    (hwords : ∀ t, m.Isolated mapped t → m.UnboundBehind mapped hi t →
      m.ExchangeKeeps env mapped lo hi t) (im : Image) :
    ((m.swapSections lo hi).mapTo env mapped im).mem = (m.mapTo env mapped im).mem := by
  classical
  have hloaded : (m.swapSections lo hi).loaded env mapped im.mem = m.loaded env mapped im.mem :=
    rfl
  rw [mapTo_mem, mapTo_mem, hloaded]
  refine patchAll_eq_of_words (exists_patch_swapSections_iff h) (fun p _ hp ↦ ?_) ?_
  · exact (patchWord_swapSections_iff h hsym _ _).mpr (hwords _ ((isolated_iff env).mpr hp))
  · refine patchAll_filter_swapSections (fun p hp ↦ ?_) h hsym hfree _
    rw [isolated_iff env, not_not]
    exact of_decide_eq_true hp

/-- And then it leaves these words so. -/
theorem exchangeKeeps_of_mem_eq (h : m.Exchange lo hi) (hsym : m.SameSymbols lo hi) {im : Image}
    (heq : ((m.swapSections lo hi).mapTo env mapped im).mem = (m.mapTo env mapped im).mem)
    {t : BitVec 64} (ht : m.Isolated mapped t) (hunbound : m.UnboundBehind mapped hi t) :
    m.ExchangeKeeps env mapped lo hi t := by
  have hloaded : (m.swapSections lo hi).loaded env mapped im.mem = m.loaded env mapped im.mem :=
    rfl
  rw [mapTo_mem, mapTo_mem, hloaded] at heq
  exact (patchWord_swapSections_iff h hsym t _).mp
    (patchWord_eq_of_patchAll_eq (exists_patch_swapSections_iff h) heq ((isolated_iff env).mp ht))
    hunbound

end exchange

end Hypervi.Elf.ElfMapper
