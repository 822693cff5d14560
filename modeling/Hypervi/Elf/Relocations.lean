import Hypervi.Elf.Mapper
import Mathlib.Data.List.Nodup

/-!
# What a relocation makes of its word

`map_to` goes through the sections once, and two kinds of section touch words of the
image: a section named `.got` adds the base to each of its words, and a relocation
section patches the targets of its entries.  For the target of a single relocation,
separated from every other word that is touched, `load64_mapTo` gives the word that is
left: the relocation of what was in place, with the base added once for each `.got`
section that has the word, before or after the relocation as the section table has it.

The psABI has three values for it: `B + A` for `RELATIVE`, and `S` for `GLOB_DAT` and
`JUMP_SLOT`.  `symbolRelocation_iff` and `relativeRelocation_iff` say when the mapper
agrees, outside every `.got` section.
-/

namespace Hypervi.Elf.ElfMapper

open Memory Freestanding

/-! ## Entries and their targets -/

section entries

variable (m : ElfMapper) (env : Machine) (mapped : BitVec 64)

/-- The `i`-th section is a relocation section and has a `reli`-th entry. -/
structure IsReloc (i reli : Nat) : Prop where
  lt : i < m.shnum
  isRela : (m.mShdrs i).shType = .rela
  reli_lt : reli < relocCount (m.mShdrs i)

/-- The entry. -/
def relocAt (i reli : Nat) : Elf64Rela := m.rela (m.mShdrs i).shOffset reli

def relocType (i reli : Nat) : Elf64RType := elf64RGetType (m.relocAt i reli).rInfo

/-- What the entry makes of the word at its target. -/
def relocOp (i reli : Nat) : BitVec 64 → BitVec 64 :=
  if m.relocType i reli = .relative then fun v ↦ v + mapped
  else fun _ ↦ m.boundValue env i (m.mShdrs i).shOffset reli

def relocTarget (i reli : Nat) : BitVec 64 := mapped + (m.relocAt i reli).rOffset

/-- The type is one of the three that the mapper handles. -/
def IsKnown (type : Elf64RType) : Prop := type = .relative ∨ type = .junpSlot ∨ type = .globDat

instance (type : Elf64RType) : Decidable (IsKnown type) := instDecidableOr

/-- The `g`-th section is named `.got` and `t` is one of its words. -/
def GotHas (t : BitVec 64) (g : Nat) : Prop :=
  m.isNamed (m.mShdrs g) gotName = true ∧
    ∃ k < (m.mShdrs g).shSize.toNat / 8,
      mapped + (m.mShdrs g).shAddr + BitVec.ofNat 64 (8 * k) = t

instance (t : BitVec 64) (g : Nat) : Decidable (m.GotHas mapped t g) := instDecidableAnd

/-- How many `.got` sections up to the `i`-th have the word. -/
def gotsUpTo (t : BitVec 64) (i : Nat) : Nat := (List.range (i + 1)).countP (m.GotHas mapped t)

/-- How many after it. -/
def gotsAfter (t : BitVec 64) (i : Nat) : Nat :=
  (List.range m.shnum).countP fun g ↦ i < g ∧ m.GotHas mapped t g

/-- No byte of the word at `t` is in a section named `.got`. -/
def OutsideGot (t : BitVec 64) : Prop :=
  ∀ g < m.shnum, m.isNamed (m.mShdrs g) gotName = true →
    ∀ x : BitVec 64, (x - t).toNat < 8 →
      ¬ (x - (mapped + (m.mShdrs g).shAddr)).toNat < (m.mShdrs g).shSize.toNat

/-- The target of the entry has no byte in common with that of any other. -/
def Alone (i reli : Nat) : Prop :=
  ∀ i' reli', m.IsReloc i' reli' → (i', reli') ≠ (i, reli) →
    Apart (m.relocTarget mapped i' reli') 8 (m.relocTarget mapped i reli) 8

end entries

/-! ## The patches of the section table -/

section patches

variable {m : ElfMapper} {env : Machine} {mapped t : BitVec 64}

theorem mem_gotPatches {sec : Elf64Shdr} {p : Patch} :
    p ∈ gotPatches mapped sec ↔
      ∃ k < sec.shSize.toNat / 8,
        p = ⟨mapped + sec.shAddr + BitVec.ofNat 64 (8 * k), fun v ↦ mapped + v⟩ := by
  simp only [gotPatches, List.mem_map, List.mem_range, eq_comm]

theorem relocPatch_eq (i reli : Nat) :
    m.relocPatch env mapped i (m.mShdrs i).shOffset reli =
      if m.relocType i reli = .relative then
        some ⟨m.relocTarget mapped i reli, fun v ↦ v + mapped⟩
      else if m.relocType i reli = .junpSlot ∨ m.relocType i reli = .globDat then
        some ⟨m.relocTarget mapped i reli, fun _ ↦ m.boundValue env i (m.mShdrs i).shOffset reli⟩
      else none := rfl

/-- An entry of a known type makes a patch of its target. -/
theorem relocPatch_eq_some_iff {i reli : Nat} {p : Patch} :
    m.relocPatch env mapped i (m.mShdrs i).shOffset reli = some p ↔
      IsKnown (m.relocType i reli) ∧
        p = ⟨m.relocTarget mapped i reli, m.relocOp env mapped i reli⟩ := by
  rw [relocPatch_eq, relocOp, IsKnown]
  by_cases hrelative : m.relocType i reli = .relative
  · rw [if_pos hrelative, if_pos hrelative, Option.some.injEq, eq_comm,
      and_iff_right (.inl hrelative)]
  · rw [if_neg hrelative, if_neg hrelative, or_iff_right hrelative]
    split
    · rename_i htype
      rw [Option.some.injEq, eq_comm, and_iff_right htype]
    · rename_i htype
      exact iff_of_false (by simp) fun h ↦ htype h.1

theorem mem_relaPatches {i : Nat} {p : Patch} :
    p ∈ m.relaPatches env mapped i (m.mShdrs i) ↔
      ∃ reli < relocCount (m.mShdrs i),
        m.relocPatch env mapped i (m.mShdrs i).shOffset reli = some p := by
  simp only [relaPatches, List.mem_filterMap, List.mem_range]

/-- A patch of a section is an addition to a word of a `.got`, or made by an entry. -/
theorem mem_sectionPatches {i : Nat} (hi : i < m.shnum) {p : Patch} :
    p ∈ m.sectionPatches env mapped i ↔
      (m.isNamed (m.mShdrs i) gotName = true ∧ p ∈ gotPatches mapped (m.mShdrs i)) ∨
        ∃ reli, m.IsReloc i reli ∧
          m.relocPatch env mapped i (m.mShdrs i).shOffset reli = some p := by
  have hrela : (p ∈ if (m.mShdrs i).shType = .rela then m.relaPatches env mapped i (m.mShdrs i)
      else []) ↔ ∃ reli, m.IsReloc i reli ∧
        m.relocPatch env mapped i (m.mShdrs i).shOffset reli = some p := by
    by_cases htype : (m.mShdrs i).shType = .rela
    · rw [if_pos htype, mem_relaPatches]
      constructor
      · rintro ⟨reli, hlt, hp⟩
        exact ⟨reli, ⟨hi, htype, hlt⟩, hp⟩
      · rintro ⟨reli, hreloc, hp⟩
        exact ⟨reli, hreloc.reli_lt, hp⟩
    · rw [if_neg htype]
      constructor
      · intro hp
        exact absurd hp List.not_mem_nil
      · rintro ⟨reli, hreloc, -⟩
        exact absurd hreloc.isRela htype
  rw [sectionPatches, List.mem_append, hrela]
  refine or_congr ?_ Iff.rfl
  split
  · rename_i hname
    exact (and_iff_right hname).symm
  · rename_i hname
    exact iff_of_false List.not_mem_nil fun h ↦ hname h.1

theorem mem_patches {p : Patch} :
    p ∈ m.patches env mapped ↔
      (∃ g < m.shnum, m.isNamed (m.mShdrs g) gotName = true ∧
          p ∈ gotPatches mapped (m.mShdrs g)) ∨
        ∃ i reli, m.IsReloc i reli ∧
          m.relocPatch env mapped i (m.mShdrs i).shOffset reli = some p := by
  rw [patches, List.mem_flatMap]
  constructor
  · rintro ⟨i, hi, hp⟩
    have hlt := List.mem_range.mp hi
    rcases (mem_sectionPatches hlt).mp hp with hgot | ⟨reli, hreloc, hp⟩
    · exact .inl ⟨i, hlt, hgot⟩
    · exact .inr ⟨i, reli, hreloc, hp⟩
  · rintro (⟨g, hg, hgot⟩ | ⟨i, reli, hreloc, hp⟩)
    · exact ⟨g, List.mem_range.mpr hg, (mem_sectionPatches hg).mpr (.inl hgot)⟩
    · exact ⟨i, List.mem_range.mpr hreloc.lt,
        (mem_sectionPatches hreloc.lt).mpr (.inr ⟨reli, hreloc, hp⟩)⟩

theorem IsReloc.mem_patches {i reli : Nat} (h : m.IsReloc i reli)
    (hknown : IsKnown (m.relocType i reli)) (env : Machine) (mapped : BitVec 64) :
    ⟨m.relocTarget mapped i reli, m.relocOp env mapped i reli⟩ ∈ m.patches env mapped :=
  ElfMapper.mem_patches.mpr (.inr ⟨i, reli, h, relocPatch_eq_some_iff.mpr ⟨hknown, rfl⟩⟩)

end patches

/-! ## The word at the target of a single entry -/

section word

variable {m : ElfMapper} {env : Machine} {mapped t : BitVec 64}

/-- Words of one `.got` at different indices are different. -/
theorem gotWord_inj {sec : Elf64Shdr} {k l : Nat} (hk : k < sec.shSize.toNat / 8)
    (hl : l < sec.shSize.toNat / 8)
    (h : mapped + sec.shAddr + BitVec.ofNat 64 (8 * k) =
      mapped + sec.shAddr + BitVec.ofNat 64 (8 * l)) : k = l := by
  have hsize := sec.shSize.isLt
  have hnat := congrArg BitVec.toNat ((BitVec.add_right_inj _).mp h)
  rw [BitVec.toNat_ofNat, BitVec.toNat_ofNat] at hnat
  omega

/-- A `.got` adds the base once to each of its words. -/
theorem patchWord_gotPatches (sec : Elf64Shdr) (v : BitVec 64) :
    patchWord (gotPatches mapped sec) t v =
      if ∃ k < sec.shSize.toNat / 8, mapped + sec.shAddr + BitVec.ofNat 64 (8 * k) = t
      then v + mapped else v := by
  split
  · rename_i h
    obtain ⟨k, hk, rfl⟩ := h
    rw [BitVec.add_comm v, gotPatches, ← List.filterMap_eq_map]
    refine patchWord_filterMap_range (p := ⟨_, fun v ↦ mapped + v⟩) hk rfl rfl ?_ v
    intro j hj hne q hq heq
    obtain rfl := Option.some.inj hq
    exact hne (gotWord_inj hj hk heq)
  · rename_i h
    apply patchWord_of_forall_ne
    intro p hp heq
    obtain ⟨k, hk, rfl⟩ := mem_gotPatches.mp hp
    exact h ⟨k, hk, heq⟩

/-- The word after the first part of a section. -/
theorem patchWord_got (i : Nat) (v : BitVec 64) :
    patchWord (if m.isNamed (m.mShdrs i) gotName then gotPatches mapped (m.mShdrs i) else []) t v =
      if m.GotHas mapped t i then v + mapped else v := by
  by_cases hname : m.isNamed (m.mShdrs i) gotName = true
  · rw [if_pos hname, patchWord_gotPatches]
    simp only [GotHas, and_iff_right hname]
  · rw [if_neg hname, if_neg fun h ↦ hname h.1]
    rfl

/-- A section none of whose entries targets the word. -/
theorem patchWord_section_of_none {i : Nat} (hi : i < m.shnum)
    (hnone : ∀ reli, m.IsReloc i reli → IsKnown (m.relocType i reli) →
      m.relocTarget mapped i reli ≠ t) (v : BitVec 64) :
    patchWord (m.sectionPatches env mapped i) t v =
      if m.GotHas mapped t i then v + mapped else v := by
  rw [sectionPatches, patchWord_append, patchWord_got]
  split
  · rename_i htype
    apply patchWord_of_forall_ne
    intro p hp
    obtain ⟨reli, hlt, hreloc⟩ := mem_relaPatches.mp hp
    obtain ⟨hknown, rfl⟩ := relocPatch_eq_some_iff.mp hreloc
    exact hnone reli ⟨hi, htype, hlt⟩ hknown
  · rfl

/-- A section with one entry that does. -/
theorem patchWord_section_of_reloc {i reli : Nat} (h : m.IsReloc i reli)
    (hknown : IsKnown (m.relocType i reli)) (ht : m.relocTarget mapped i reli = t)
    (hother : ∀ reli', m.IsReloc i reli' → IsKnown (m.relocType i reli') → reli' ≠ reli →
      m.relocTarget mapped i reli' ≠ t) (v : BitVec 64) :
    patchWord (m.sectionPatches env mapped i) t v =
      m.relocOp env mapped i reli (if m.GotHas mapped t i then v + mapped else v) := by
  have hpatch : m.relocPatch env mapped i (m.mShdrs i).shOffset reli =
      some ⟨m.relocTarget mapped i reli, m.relocOp env mapped i reli⟩ :=
    relocPatch_eq_some_iff.mpr ⟨hknown, rfl⟩
  rw [sectionPatches, patchWord_append, patchWord_got, if_pos h.isRela, relaPatches]
  refine patchWord_filterMap_range h.reli_lt hpatch ht ?_ _
  intro reli' hlt hne q hq
  obtain ⟨hknown', rfl⟩ := relocPatch_eq_some_iff.mp hq
  exact hother reli' ⟨h.lt, h.isRela, hlt⟩ hknown' hne

/-- Adding the base or not, as a multiple of it. -/
theorem add_base_eq (has : Prop) [Decidable has] (v : BitVec 64) :
    (if has then v + mapped else v) = v + BitVec.ofNat 64 (if has then 1 else 0) * mapped := by
  split
  · rw [BitVec.one_mul]
  · rw [BitVec.zero_mul, BitVec.add_zero]

/-- Multiples of the base add up. -/
theorem add_base_add (v : BitVec 64) (n k : Nat) :
    v + BitVec.ofNat 64 n * mapped + BitVec.ofNat 64 k * mapped =
      v + BitVec.ofNat 64 (n + k) * mapped := by
  rw [BitVec.add_assoc, ← BitVec.add_mul, BitVec.ofNat_add]

/-- Sections none of whose entries targets the word add the base as often as they have it. -/
theorem patchWord_sections_of_none {is : List Nat} (hlt : ∀ i ∈ is, i < m.shnum)
    (hnone : ∀ i ∈ is, ∀ reli, m.IsReloc i reli → IsKnown (m.relocType i reli) →
      m.relocTarget mapped i reli ≠ t) (v : BitVec 64) :
    patchWord (is.flatMap (m.sectionPatches env mapped)) t v =
      v + BitVec.ofNat 64 (is.countP (m.GotHas mapped t)) * mapped := by
  induction is generalizing v with
  | nil => simp [patchWord]
  | cons i is ih =>
      have hlt' : ∀ j ∈ is, j < m.shnum := fun j hj ↦ hlt j (List.mem_cons_of_mem i hj)
      have hnone' := fun j hj ↦ hnone j (List.mem_cons_of_mem i hj)
      rw [List.flatMap_cons, patchWord_append, ih hlt' hnone', List.countP_cons,
        patchWord_section_of_none (hlt i List.mem_cons_self) (hnone i List.mem_cons_self),
        add_base_eq, add_base_add, Nat.add_comm]
      simp only [decide_eq_true_eq]

/-- The sections up to the `i`-th that add the base: those before it, and itself. -/
theorem gotsUpTo_eq (i : Nat) :
    m.gotsUpTo mapped t i =
      (List.range i).countP (m.GotHas mapped t) + if m.GotHas mapped t i then 1 else 0 := by
  rw [gotsUpTo, List.range_succ, List.countP_append, List.countP_singleton]
  simp only [decide_eq_true_eq]

/-- And those after it. -/
theorem gotsAfter_eq {i : Nat} {after : List Nat}
    (hrange : List.range m.shnum = List.range i ++ i :: after) (hafter : ∀ j ∈ after, i < j) :
    m.gotsAfter mapped t i = after.countP (m.GotHas mapped t) := by
  rw [gotsAfter, hrange, List.countP_append, List.countP_eq_zero.mpr, Nat.zero_add,
    List.countP_cons_of_neg]
  · apply List.countP_congr
    intro j hj
    simp only [decide_eq_true_eq, and_iff_right (hafter j hj)]
  · simp
  · intro j hj hlater
    simp only [decide_eq_true_eq] at hlater
    exact Nat.lt_asymm hlater.1 (List.mem_range.mp hj)

/-- The word at the target of an entry that no other entry targets. -/
theorem load64_mapTo {i reli : Nat} (h : m.IsReloc i reli) (hknown : IsKnown (m.relocType i reli))
    (ht : m.relocTarget mapped i reli = t)
    (hsep : ∀ p ∈ m.patches env mapped, Separated p.target t)
    (hother : ∀ i' reli', m.IsReloc i' reli' → IsKnown (m.relocType i' reli') →
      (i', reli') ≠ (i, reli) → m.relocTarget mapped i' reli' ≠ t) (im : Image) :
    load64 (m.mapTo env mapped im).mem t =
      m.relocOp env mapped i reli
          (load64 (m.loaded env mapped im.mem) t +
            BitVec.ofNat 64 (m.gotsUpTo mapped t i) * mapped) +
        BitVec.ofNat 64 (m.gotsAfter mapped t i) * mapped := by
  obtain ⟨after, hrange, hafter⟩ := range_split h.lt
  have hbefore : ∀ j ∈ List.range i, j < m.shnum ∧ j ≠ i := by
    intro j hj
    exact ⟨Nat.lt_trans (List.mem_range.mp hj) h.lt, Nat.ne_of_lt (List.mem_range.mp hj)⟩
  have hnone {is : List Nat} (his : ∀ j ∈ is, j < m.shnum ∧ j ≠ i) (v : BitVec 64) :
      patchWord (is.flatMap (m.sectionPatches env mapped)) t v =
        v + BitVec.ofNat 64 (is.countP (m.GotHas mapped t)) * mapped := by
    refine patchWord_sections_of_none (fun j hj ↦ (his j hj).1) ?_ v
    intro j hj reli' hreloc hknown'
    exact hother j reli' hreloc hknown' fun heq ↦ (his j hj).2 (congrArg Prod.fst heq)
  rw [mapTo_mem, load64_patchAll hsep, patches, hrange, List.flatMap_append, List.flatMap_cons,
    patchWord_append, patchWord_append, hnone hbefore, patchWord_section_of_reloc h hknown ht,
    hnone, gotsAfter_eq hrange fun j hj ↦ (hafter j hj).1, gotsUpTo_eq, add_base_eq, add_base_add]
  · intro j hj
    exact ⟨(hafter j hj).2, Nat.ne_of_gt (hafter j hj).1⟩
  · intro reli' hreloc hknown' hne
    exact hother i reli' hreloc hknown' fun heq ↦ hne (congrArg Prod.snd heq)

/-! ### Outside every `.got` -/

theorem OutsideGot.not_gotHas (h : m.OutsideGot mapped t) {g : Nat} (hg : g < m.shnum) :
    ¬ m.GotHas mapped t g := by
  rintro ⟨hname, k, hk, rfl⟩
  have hsize := (m.mShdrs g).shSize.isLt
  refine h g hg hname (mapped + (m.mShdrs g).shAddr + BitVec.ofNat 64 (8 * k)) ?_ ?_
  · rw [BitVec.sub_self]
    decide
  · rw [toNat_add_sub_self _ (by omega)]
    omega

theorem OutsideGot.gotsUpTo_eq_zero (h : m.OutsideGot mapped t) {i : Nat} (hi : i < m.shnum) :
    m.gotsUpTo mapped t i = 0 := by
  apply List.countP_eq_zero.mpr
  intro g hg hhas
  have hlt := Nat.lt_succ_iff.mp (List.mem_range.mp hg)
  exact h.not_gotHas (Nat.lt_of_le_of_lt hlt hi) (of_decide_eq_true hhas)

theorem OutsideGot.gotsAfter_eq_zero (h : m.OutsideGot mapped t) (i : Nat) :
    m.gotsAfter mapped t i = 0 := by
  apply List.countP_eq_zero.mpr
  intro g hg hhas
  exact h.not_gotHas (List.mem_range.mp hg) (of_decide_eq_true hhas).2

theorem OutsideGot.apart (h : m.OutsideGot mapped t) {g k : Nat} (hg : g < m.shnum)
    (hname : m.isNamed (m.mShdrs g) gotName = true) (hk : k < (m.mShdrs g).shSize.toNat / 8) :
    Apart (mapped + (m.mShdrs g).shAddr + BitVec.ofNat 64 (8 * k)) 8 t 8 := by
  have hsize := (m.mShdrs g).shSize.isLt
  refine apart_of_disjoint (by decide) (by decide) fun x hx hxt ↦ h g hg hname x hxt ?_
  generalize mapped + (m.mShdrs g).shAddr = a at hx ⊢
  rw [BitVec.toNat_sub, BitVec.toNat_add, BitVec.toNat_ofNat] at hx
  rw [BitVec.toNat_sub]
  have := x.isLt
  have := a.isLt
  omega

/-- The target of an entry that overlaps no other and lies in no `.got` is separated from
every word that is patched. -/
theorem separated_of_alone {i reli : Nat} (halone : m.Alone mapped i reli)
    (hgot : m.OutsideGot mapped (m.relocTarget mapped i reli)) :
    ∀ p ∈ m.patches env mapped, Separated p.target (m.relocTarget mapped i reli) := by
  intro p hp
  rcases mem_patches.mp hp with ⟨g, hg, hname, hp⟩ | ⟨i', reli', hreloc, hp⟩
  · obtain ⟨k, hk, rfl⟩ := mem_gotPatches.mp hp
    exact .inr (hgot.apart hg hname hk)
  · obtain ⟨-, rfl⟩ := relocPatch_eq_some_iff.mp hp
    by_cases heq : (i', reli') = (i, reli)
    · obtain ⟨rfl, rfl⟩ := Prod.mk.inj heq
      exact .inl rfl
    · exact .inr (halone i' reli' hreloc heq)

theorem load64_mapTo_of_alone {i reli : Nat} (h : m.IsReloc i reli)
    (hknown : IsKnown (m.relocType i reli)) (halone : m.Alone mapped i reli)
    (hgot : m.OutsideGot mapped (m.relocTarget mapped i reli)) (im : Image) :
    load64 (m.mapTo env mapped im).mem (m.relocTarget mapped i reli) =
      m.relocOp env mapped i reli
        (load64 (m.loaded env mapped im.mem) (m.relocTarget mapped i reli)) := by
  rw [load64_mapTo h hknown rfl (separated_of_alone halone hgot), hgot.gotsUpTo_eq_zero h.lt,
    hgot.gotsAfter_eq_zero, BitVec.zero_mul, BitVec.add_zero, BitVec.add_zero]
  intro i' reli' hreloc _ hne heq
  have hapart := halone i' reli' hreloc hne
  rw [heq, Apart, BitVec.sub_self] at hapart
  exact absurd hapart.1 (by decide)

end word

/-! ## The psABI -/

section abi

variable (m : ElfMapper) (mapped : BitVec 64) (strtab symtab : Elf64Shdr)

/-- The symbol of an entry, in a table of symbols. -/
def symbolOf (i reli : Nat) : Elf64Sym :=
  .read m.mFile (recordAt symtab.shOffset symSize (elf64RGetSym (m.relocAt i reli).rInfo).toNat)

/-- The name of a symbol, in a table of strings. -/
def nameOf (sym : Elf64Sym) : Nat → BitVec 8 := fun k ↦
  m.mFile (strtab.shOffset + sym.stName.setWidth 64 + BitVec.ofNat 64 k)

/-- The first import with the name. -/
def importOf (sym : Elf64Sym) : Option ElfImport :=
  m.mImports.find? fun imp ↦ Spells (m.nameOf strtab sym) imp.name

/-- `S`: the address that the symbol of an entry has in the image, or that of the import
it stands for.  A symbol that no import defines has none. -/
def symbolAddress (i reli : Nat) : Option (BitVec 64) :=
  let sym := m.symbolOf symtab i reli
  if sym.stValue = 0 then (m.importOf strtab sym).map ElfImport.address
  else some (mapped + sym.stValue)

end abi

section results

variable {m : ElfMapper} {env : Machine} {mapped : BitVec 64} {strtab symtab : Elf64Shdr}

theorem resolveImport_eq (name : Nat → BitVec 8) :
    m.resolveImport name =
      ((m.mImports.find? fun imp ↦ Spells name imp.name).map ElfImport.address).getD 0 := by
  have htest : (fun imp : ElfImport ↦ strcmp imp.name.length imp.name.char name == 0) =
      fun imp ↦ decide (Spells name imp.name) := by
    funext imp
    rw [Bool.eq_iff_iff, beq_iff_eq, decide_eq_true_eq]
    exact strcmp_char_left_eq_zero_iff imp.name name
  rw [resolveImport, htest]
  cases m.mImports.find? fun imp ↦ Spells name imp.name with
  | none => rfl
  | some imp => rfl

/-- The word that an entry against a symbol stores. -/
theorem boundValue_eq (hstr : m.dynstrSection = some strtab) (hsym : m.dynsymSection = some symtab)
    (i reli : Nat) :
    m.boundValue env i (m.mShdrs i).shOffset reli =
      if (m.symbolOf symtab i reli).stValue = 0 then
        ((m.importOf strtab (m.symbolOf symtab i reli)).map ElfImport.address).getD 0
      else (m.symbolOf symtab i reli).stValue + (m.relocAt i i).rAddend := by
  have hsymbol (sym : BitVec 32) : m.dynsym env sym =
      .read m.mFile (recordAt symtab.shOffset symSize sym.toNat) := by
    rw [dynsym, hsym]
  have hname (sym : BitVec 32) : m.symbolName env sym =
      m.nameOf strtab (.read m.mFile (recordAt symtab.shOffset symSize sym.toNat)) := by
    funext k
    rw [symbolName, dynstrOffset, hstr, hsymbol]
    rfl
  simp only [boundValue, resolveImport_eq, hsymbol, hname]
  rfl

/-- **Symbol relocations.**  An entry of type `GLOB_DAT` or `JUMP_SLOT` whose target
overlaps no other target and lies in no `.got` leaves the address of its symbol there
exactly when the symbol is undefined, or the addend of the entry at the *section's* index
happens to be the base. -/
theorem symbolRelocation_iff (m : ElfMapper) (env : Machine) (mapped : BitVec 64) (im : Image)
    (strtab symtab : Elf64Shdr) (hstr : m.dynstrSection = some strtab)
    (hsym : m.dynsymSection = some symtab) (i reli : Nat) (hreloc : m.IsReloc i reli)
    (htype : m.relocType i reli = .globDat ∨ m.relocType i reli = .junpSlot)
    (halone : m.Alone mapped i reli) (hgot : m.OutsideGot mapped (m.relocTarget mapped i reli)) :
    (∀ address, m.symbolAddress mapped strtab symtab i reli = some address →
        load64 (m.mapTo env mapped im).mem (m.relocTarget mapped i reli) = address) ↔
      (m.symbolOf symtab i reli).stValue = 0 ∨ (m.relocAt i i).rAddend = mapped := by
  have hrelative : m.relocType i reli ≠ .relative := by
    rcases htype with htype | htype
    · rw [htype]
      decide
    · rw [htype]
      decide
  rw [load64_mapTo_of_alone hreloc (.inr htype.symm) halone hgot, relocOp, if_neg hrelative,
    boundValue_eq hstr hsym, symbolAddress]
  by_cases hvalue : (m.symbolOf symtab i reli).stValue = 0
  · simp only [if_pos hvalue]
    refine iff_of_true ?_ (.inl hvalue)
    intro address haddress
    rw [haddress]
    rfl
  · simp only [if_neg hvalue, or_iff_right hvalue, Option.some.injEq, forall_eq']
    rw [BitVec.add_comm mapped, BitVec.add_right_inj]

/-! ### Words in place -/

/-- What is at `x` before the sections are looked at: the byte of the last program header
over it, of the ELF header, or of the memory that the image is laid out in. -/
def inPlace (m : ElfMapper) (env : Machine) (mapped : BitVec 64) (mem : Mem) : Mem := fun x ↦
  match (List.range m.phnum).reverse.find? fun i ↦ (m.segmentRun env mapped i).Over x with
  | some i => (m.segmentRun env mapped i).at' x
  | none => if (m.ehdrRun mapped).Over x then (m.ehdrRun mapped).at' x else mem x

theorem loaded_eq_inPlace (m : ElfMapper) (env : Machine) (mapped : BitVec 64) (mem : Mem) :
    m.loaded env mapped mem = m.inPlace env mapped mem := by
  funext x
  rw [loaded, segmentRuns, inPlace]
  rcases last_or_none (m.segmentRun env mapped) (List.range m.phnum) x with
    ⟨before, i, after, heq, hover, hafter⟩ | hnone
  · rw [heq, overwrite_map_of_last hover hafter]
    have hfind : (before ++ i :: after).reverse.find?
        (fun i ↦ decide ((m.segmentRun env mapped i).Over x)) = some i := by
      rw [List.reverse_append, List.reverse_cons, List.append_assoc, List.find?_append,
        List.find?_eq_none.mpr]
      · simp [hover]
      · intro j hj
        simpa using hafter j (List.mem_reverse.mp hj)
    rw [hfind]
  · rw [overwrite_map_of_none hnone, List.find?_eq_none.mpr]
    · rfl
    · intro i hi
      simpa using hnone i (List.mem_reverse.mp hi)

/-- **`RELATIVE` relocations.**  An entry of type `RELATIVE` whose target overlaps no other
target and lies in no `.got` leaves `B + A` there exactly when the word in place spells the
addend already. -/
theorem relativeRelocation_iff (m : ElfMapper) (env : Machine) (mapped : BitVec 64) (im : Image)
    (i reli : Nat) (hreloc : m.IsReloc i reli) (htype : m.relocType i reli = .relative)
    (halone : m.Alone mapped i reli) (hgot : m.OutsideGot mapped (m.relocTarget mapped i reli)) :
    load64 (m.mapTo env mapped im).mem (m.relocTarget mapped i reli) =
        mapped + (m.relocAt i reli).rAddend ↔
      load64 (m.inPlace env mapped im.mem) (m.relocTarget mapped i reli) =
        (m.relocAt i reli).rAddend := by
  rw [load64_mapTo_of_alone hreloc (.inl htype) halone hgot, relocOp, if_pos htype,
    loaded_eq_inPlace, BitVec.add_comm mapped, BitVec.add_left_inj]

end results

/-! ## A file with three relocations -/

/-- The symbol `f` at `0x380`, a `GLOB_DAT` entry for it at `0x3C0`, and `RELATIVE` entries
at `0x3C8`, whose word is zero in the file, and at `0x3D0`, whose word is in the `.got` and
holds its addend. -/
def relocFile : Mem :=
  fileOf (ehdrMembers 0x40 1 0x200 6 5 ++ phdrMembers 0x40 1 0 0 0x400 0x400 ++
    textMembers 0x101 ['f'] ++
    symMembers 0x138 1 0x380 ++
    relaMembers 0x160 0x3C0 6 1 0 ++ relaMembers 0x178 0x3C8 8 0 0x10 ++
    relaMembers 0x190 0x3D0 8 0 0x20 ++
    textMembers 0x1C1 ['.', 'd', 'y', 'n', 's', 't', 'r'] ++
    textMembers 0x1C9 ['.', 'g', 'o', 't'] ++
    shdrMembers 0x240 1 3 0x100 0x100 3 ++ shdrMembers 0x280 0 11 0x120 0x120 48 ++
    shdrMembers 0x2C0 0 4 0x160 0x160 72 ++ shdrMembers 0x300 9 1 0x3D0 0x3D0 8 ++
    shdrMembers 0x340 0 3 0 0x1C0 16 ++
    [(0x3D0, 8, 0x20)])

/-- The mapper of that file, without imports. -/
def relocMapper : ElfMapper := ofFile relocFile []

/-- A machine with zeros where nothing else is said. -/
def zeroMachine : Machine where
  al _ := 0
  null _ := 0

def blankImage : Image where
  mem _ := 0
  written := []

section relocFile

theorem isReloc_relocMapper {i reli : Nat} : relocMapper.IsReloc i reli ↔ i = 3 ∧ reli < 3 := by
  have hsections : ∀ i < 6, (relocMapper.mShdrs i).shType = .rela → i = 3 := by decide +kernel
  have hnum : relocMapper.shnum = 6 := by decide +kernel
  have hcount : relocCount (relocMapper.mShdrs 3) = 3 := by decide +kernel
  constructor
  · rintro ⟨hlt, hrela, hreli⟩
    rw [hnum] at hlt
    obtain rfl := hsections i hlt hrela
    rw [hcount] at hreli
    exact ⟨rfl, hreli⟩
  · rintro ⟨rfl, hreli⟩
    rw [← hcount] at hreli
    exact ⟨by decide +kernel, by decide +kernel, hreli⟩

theorem alone_relocMapper {reli : Nat} (h : reli < 3) : relocMapper.Alone 0x100000 3 reli := by
  have hapart : ∀ reli < 3, ∀ reli' < 3, reli' ≠ reli →
      Apart (relocMapper.relocTarget 0x100000 3 reli') 8
        (relocMapper.relocTarget 0x100000 3 reli) 8 := by
    decide +kernel
  intro i' reli' hreloc hne
  obtain ⟨rfl, hlt⟩ := isReloc_relocMapper.mp hreloc
  exact hapart reli h reli' hlt fun heq ↦ hne (heq ▸ rfl)

theorem outsideGot_relocMapper {reli : Nat} (h : reli < 2) :
    relocMapper.OutsideGot 0x100000 (relocMapper.relocTarget 0x100000 3 reli) := by
  have hnum : relocMapper.shnum = 6 := by decide +kernel
  have hapart : ∀ reli < 2, ∀ g < 6, relocMapper.isNamed (relocMapper.mShdrs g) gotName = true →
      Apart (0x100000 + (relocMapper.mShdrs g).shAddr) (relocMapper.mShdrs g).shSize.toNat
        (relocMapper.relocTarget 0x100000 3 reli) 8 := by
    decide +kernel
  intro g hg hname x hx
  rw [hnum] at hg
  exact (hapart reli h g hg hname).not_lt hx

/-- The tables of strings and symbols that the mapper finds. -/
theorem tables_relocMapper :
    relocMapper.dynstrSection = some (relocMapper.mShdrs 1) ∧
      relocMapper.dynsymSection = some (relocMapper.mShdrs 2) := by
  decide +kernel

/-- The word of `f` is left without the base: what is added is the addend of entry 3, as the
section is the third, and not of entry 0. -/
theorem globDat_lacks_base :
    relocMapper.dynstrSection = some (relocMapper.mShdrs 1) ∧
      relocMapper.dynsymSection = some (relocMapper.mShdrs 2) ∧
      relocMapper.IsReloc 3 0 ∧ relocMapper.relocType 3 0 = .globDat ∧
      relocMapper.Alone 0x100000 3 0 ∧
      relocMapper.OutsideGot 0x100000 (relocMapper.relocTarget 0x100000 3 0) ∧
      relocMapper.symbolAddress 0x100000 (relocMapper.mShdrs 1) (relocMapper.mShdrs 2) 3 0 =
        some 0x100380 ∧
      load64 (relocMapper.mapTo zeroMachine 0x100000 blankImage).mem
        (relocMapper.relocTarget 0x100000 3 0) = 0x380 :=
  ⟨tables_relocMapper.1, tables_relocMapper.2, isReloc_relocMapper.mpr (by decide),
    by decide +kernel, alone_relocMapper (by decide), outsideGot_relocMapper (by decide),
    by decide +kernel, by decide +kernel⟩

theorem symbolRelocation_iff_relocFile :
    (∀ address, relocMapper.symbolAddress 0x100000 (relocMapper.mShdrs 1) (relocMapper.mShdrs 2)
          3 0 = some address →
        load64 (relocMapper.mapTo zeroMachine 0x100000 blankImage).mem
          (relocMapper.relocTarget 0x100000 3 0) = address) ↔
      (relocMapper.symbolOf (relocMapper.mShdrs 2) 3 0).stValue = 0 ∨
        (relocMapper.relocAt 3 3).rAddend = 0x100000 :=
  symbolRelocation_iff relocMapper zeroMachine 0x100000 blankImage _ _ tables_relocMapper.1
    tables_relocMapper.2 3 0 (isReloc_relocMapper.mpr (by decide)) (.inl (by decide +kernel))
    (alone_relocMapper (by decide)) (outsideGot_relocMapper (by decide))

/-- The addend of a `RELATIVE` entry is not looked at: the zero in place gives the base. -/
theorem relative_ignores_addend :
    relocMapper.dynstrSection = some (relocMapper.mShdrs 1) ∧
      relocMapper.dynsymSection = some (relocMapper.mShdrs 2) ∧
      relocMapper.IsReloc 3 1 ∧ relocMapper.relocType 3 1 = .relative ∧
      relocMapper.Alone 0x100000 3 1 ∧
      relocMapper.OutsideGot 0x100000 (relocMapper.relocTarget 0x100000 3 1) ∧
      (relocMapper.relocAt 3 1).rAddend = 0x10 ∧
      load64 (relocMapper.mapTo zeroMachine 0x100000 blankImage).mem
        (relocMapper.relocTarget 0x100000 3 1) = 0x100000 :=
  ⟨tables_relocMapper.1, tables_relocMapper.2, isReloc_relocMapper.mpr (by decide),
    by decide +kernel, alone_relocMapper (by decide), outsideGot_relocMapper (by decide),
    by decide +kernel, by decide +kernel⟩

theorem relativeRelocation_iff_relocFile :
    load64 (relocMapper.mapTo zeroMachine 0x100000 blankImage).mem
        (relocMapper.relocTarget 0x100000 3 1) =
        0x100000 + (relocMapper.relocAt 3 1).rAddend ↔
      load64 (relocMapper.inPlace zeroMachine 0x100000 blankImage.mem)
          (relocMapper.relocTarget 0x100000 3 1) =
        (relocMapper.relocAt 3 1).rAddend :=
  relativeRelocation_iff relocMapper zeroMachine 0x100000 blankImage 3 1
    (isReloc_relocMapper.mpr (by decide)) (by decide +kernel) (alone_relocMapper (by decide))
    (outsideGot_relocMapper (by decide))

end relocFile

end Hypervi.Elf.ElfMapper
