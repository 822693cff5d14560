import Hypervi.Elf.Exchange

/-!
# Words of the `.got` that are relocated too

A word of a `.got` is touched twice when an entry of a relocation section targets it: the
base is added by the name of the section, and again, or stored over, by the entry.  Which
comes last is decided by the section table.

`GotLaw` is what the psABI asks, which knows one value only, and what an exchange of a `.got` with
a relocation section should leave.  `gotLaw_of_condition` says when the mapper has it.  Its
condition is needed for every word that shares no byte with another one, and where other words do
so, their patches must not come between (`NoInterference`).
-/

namespace Hypervi.Elf.ElfMapper

open Memory

/-! ## The law of the psABI, and when it holds -/

section law

variable (m : ElfMapper) (env : Machine) (mapped : BitVec 64) (im : Image)
  (strtab symtab : Elf64Shdr)

/-- The value of an entry: `B + A`, or the address of its symbol. -/
def abiValue (i reli : Nat) : Option (BitVec 64) :=
  if m.relocType i reli = .relative then some (mapped + (m.relocAt i reli).rAddend)
  else m.symbolAddress mapped strtab symtab i reli

/-- The entry is the only one of a known type for its target, which is a word of a `.got`. -/
structure SoleInGot (i reli : Nat) : Prop where
  isReloc : m.IsReloc i reli
  known : IsKnown (m.relocType i reli)
  inGot : ∃ g < m.shnum, m.GotHas mapped (m.relocTarget mapped i reli) g
  sole : ∀ i' reli', m.IsReloc i' reli' → IsKnown (m.relocType i' reli') →
    (i', reli') ≠ (i, reli) → m.relocTarget mapped i' reli' ≠ m.relocTarget mapped i reli

/-- Each word of a `.got` with one entry has the value of the entry in the end, and no
exchange of a `.got` with a relocation section in the section table changes the image. -/
structure GotLaw : Prop where
  value : ∀ i reli, m.SoleInGot mapped i reli →
    ∀ v, m.abiValue mapped strtab symtab i reli = some v →
      load64 (m.mapTo env mapped im).mem (m.relocTarget mapped i reli) = v
  order : ∀ g r, g < m.shnum → r < m.shnum → m.isNamed (m.mShdrs g) gotName = true →
    (m.mShdrs r).shType = .rela →
      ((m.swapSections g r).mapTo env mapped im).mem = (m.mapTo env mapped im).mem

/-- What the additions of the base have to come to for one entry. -/
def RebasedOnce (i reli : Nat) : Prop :=
  let t := m.relocTarget mapped i reli
  let before := BitVec.ofNat 64 (m.gotsUpTo mapped t i) * mapped
  let after := BitVec.ofNat 64 (m.gotsAfter mapped t i) * mapped
  if m.relocType i reli = .relative then
    load64 (m.inPlace env mapped im.mem) t + before + after = (m.relocAt i reli).rAddend
  else if (m.symbolOf symtab i reli).stValue = 0 then
    m.importOf strtab (m.symbolOf symtab i reli) = none ∨ after = 0
  else
    (m.relocAt i i).rAddend + after = mapped

/-- The word at `t` is touched behind the entry. -/
def TouchedAfter (i reli : Nat) (t : BitVec 64) : Prop :=
  (∃ g, i < g ∧ g < m.shnum ∧ m.GotHas mapped t g) ∨
    ∃ i' reli', (i < i' ∨ i = i' ∧ reli < reli') ∧ m.IsReloc i' reli' ∧
      IsKnown (m.relocType i' reli') ∧ m.relocTarget mapped i' reli' = t

/-- Nothing that the entry leaves in its word comes from another word: what it adds to must not
share bytes with one, and what it stores only with words that are touched before. -/
def Clear (i reli : Nat) : Prop :=
  if m.relocType i reli = .relative then m.Isolated mapped (m.relocTarget mapped i reli)
  else ∀ t, m.TouchedAfter mapped i reli t → Separated t (m.relocTarget mapped i reli)

/-- The condition: for each entry the additions come to one, and each exchange keeps the words
that share no byte with another one. -/
structure GotCondition : Prop where
  once : ∀ i reli, m.SoleInGot mapped i reli → m.Clear mapped i reli →
    m.RebasedOnce env mapped im strtab symtab i reli
  exchange : ∀ lo hi, m.Exchange lo hi → m.SameSymbols lo hi → ∀ t, m.Isolated mapped t →
    m.UnboundBehind mapped hi t → m.ExchangeKeeps env mapped lo hi t

/-- What it leaves open: words that share bytes are not in the way of the entries and of the
exchanges, and an exchange leaves the table of symbols that the entries refer to. -/
structure NoInterference : Prop where
  clear : ∀ i reli, m.SoleInGot mapped i reli →
    m.abiValue mapped strtab symtab i reli ≠ none → m.Clear mapped i reli
  exchange : ∀ lo hi, m.Exchange lo hi → m.SameSymbols lo hi ∧ m.OrderFree env mapped lo hi

variable {m env mapped im strtab symtab}

/-! ### The value -/

/-- The patches behind an entry: of the later ones of its section, and of the sections behind. -/
def patchesBehind (m : ElfMapper) (env : Machine) (mapped : BitVec 64) (i reli : Nat) : List Patch :=
  (behind (relocCount (m.mShdrs i)) reli).filterMap
      (m.relocPatch env mapped i (m.mShdrs i).shOffset) ++
    (behind m.shnum i).flatMap (m.sectionPatches env mapped)

theorem patches_eq_append_patchesBehind (env : Machine) (mapped : BitVec 64) {i reli : Nat} (h : m.IsReloc i reli)
    (hknown : IsKnown (m.relocType i reli)) :
    ∃ before, m.patches env mapped =
      before ++ ⟨m.relocTarget mapped i reli, m.relocOp env mapped i reli⟩ ::
        m.patchesBehind env mapped i reli := by
  have hpatch : m.relocPatch env mapped i (m.mShdrs i).shOffset reli =
      some ⟨m.relocTarget mapped i reli, m.relocOp env mapped i reli⟩ :=
    relocPatch_eq_some_iff.mpr ⟨hknown, rfl⟩
  refine ⟨(List.range i).flatMap (m.sectionPatches env mapped) ++
    ((if m.isNamed (m.mShdrs i) gotName then gotPatches mapped (m.mShdrs i) else []) ++
      (List.range reli).filterMap (m.relocPatch env mapped i (m.mShdrs i).shOffset)), ?_⟩
  rw [patches, range_eq_append_behind h.lt, List.flatMap_append, List.flatMap_cons,
    sectionPatches, if_pos h.isRela, relaPatches, range_eq_append_behind h.reli_lt,
    List.filterMap_append, List.filterMap_cons_some hpatch]
  simp only [patchesBehind, List.append_assoc, List.cons_append]

theorem touchedAfter_of_mem_patchesBehind {i reli : Nat} (h : m.IsReloc i reli) {q : Patch}
    (hq : q ∈ m.patchesBehind env mapped i reli) : m.TouchedAfter mapped i reli q.target := by
  rcases List.mem_append.mp hq with hq | hq
  · obtain ⟨reli', hreli', hq⟩ := List.mem_filterMap.mp hq
    obtain ⟨hlater, hlt⟩ := mem_behind.mp hreli'
    obtain ⟨hknown, rfl⟩ := relocPatch_eq_some_iff.mp hq
    exact .inr ⟨i, reli', .inr ⟨rfl, hlater⟩, ⟨h.lt, h.isRela, hlt⟩, hknown, rfl⟩
  · obtain ⟨k, hk, hq⟩ := List.mem_flatMap.mp hq
    obtain ⟨hlater, hlt⟩ := mem_behind.mp hk
    rcases (mem_sectionPatches hlt).mp hq with ⟨hname, hq⟩ | ⟨reli', hreloc, hq⟩
    · obtain ⟨n, hn, rfl⟩ := mem_gotPatches.mp hq
      exact .inl ⟨k, hlater, hlt, hname, n, hn, rfl⟩
    · obtain ⟨hknown, rfl⟩ := relocPatch_eq_some_iff.mp hq
      exact .inr ⟨k, reli', .inl hlater, hreloc, hknown, rfl⟩

/-- Behind the sole entry for a word of the `.got` only the base is added to it. -/
theorem patchWord_patchesBehind {i reli : Nat} (h : m.SoleInGot mapped i reli) (v : BitVec 64) :
    patchWord (m.patchesBehind env mapped i reli) (m.relocTarget mapped i reli) v =
      v + BitVec.ofNat 64 (m.gotsAfter mapped (m.relocTarget mapped i reli) i) * mapped := by
  have hentries (v : BitVec 64) : patchWord ((behind (relocCount (m.mShdrs i)) reli).filterMap
      (m.relocPatch env mapped i (m.mShdrs i).shOffset)) (m.relocTarget mapped i reli) v = v := by
    refine patchWord_of_forall_ne (fun q hq ↦ ?_) v
    obtain ⟨reli', hreli', hq⟩ := List.mem_filterMap.mp hq
    obtain ⟨hlater, hlt⟩ := mem_behind.mp hreli'
    obtain ⟨hknown, rfl⟩ := relocPatch_eq_some_iff.mp hq
    refine h.sole i reli' ⟨h.isReloc.lt, h.isReloc.isRela, hlt⟩ hknown fun heq ↦ ?_
    exact Nat.ne_of_gt hlater (congrArg Prod.snd heq)
  rw [patchesBehind, patchWord_append, hentries, patchWord_sections_of_none,
    gotsAfter_eq (range_eq_append_behind h.isReloc.lt) fun j hj ↦ (mem_behind.mp hj).1]
  · exact fun j hj ↦ (mem_behind.mp hj).2
  · intro j hj reli' hreloc hknown
    refine h.sole j reli' hreloc hknown fun heq ↦ ?_
    exact Nat.ne_of_gt (mem_behind.mp hj).1 (congrArg Prod.fst heq)

/-- The word of an entry that stores an address, when what comes behind keeps away from it. -/
theorem load64_mapTo_of_bound {i reli : Nat} (h : m.SoleInGot mapped i reli)
    (hrelative : m.relocType i reli ≠ .relative)
    (hclear : ∀ t, m.TouchedAfter mapped i reli t → Separated t (m.relocTarget mapped i reli)) :
    load64 (m.mapTo env mapped im).mem (m.relocTarget mapped i reli) =
      m.boundValue env i (m.mShdrs i).shOffset reli +
        BitVec.ofNat 64 (m.gotsAfter mapped (m.relocTarget mapped i reli) i) * mapped := by
  obtain ⟨before, hpatches⟩ := patches_eq_append_patchesBehind env mapped h.isReloc h.known
  have hsep : ∀ q ∈ m.patchesBehind env mapped i reli,
      Separated q.target (m.relocTarget mapped i reli) :=
    fun q hq ↦ hclear _ (touchedAfter_of_mem_patchesBehind h.isReloc hq)
  rw [mapTo_mem, hpatches, patchAll_append, patchAll_cons, load64_patchAll hsep,
    load64_apply (.inl rfl), if_pos rfl, relocOp, if_neg hrelative, patchWord_patchesBehind h]

/-- The value that one entry leaves in its word of the `.got`. -/
theorem rebasedOnce_iff (hstr : m.dynstrSection = some strtab)
    (hsym : m.dynsymSection = some symtab) {i reli : Nat} (h : m.SoleInGot mapped i reli)
    (hclear : m.Clear mapped i reli) :
    (∀ v, m.abiValue mapped strtab symtab i reli = some v →
        load64 (m.mapTo env mapped im).mem (m.relocTarget mapped i reli) = v) ↔
      m.RebasedOnce env mapped im strtab symtab i reli := by
  rw [abiValue, RebasedOnce]
  by_cases hrelative : m.relocType i reli = .relative
  · rw [Clear, if_pos hrelative] at hclear
    have hsep := not_overlapped_iff.mp ((isolated_iff env).mp hclear)
    have hmove (v before after : BitVec 64) :
        v + before + mapped + after = mapped + (v + before + after) := by ac_rfl
    simp only [if_pos hrelative, Option.some.injEq, forall_eq']
    rw [load64_mapTo h.isReloc h.known rfl hsep h.sole, relocOp, if_pos hrelative,
      loaded_eq_inPlace, hmove, BitVec.add_right_inj]
  · rw [Clear, if_neg hrelative] at hclear
    simp only [if_neg hrelative]
    rw [load64_mapTo_of_bound h hrelative hclear, boundValue_eq hstr hsym, symbolAddress]
    by_cases hvalue : (m.symbolOf symtab i reli).stValue = 0
    · simp only [if_pos hvalue]
      cases m.importOf strtab (m.symbolOf symtab i reli) with
      | none => simp
      | some imp =>
          simp only [Option.map_some, Option.some.injEq, forall_eq', Option.getD_some]
          simp
    · simp only [if_neg hvalue, Option.some.injEq, forall_eq']
      rw [BitVec.add_comm mapped, BitVec.add_assoc, BitVec.add_right_inj]

/-! ### The order -/

/-- An exchange has two places, and it does not matter which of them the `.got` has. -/
theorem order_iff :
    (∀ g r, g < m.shnum → r < m.shnum → m.isNamed (m.mShdrs g) gotName = true →
      (m.mShdrs r).shType = .rela →
        ((m.swapSections g r).mapTo env mapped im).mem = (m.mapTo env mapped im).mem) ↔
      ∀ lo hi, m.Exchange lo hi →
        ((m.swapSections lo hi).mapTo env mapped im).mem = (m.mapTo env mapped im).mem := by
  constructor
  · intro h lo hi hexchange
    rcases hexchange.meet with ⟨hgot, hrela⟩ | ⟨hrela, hgot⟩
    · exact h lo hi hexchange.lo_lt hexchange.hi_lt hgot hrela
    · rw [swapSections_comm]
      exact h hi lo hexchange.hi_lt hexchange.lo_lt hgot hrela
  · intro h g r hg hr hgot hrela
    rcases Nat.lt_trichotomy g r with hlt | heq | hlt
    · exact h g r ⟨hlt, hr, .inl ⟨hgot, hrela⟩⟩
    · rw [heq, swapSections_self]
    · rw [swapSections_comm]
      exact h r g ⟨hlt, hg, .inr ⟨hrela, hgot⟩⟩

/-- Words that are all separated do not interfere, and there is one table of symbols. -/
theorem noInterference_of_separated (hsep : m.WordsSeparated mapped)
    (hone : ∀ i < m.shnum, ∀ j < m.shnum, (m.mShdrs i).shType = .dynsym →
      (m.mShdrs j).shType = .dynsym → m.mShdrs i = m.mShdrs j) :
    m.NoInterference env mapped strtab symtab := by
  have hisolated {t : BitVec 64} (ht : m.Touched mapped t) : m.Isolated mapped t :=
    fun t' ht' ↦ hsep t' t ht' ht
  have htarget {i reli : Nat} (hreloc : m.IsReloc i reli) (hknown : IsKnown (m.relocType i reli)) :
      m.Touched mapped (m.relocTarget mapped i reli) := .inr ⟨i, reli, hreloc, hknown, rfl⟩
  constructor
  · intro i reli h _
    rw [Clear]
    split
    · exact hisolated (htarget h.isReloc h.known)
    · rintro t (⟨g, -, hg, hhas⟩ | ⟨i', reli', -, hreloc, hknown, rfl⟩)
      · exact hisolated (htarget h.isReloc h.known) t (.inl ⟨g, hg, hhas⟩)
      · exact hisolated (htarget h.isReloc h.known) _ (htarget hreloc hknown)
  · intro lo hi h
    refine ⟨h.sameSymbols hone, fun j _ reli hreloc hbind hshared ↦ ?_,
      fun a b _ hab hb _ p hp _ _ hshared ↦ ?_⟩
    · exact absurd (hisolated (htarget hreloc (.inr hbind))) hshared
    · have ha : a < m.shnum := Nat.lt_of_lt_of_le hab (Nat.le_of_lt (Nat.lt_of_le_of_lt hb h.hi_lt))
      have hmem : p ∈ m.patches env mapped :=
        List.mem_flatMap.mpr ⟨a, List.mem_range.mpr ha, hp⟩
      exact absurd (hisolated (exists_patch_iff.mp ⟨p, hmem, rfl⟩)) hshared

end law

end Hypervi.Elf.ElfMapper
