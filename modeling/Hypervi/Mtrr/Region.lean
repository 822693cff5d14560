import Hypervi.Mtrr.Lookup

/-!
# Large pages: the 2 MiB lookup against the page lookups

`ept_init_core` maps a 2 MiB region by one large page when
`ept_get_memory_type(a, 0x200000)` finds a type, and splits it into 4 KiB pages
otherwise.  The lookup notices a range that ends inside the region, but it only
looks at ranges that contain `a`: a range that begins inside the region is not
seen.  `RegionSound` is the exact condition under which the large page
nevertheless has the type that each of its pages has on its own: what the ranges
that begin inside the region must be like, beside those that contain its start.
-/

namespace Hypervi.Mtrr

open Ia32

variable {rax : Nat → BitVec 64} {msrs : Msrs} {a : BitVec 64}

/-- The page lookup after `ept_init_mtrr`. -/
theorem eptGetMemoryType_eptInitMtrr_page {p : BitVec 64} (hp : 0x1000 ∣ p.toNat) :
    eptGetMemoryType (eptInitMtrr rax msrs) p 0x1000 =
      match (activeFixedRanges msrs).find? (·.Covers p) with
      | some d => d.type
      | none => resolve (eptInitMtrr rax msrs).defaultMemoryType
          (typesAt (variableRanges rax msrs) p) := by
  refine eptGetMemoryType_page (ranges_eptInitMtrr rax msrs) ?_
    (fun d hd ↦ (mem_activeFixedRanges hd).2) (fun d hd ↦ (mem_variableRanges hd).2) hp
  rw [ranges_eptInitMtrr]
  exact fun d hd ↦ wellFormed_of_mem_decodedRanges hd

/-- When a fixed range reaches into a region, then one contains its start: the
region is the first one, and the first fixed range begins at `0`. -/
theorem exists_fixed_covers {d : MtrrData} (hd : d ∈ activeFixedRanges msrs)
    (ha : a.toNat < 2 ^ 39) (hal : 0x200000 ∣ a.toNat) {k : Nat} (hk : k < 512)
    (hc : d.Covers (pageAt a k)) : ∃ e ∈ activeFixedRanges msrs, e.Covers a := by
  obtain ⟨hwf, hf⟩ := mem_activeFixedRanges hd
  have hend := hwf.fixed_end_le hf
  rw [MtrrData.covers_iff, toNat_pageAt ha hk] at hc
  have h0 : a = 0 := BitVec.eq_of_toNat_eq (by change a.toNat = 0; omega)
  unfold activeFixedRanges at hd ⊢
  split at hd
  · refine ⟨fixedRange (msrs ia32MtrrFix64k00000) 0 0x10000 0, ?_, ?_⟩
    · simp [*, fixedRanges, fixedRangeRegisters, rangesOfRegister, List.range_succ]
    · subst h0
      rw [MtrrData.Covers]
      simp [fixedRange]
  · cases hd

/-- Where no fixed range contains the start of a region, none reaches a page of it. -/
theorem not_covers_pageAt (ha : a.toNat < 2 ^ 39) (hal : 0x200000 ∣ a.toNat)
    (hfix : ∀ d ∈ activeFixedRanges msrs, ¬ d.Covers a) {k : Nat} (hk : k < 512) :
    ∀ d ∈ activeFixedRanges msrs, ¬ d.Covers (pageAt a k) := by
  intro d hd hc
  obtain ⟨e, he, hce⟩ := exists_fixed_covers hd ha hal hk hc
  exact hfix e he hce

theorem mem_ranges_of_mem_variableRanges {d : MtrrData} (hd : d ∈ variableRanges rax msrs) :
    d ∈ ranges (eptInitMtrr rax msrs) := by
  rw [ranges_eptInitMtrr]
  exact List.mem_append_right _ hd

/-- Where no fixed range reaches, only the variable ranges have a say. -/
theorem typesAt_ranges_of_not_fixed {p : BitVec 64}
    (hfix : ∀ d ∈ activeFixedRanges msrs, ¬ d.Covers p) :
    typesAt (ranges (eptInitMtrr rax msrs)) p = typesAt (variableRanges rax msrs) p := by
  rw [ranges_eptInitMtrr, decodedRanges, typesAt_append, typesAt_eq_nil hfix, List.nil_append]

/-- Where no fixed range contains the start of a region, a page of it has the
type that `resolve` gives to the ranges containing the page. -/
theorem eptGetMemoryType_pageAt (ha : a.toNat < 2 ^ 39) (hal : 0x200000 ∣ a.toNat)
    (hfix : ∀ d ∈ activeFixedRanges msrs, ¬ d.Covers a) {k : Nat} (hk : k < 512) :
    eptGetMemoryType (eptInitMtrr rax msrs) (pageAt a k) 0x1000 =
      resolve (eptInitMtrr rax msrs).defaultMemoryType
        (typesAt (ranges (eptInitMtrr rax msrs)) (pageAt a k)) := by
  have hp : 0x1000 ∣ (pageAt a k).toNat := by rw [toNat_pageAt ha hk]; omega
  have hnone := not_covers_pageAt ha hal hfix hk
  rw [eptGetMemoryType_eptInitMtrr_page hp, typesAt_ranges_of_not_fixed hnone,
    List.find?_eq_none.mpr (by simpa using hnone)]

/-! ## The range that decides the lookup -/

/-- A range that decides the lookup of a region ends inside it, or is an uncacheable
variable range that contains all of it. -/
theorem decider_cases (ha : a.toNat < 2 ^ 39) {d : MtrrData}
    (hd : (ranges (eptInitMtrr rax msrs)).find? (·.Decides a 0x200000) = some d) :
    d.EndsInside a 0x200000 ∧
      eptGetMemoryType (eptInitMtrr rax msrs) a 0x200000 = memoryTypeInvalid ∨
    d ∈ variableRanges rax msrs ∧ d.Covers a ∧ ¬ d.EndsInside a 0x200000 ∧
      d.type = memoryTypeUncacheable ∧
      eptGetMemoryType (eptInitMtrr rax msrs) a 0x200000 = memoryTypeUncacheable := by
  obtain ⟨hc, hdec⟩ : d.Decides a 0x200000 := by simpa using List.find?_some hd
  have hlookup := eptGetMemoryType_eq (eptInitMtrr rax msrs) a 0x200000
  rw [hd, answer] at hlookup
  by_cases he : d.EndsInside a 0x200000
  · exact Or.inl ⟨he, hlookup.trans (if_pos he)⟩
  · have hmem := List.mem_of_find?_eq_some hd
    rw [ranges_eptInitMtrr] at hmem
    rcases List.mem_append.mp hmem with hf | hv
    · obtain ⟨hwf, hfd⟩ := mem_activeFixedRanges hf
      exact absurd (hwf.fixed_endsInside hfd ha hc) he
    · have huc : d.type = memoryTypeUncacheable :=
        (hdec.resolve_left he).resolve_left (by simp [(mem_variableRanges hv).2])
      exact Or.inr ⟨hv, hc, he, huc, hlookup.trans ((if_neg he).trans huc)⟩

/-- A range that decides the lookup exists as soon as one has a reason to. -/
theorem exists_decider {d : MtrrData} (hd : d ∈ ranges (eptInitMtrr rax msrs))
    (hdec : d.Decides a 0x200000) :
    ∃ e, (ranges (eptInitMtrr rax msrs)).find? (·.Decides a 0x200000) = some e := by
  refine Option.isSome_iff_exists.mp (List.find?_isSome.mpr ⟨d, hd, ?_⟩)
  exact decide_eq_true hdec

/-- A region whose start a fixed range contains has no type of its own: the fixed
range ends inside it. -/
theorem eptGetMemoryType_of_fixed (ha : a.toNat < 2 ^ 39) {d : MtrrData}
    (hd : d ∈ activeFixedRanges msrs) (hc : d.Covers a) :
    eptGetMemoryType (eptInitMtrr rax msrs) a 0x200000 = memoryTypeInvalid := by
  -- the fixed ranges come first in the table, so that the decider is one of them
  obtain ⟨e, he⟩ : ∃ e, (activeFixedRanges msrs).find? (·.Decides a 0x200000) = some e :=
    Option.isSome_iff_exists.mp (List.find?_isSome.mpr
      ⟨d, hd, decide_eq_true ⟨hc, Or.inr (Or.inl (mem_activeFixedRanges hd).2)⟩⟩)
  have hce : e.Decides a 0x200000 := by simpa using List.find?_some he
  have hfind : (ranges (eptInitMtrr rax msrs)).find? (·.Decides a 0x200000) = some e := by
    rw [ranges_eptInitMtrr, decodedRanges, List.find?_append, he, Option.some_or]
  obtain ⟨hwf, hfe⟩ := mem_activeFixedRanges (List.mem_of_find?_eq_some he)
  rw [eptGetMemoryType_eq, hfind]
  exact if_pos (hwf.fixed_endsInside hfe ha hce.1)

/-! ## The exact condition -/

/-- The ranges that contain `p`, in table order. -/
def rangesAt (rs : List MtrrData) (p : BitVec 64) : List MtrrData := rs.filter (·.Covers p)

/-- The ranges that begin at `a` or before it. -/
def begunBy (rs : List MtrrData) (a : BitVec 64) : List MtrrData :=
  rs.filter (·.rangeBegin ≤ a)

/-- The last range that is not write-back. -/
def lastNotWriteBack (page : List MtrrData) : Option MtrrData :=
  (page.filter (·.type ≠ memoryTypeWriteBack)).getLast?

/-- Where no range that begins behind `a` is uncacheable, those that do leave the type `t` of
`a` to the page that `page` are the ranges of. -/
structure Undisturbed (default t : MemoryType) (a : BitVec 64) (page : List MtrrData) : Prop where
  /-- The last range has the type itself, if it begins behind `a`. -/
  last : ∀ d, page.getLast? = some d → a < d.rangeBegin → d.type ≠ memoryTypeWriteBack →
    t = if d.type = memoryTypeInvalid then default else d.type
  /-- If it is write-back, the last one that is not has a say. -/
  writeBack : ∀ d, page.getLast? = some d → d.type = memoryTypeWriteBack →
    (a < d.rangeBegin ∨ ∃ e, lastNotWriteBack page = some e ∧ a < e.rangeBegin) →
    t = if (lastNotWriteBack page).map (·.type) = some memoryTypeWriteThrough then
      memoryTypeWriteThrough else memoryTypeWriteBack

/-- The ranges that begin behind `a` do no harm to the page. -/
def Harmless (default t : MemoryType) (a : BitVec 64) (page : List MtrrData) : Prop :=
  (∃ d ∈ page, a < d.rangeBegin ∧ d.type = memoryTypeUncacheable) ∧ t = memoryTypeUncacheable ∨
  (∀ d ∈ page, a < d.rangeBegin → d.type ≠ memoryTypeUncacheable) ∧ Undisturbed default t a page

/-- The type that the ranges at the start of a region give, when none of them is uncacheable. -/
def startType (g : Globals) (a : BitVec 64) : MemoryType :=
  lastType g.defaultMemoryType (typesAt (ranges g) a)

/-- The region is settled by a single range, or its start has no type at all, or the
ranges that begin inside the region do no harm to any of its pages. -/
def RegionSound (g : Globals) (a : BitVec 64) : Prop :=
  (∃ d ∈ ranges g, d.Decides a 0x200000) ∨ startType g a = memoryTypeInvalid ∨
  ∀ k < 512, Harmless g.defaultMemoryType (startType g a) a (rangesAt (ranges g) (pageAt a k))

/-- When no range ends inside the region, the ranges on a page that do not begin inside
the region are those on its start. -/
theorem begunBy_rangesAt {rs : List MtrrData} (ha : a.toNat < 2 ^ 39) {k : Nat} (hk : k < 512)
    (hend : ∀ d ∈ rs, d.Covers a → ¬ d.EndsInside a 0x200000) :
    begunBy (rangesAt rs (pageAt a k)) a = rangesAt rs a := by
  rw [rangesAt, rangesAt, begunBy, List.filter_filter]
  refine List.filter_congr fun d hd ↦ ?_
  rw [← Bool.decide_and, decide_eq_decide]
  constructor
  · rintro ⟨hb, hc⟩
    exact hc.of_pageAt ha hk (BitVec.not_lt.mpr hb)
  · intro hc
    exact ⟨hc.1, hc.pageAt (hend d hd hc) ha hk⟩

section page

variable {default : MemoryType} {page : List MtrrData} {d : MtrrData}

theorem getLast?_filter_of {p : MtrrData → Bool} (hlast : page.getLast? = some d)
    (hp : p d = true) : (page.filter p).getLast? = some d := by
  obtain ⟨before, rfl⟩ := List.getLast?_eq_some_iff.mp hlast
  rw [List.filter_append, List.filter_cons_of_pos hp, List.filter_nil, List.getLast?_concat]

/-- The last type, by the last range. -/
theorem lastType_of_ne (hlast : page.getLast? = some d) (hwb : d.type ≠ memoryTypeWriteBack) :
    lastType default (page.map (·.type)) =
      if d.type = memoryTypeInvalid then default else d.type := by
  obtain ⟨before, rfl⟩ := List.getLast?_eq_some_iff.mp hlast
  rw [List.map_append, List.map_cons, List.map_nil, lastType_concat, if_neg hwb]

theorem lastType_of_writeBack (hlast : page.getLast? = some d)
    (hwb : d.type = memoryTypeWriteBack) : lastType default (page.map (·.type)) =
      if (lastNotWriteBack page).map (·.type) = some memoryTypeWriteThrough then
        memoryTypeWriteThrough else memoryTypeWriteBack := by
  obtain ⟨before, rfl⟩ := List.getLast?_eq_some_iff.mp hlast
  have hbefore : ((before.map (·.type)).filter (· ≠ memoryTypeWriteBack)).getLast? =
      (lastNotWriteBack (before ++ [d])).map (·.type) := by
    rw [lastNotWriteBack, List.filter_append, List.filter_map, List.getLast?_map]
    simp [hwb, Function.comp_def]
  rw [List.map_append, List.map_cons, List.map_nil, lastType_concat, if_pos hwb, hbefore]

/-- The last range that is not write-back is the same among those at the start, unless it
begins behind it. -/
theorem lastNotWriteBack_begunBy
    (hold : ∀ e, lastNotWriteBack page = some e → ¬ a < e.rangeBegin) :
    lastNotWriteBack (begunBy page a) = lastNotWriteBack page := by
  rw [lastNotWriteBack, begunBy, List.filter_comm]
  cases hlast : lastNotWriteBack page with
  | none =>
      rw [lastNotWriteBack, List.getLast?_eq_none_iff] at hlast
      rw [hlast]
      rfl
  | some e =>
      exact getLast?_filter_of hlast (decide_eq_true (BitVec.not_lt.mp (hold e hlast)))

/-- The two rules, for the last range of a page that has one. -/
theorem undisturbed_iff {t : MemoryType} (hlast : page.getLast? = some d) :
    Undisturbed default t a page ↔
      (a < d.rangeBegin → d.type ≠ memoryTypeWriteBack →
        t = if d.type = memoryTypeInvalid then default else d.type) ∧
      (d.type = memoryTypeWriteBack →
        (a < d.rangeBegin ∨ ∃ e, lastNotWriteBack page = some e ∧ a < e.rangeBegin) →
        t = if (lastNotWriteBack page).map (·.type) = some memoryTypeWriteThrough then
          memoryTypeWriteThrough else memoryTypeWriteBack) := by
  constructor
  · exact fun h ↦ ⟨h.last d hlast, h.writeBack d hlast⟩
  · rintro ⟨hnot, hwb⟩
    constructor
    · intro e he
      obtain rfl := Option.some.inj (hlast.symm.trans he)
      exact hnot
    · intro e he
      obtain rfl := Option.some.inj (hlast.symm.trans he)
      exact hwb

theorem lastType_eq_iff_undisturbed :
    lastType default (page.map (·.type)) = lastType default ((begunBy page a).map (·.type)) ↔
      Undisturbed default (lastType default ((begunBy page a).map (·.type))) a page := by
  cases hlast : page.getLast? with
  | none =>
      rw [List.getLast?_eq_none_iff] at hlast
      subst hlast
      exact iff_of_true rfl ⟨fun _ hd ↦ absurd hd (by simp), fun _ hd ↦ absurd hd (by simp)⟩
  | some d =>
      have hold (h : ¬ a < d.rangeBegin) : (begunBy page a).getLast? = some d :=
        getLast?_filter_of hlast (decide_eq_true (BitVec.not_lt.mp h))
      rw [undisturbed_iff hlast]
      by_cases hwb : d.type = memoryTypeWriteBack
      · rw [lastType_of_writeBack hlast hwb]
        by_cases hnew : a < d.rangeBegin ∨ ∃ e, lastNotWriteBack page = some e ∧ a < e.rangeBegin
        · constructor
          · exact fun h ↦ ⟨fun _ hne ↦ absurd hwb hne, fun _ _ ↦ h.symm⟩
          · exact fun h ↦ (h.2 hwb hnew).symm
        · -- neither of the two begins behind the start, so that they are its last ones too
          obtain ⟨hd, he⟩ := not_or.mp hnew
          refine iff_of_true ?_ ⟨fun hlt ↦ absurd hlt hd, fun _ h ↦ absurd h hnew⟩
          rw [lastType_of_writeBack (hold hd) hwb,
            lastNotWriteBack_begunBy fun e hsome hlt ↦ he ⟨e, hsome, hlt⟩]
      · rw [lastType_of_ne hlast hwb]
        by_cases hd : a < d.rangeBegin
        · constructor
          · exact fun h ↦ ⟨fun _ _ ↦ h.symm, fun h' ↦ absurd h' hwb⟩
          · exact fun h ↦ (h.1 hd hwb).symm
        · refine iff_of_true ?_ ⟨fun hlt ↦ absurd hlt hd, fun h ↦ absurd h hwb⟩
          exact (lastType_of_ne (hold hd) hwb).symm

/-- When none of the ranges at the start is uncacheable, the page has the type of the start
exactly when the other ranges do no harm to it. -/
theorem resolve_eq_iff_harmless (default : MemoryType) (page : List MtrrData)
    (huc : ∀ d ∈ begunBy page a, d.type ≠ memoryTypeUncacheable) :
    resolve default (page.map (·.type)) = lastType default ((begunBy page a).map (·.type)) ↔
      Harmless default (lastType default ((begunBy page a).map (·.type))) a page := by
  by_cases hnew : ∃ d ∈ page, a < d.rangeBegin ∧ d.type = memoryTypeUncacheable
  · obtain ⟨d, hd, hlt, htype⟩ := hnew
    rw [resolve_of_mem (List.mem_map.mpr ⟨d, hd, htype⟩)]
    constructor
    · exact fun h ↦ .inl ⟨⟨d, hd, hlt, htype⟩, h.symm⟩
    · rintro (⟨-, h⟩ | ⟨h, -⟩)
      · exact h.symm
      · exact absurd htype (h d hd hlt)
  · have hnone : ∀ d ∈ page, a < d.rangeBegin → d.type ≠ memoryTypeUncacheable :=
      fun d hd hlt htype ↦ hnew ⟨d, hd, hlt, htype⟩
    have hmem : memoryTypeUncacheable ∉ page.map (·.type) := by
      intro hmem
      obtain ⟨d, hd, htype⟩ := List.mem_map.mp hmem
      by_cases hlt : a < d.rangeBegin
      · exact hnone d hd hlt htype
      · exact huc d (List.mem_filter.mpr ⟨hd, decide_eq_true (BitVec.not_lt.mp hlt)⟩) htype
    rw [resolve_eq_lastType hmem, lastType_eq_iff_undisturbed]
    exact ⟨fun h ↦ .inr ⟨hnone, h⟩, fun h ↦ (h.resolve_left fun hold ↦ hnew hold.1).2⟩

end page

/-- A large page has the type of each of its pages exactly when the region is
`RegionSound`. -/
theorem region_agrees_iff (rax : Nat → BitVec 64) (msrs : Msrs) (a : BitVec 64)
    (ha : a.toNat < 2 ^ 39) (hal : 0x200000 ∣ a.toNat) :
    (eptGetMemoryType (eptInitMtrr rax msrs) a 0x200000 ≠ memoryTypeInvalid →
      ∀ k < 512, eptGetMemoryType (eptInitMtrr rax msrs) (pageAt a k) 0x1000 =
        eptGetMemoryType (eptInitMtrr rax msrs) a 0x200000) ↔
      RegionSound (eptInitMtrr rax msrs) a := by
  rw [RegionSound]
  cases hfind : (ranges (eptInitMtrr rax msrs)).find? (·.Decides a 0x200000) with
  | some d =>
      have hdecides : d.Decides a 0x200000 := by simpa using List.find?_some hfind
      refine iff_of_true (fun hne k hk ↦ ?_)
        (Or.inl ⟨d, List.mem_of_find?_eq_some hfind, hdecides⟩)
      have hfix : ∀ e ∈ activeFixedRanges msrs, ¬ e.Covers a := fun e he hc ↦
        hne (eptGetMemoryType_of_fixed ha he hc)
      rcases decider_cases ha hfind with ⟨-, hinv⟩ | ⟨hv, hc, hend, huc, hlookup⟩
      · exact absurd hinv hne
      · rw [hlookup, eptGetMemoryType_pageAt ha hal hfix hk]
        exact resolve_of_mem
          (mem_typesAt.mpr ⟨d, mem_ranges_of_mem_variableRanges hv, hc.pageAt hend ha hk, huc⟩)
  | none =>
      have hnone : ∀ d ∈ ranges (eptInitMtrr rax msrs), ¬ d.Decides a 0x200000 := by
        simpa using List.find?_eq_none.mp hfind
      have hfix : ∀ e ∈ activeFixedRanges msrs, ¬ e.Covers a := fun e he hc ↦
        hnone e (by rw [ranges_eptInitMtrr]; exact List.mem_append_left _ he)
          ⟨hc, Or.inr (Or.inl (mem_activeFixedRanges he).2)⟩
      have hend : ∀ d ∈ ranges (eptInitMtrr rax msrs), d.Covers a → ¬ d.EndsInside a 0x200000 :=
        fun d hd hc he ↦ hnone d hd ⟨hc, Or.inl he⟩
      have huc : ∀ d ∈ rangesAt (ranges (eptInitMtrr rax msrs)) a,
          d.type ≠ memoryTypeUncacheable := fun d hd htype ↦
        hnone d (List.mem_filter.mp hd).1
          ⟨of_decide_eq_true (List.mem_filter.mp hd).2, Or.inr (Or.inr htype)⟩
      have hstart : resolve (eptInitMtrr rax msrs).defaultMemoryType
          (typesAt (ranges (eptInitMtrr rax msrs)) a) = startType (eptInitMtrr rax msrs) a :=
        resolve_eq_lastType fun hmem ↦ by
          obtain ⟨d, hd, htype⟩ := List.mem_map.mp hmem
          exact huc d hd htype
      -- on each page, the ranges that have begun before it are those at the start
      have hpage {k : Nat} (hk : k < 512) : eptGetMemoryType (eptInitMtrr rax msrs) (pageAt a k)
          0x1000 = startType (eptInitMtrr rax msrs) a ↔
          Harmless (eptInitMtrr rax msrs).defaultMemoryType (startType (eptInitMtrr rax msrs) a) a
            (rangesAt (ranges (eptInitMtrr rax msrs)) (pageAt a k)) := by
        have hbegun := begunBy_rangesAt ha hk hend
        have hiff := resolve_eq_iff_harmless (a := a) (eptInitMtrr rax msrs).defaultMemoryType
          (rangesAt (ranges (eptInitMtrr rax msrs)) (pageAt a k)) (by rw [hbegun]; exact huc)
        rw [hbegun] at hiff
        rw [eptGetMemoryType_pageAt ha hal hfix hk]
        exact hiff
      rw [eptGetMemoryType_of_not_decided hfind, hstart, or_iff_right (by simpa using hnone)]
      constructor
      · intro h
        by_cases hinv : startType (eptInitMtrr rax msrs) a = memoryTypeInvalid
        · exact Or.inl hinv
        · exact Or.inr fun k hk ↦ (hpage hk).mp (h hinv k hk)
      · rintro (h | h) hinv k hk
        · exact absurd h hinv
        · exact (hpage hk).mpr (h k hk)

/-! ## Legal answers -/

theorem LegalTypes.typesAt_variableRanges (h : LegalTypes msrs) (rax : Nat → BitVec 64)
    (x : BitVec 64) : ∀ t ∈ typesAt (variableRanges rax msrs) x, t.Legal :=
  typesAt_legal (fun _ hd ↦ h.of_mem rax (List.mem_append_right _ hd)) x

/-- A lookup gives no type, or one that the registers hold. -/
theorem LegalTypes.lookup (h : LegalTypes msrs) (rax : Nat → BitVec 64) (a size : BitVec 64) :
    eptGetMemoryType (eptInitMtrr rax msrs) a size = memoryTypeInvalid ∨
      (eptGetMemoryType (eptInitMtrr rax msrs) a size).Legal := by
  have hmem : ∀ d ∈ ranges (eptInitMtrr rax msrs), d.type.Legal := fun d hd ↦
    h.of_mem rax (ranges_eptInitMtrr rax msrs ▸ hd)
  rw [eptGetMemoryType_eq]
  cases hfind : (ranges (eptInitMtrr rax msrs)).find? (·.Decides a size) with
  | some d =>
      rw [answer]
      split
      · exact Or.inl rfl
      · exact Or.inr (hmem d (List.mem_of_find?_eq_some hfind))
  | none =>
      exact Or.inr (resolve_legal h.default_legal (typesAt_legal hmem a))

/-- A page always has a type. -/
theorem LegalTypes.page (h : LegalTypes msrs) (rax : Nat → BitVec 64) {p : BitVec 64}
    (hp : 0x1000 ∣ p.toNat) : (eptGetMemoryType (eptInitMtrr rax msrs) p 0x1000).Legal := by
  rw [eptGetMemoryType_eptInitMtrr_page hp]
  cases hfind : (activeFixedRanges msrs).find? (·.Covers p) with
  | some d => exact h.of_mem rax (List.mem_append_left _ (List.mem_of_find?_eq_some hfind))
  | none =>
      exact resolve_legal h.default_legal (h.typesAt_variableRanges rax p)

/-! ## A range in the middle of a large page -/

/-- Write-back memory with an uncacheable range at `[1 MiB, 2 MiB)`. -/
def uncacheableHole : Msrs := fun id ↦
  if id = ia32MtrrCapabilities then 1
  else if id = ia32MtrrDefType then 0x806
  else if id = ia32MtrrPhysbase0 then 0x100000
  else if id = ia32MtrrPhysmask0 then 0xFFFFF00800
  else 0

/-- The first region is mapped write-back by one large page, although its second
half is uncacheable. -/
theorem region_disagrees_uncacheableHole :
    ¬ (eptGetMemoryType (eptInitMtrr (fun _ ↦ 0) uncacheableHole) 0 0x200000 ≠ memoryTypeInvalid →
      ∀ k < 512, eptGetMemoryType (eptInitMtrr (fun _ ↦ 0) uncacheableHole) (pageAt 0 k) 0x1000 =
        eptGetMemoryType (eptInitMtrr (fun _ ↦ 0) uncacheableHole) 0 0x200000) :=
  fun h ↦ absurd (h (by decide +kernel) 256 (by decide)) (by decide +kernel)

/-- The range that begins inside the region is the reason. -/
theorem not_regionSound_uncacheableHole :
    ¬ RegionSound (eptInitMtrr (fun _ ↦ 0) uncacheableHole) 0 := fun h ↦
  absurd ((region_agrees_iff (fun _ ↦ 0) uncacheableHole 0 (by decide) (by decide)).mpr h
    (by decide +kernel) 256 (by decide)) (by decide +kernel)

end Hypervi.Mtrr
