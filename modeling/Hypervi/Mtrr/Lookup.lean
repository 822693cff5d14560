import Mathlib.Data.List.Find
import Hypervi.Mtrr.Precedence
import Hypervi.Mtrr.Table

/-!
# What a lookup returns

`ept_get_memory_type(start, size)` looks at the ranges that contain `start` and
returns early on three occasions: at a range that ends inside
`[start, start + size)`, at a fixed range and at an uncacheable one.
`eptGetMemoryType_eq` says this in two cases: the first range that `Decides`
gives the answer, and if there is none the types of all ranges that contain
`start` are folded.

The rest of the file reads that normal form at the two sizes `ept_init_core`
uses.  A page never contains the end of a range, since ranges end at page
boundaries, so a page lookup is `resolve` behind the fixed ranges
(`eptGetMemoryType_page`).  A 2 MiB lookup can be cut short by an end inside the
region, and does not see the ranges that begin inside it.
-/

namespace Hypervi.Mtrr

open Ia32

/-! ## Normal form of the scan -/

namespace MtrrData

/-- The address lies in the range. -/
def Covers (d : MtrrData) (a : BitVec 64) : Prop := d.rangeBegin ≤ a ∧ a < d.rangeEnd

/-- The range ends before the last of the `size` addresses from `a` on. -/
def EndsInside (d : MtrrData) (a size : BitVec 64) : Prop := d.rangeEnd ≤ a + size - 1

/-- The lookup of `size` addresses from `a` on returns at this range. -/
def Decides (d : MtrrData) (a size : BitVec 64) : Prop :=
  d.Covers a ∧ (d.EndsInside a size ∨ d.fixed = true ∨ d.type = memoryTypeUncacheable)

instance (d : MtrrData) (a : BitVec 64) : Decidable (d.Covers a) :=
  inferInstanceAs (Decidable (_ ∧ _))

instance (d : MtrrData) (a size : BitVec 64) : Decidable (d.EndsInside a size) :=
  inferInstanceAs (Decidable (_ ≤ _))

instance (d : MtrrData) (a size : BitVec 64) : Decidable (d.Decides a size) :=
  inferInstanceAs (Decidable (_ ∧ _))

end MtrrData

/-- The types of the ranges that contain `a`, in table order. -/
def typesAt (rs : List MtrrData) (a : BitVec 64) : List MemoryType :=
  (rs.filter (·.Covers a)).map (·.type)

theorem mem_typesAt {rs : List MtrrData} {a : BitVec 64} {t : MemoryType} :
    t ∈ typesAt rs a ↔ ∃ d ∈ rs, d.Covers a ∧ d.type = t := by
  simp [typesAt, and_assoc]

theorem typesAt_legal {rs : List MtrrData} (h : ∀ d ∈ rs, d.type.Legal) (x : BitVec 64) :
    ∀ t ∈ typesAt rs x, t.Legal := by
  intro t ht
  obtain ⟨d, hd, -, rfl⟩ := mem_typesAt.mp ht
  exact h d hd

theorem typesAt_append (fs vs : List MtrrData) (a : BitVec 64) :
    typesAt (fs ++ vs) a = typesAt fs a ++ typesAt vs a := by simp [typesAt]

theorem typesAt_eq_nil {rs : List MtrrData} {a : BitVec 64} (h : ∀ d ∈ rs, ¬ d.Covers a) :
    typesAt rs a = [] := by
  rw [typesAt, List.map_eq_nil_iff, List.filter_eq_nil_iff]
  simpa using h

/-- The answer of a lookup whose scan is decided by `decider`, and whose fold
over the ranges seen gives `folded`. -/
def answer (start size : BitVec 64) (decider : Option MtrrData) (folded : MemoryType) :
    MemoryType :=
  match decider with
  | some d => if d.EndsInside start size then memoryTypeInvalid else d.type
  | none => folded

theorem scan_eq {start size : BitVec 64} {default : MemoryType} {rs : List MtrrData}
    (hrs : ∀ d ∈ rs, d.enabled = true) (result : MemoryType) :
    scan start size default result rs =
      answer start size (rs.find? (·.Decides start size))
        (settle default ((typesAt rs start).foldl combine result)) := by
  induction rs generalizing result with
  | nil => rfl
  | cons d rs ih =>
      have ih := ih fun e he ↦ hrs e (List.mem_cons_of_mem d he)
      have hd : d.enabled = true := hrs d List.mem_cons_self
      have hcov : (start < d.rangeBegin ∨ start ≥ d.rangeEnd) ↔ ¬ d.Covers start := by
        rw [MtrrData.Covers, not_and_or, BitVec.not_le, BitVec.not_lt]
      have hend : (start + size - 1 ≥ d.rangeEnd) ↔ d.EndsInside start size := Iff.rfl
      rw [scan, if_neg (by simp [hd]), if_congr hcov rfl rfl, if_congr hend rfl rfl]
      by_cases hc : d.Covers start
      · rw [if_neg (not_not_intro hc)]
        by_cases he : d.EndsInside start size
        · rw [if_pos he, List.find?_cons_of_pos (by simp [MtrrData.Decides, hc, he])]
          exact (if_pos he).symm
        · rw [if_neg he]
          by_cases hf : d.fixed = true
          · rw [if_pos hf, List.find?_cons_of_pos (by simp [MtrrData.Decides, hc, hf])]
            exact (if_neg he).symm
          · rw [if_neg hf]
            by_cases hu : d.type = memoryTypeUncacheable
            · rw [if_pos hu, List.find?_cons_of_pos (by simp [MtrrData.Decides, hc, hu])]
              exact hu.symm.trans (if_neg he).symm
            · have htypes : typesAt (d :: rs) start = d.type :: typesAt rs start := by
                simp [typesAt, hc]
              rw [if_neg hu, List.find?_cons_of_neg (by simp [MtrrData.Decides, he, hf, hu]),
                htypes, List.foldl_cons, ih, ih]
              unfold combine
              split
              · rfl
              · split <;> rfl
      · have htypes : typesAt (d :: rs) start = typesAt rs start := by simp [typesAt, hc]
        rw [if_pos hc, List.find?_cons_of_neg (by simp [MtrrData.Decides, hc]), htypes, ih]

/-- The scan stops at the first entry that is not enabled. -/
theorem scan_takeWhile (start size : BitVec 64) (default result : MemoryType)
    (rs : List MtrrData) :
    scan start size default result rs =
      scan start size default result (rs.takeWhile (·.enabled)) := by
  induction rs generalizing result with
  | nil => rfl
  | cons d rs ih =>
      by_cases hd : d.enabled = true
      · rw [List.takeWhile_cons_of_pos hd]
        simp only [scan, ← ih]
      · rw [List.takeWhile_cons_of_neg hd]
        simp [scan, hd]

/-- A lookup is answered by the first range that decides it, and by the types of
the ranges that contain its start when no range does. -/
theorem eptGetMemoryType_eq (g : Globals) (start size : BitVec 64) :
    eptGetMemoryType g start size =
      answer start size ((ranges g).find? (·.Decides start size))
        (resolve g.defaultMemoryType (typesAt (ranges g) start)) := by
  have henabled : ∀ d ∈ ranges g, d.enabled = true := fun d hd ↦ enabled_of_mem_ranges hd
  rw [eptGetMemoryType, scan_takeWhile, ← ranges, scan_eq henabled]
  cases h : (ranges g).find? (·.Decides start size) with
  | some d => rfl
  | none =>
      have huc : memoryTypeUncacheable ∉ typesAt (ranges g) start := by
        intro hmem
        obtain ⟨d, hd, hc, huc⟩ := mem_typesAt.mp hmem
        exact List.find?_eq_none.mp h d hd (by simp [MtrrData.Decides, hc, huc])
      exact (if_neg huc).symm

theorem eptGetMemoryType_of_not_decided {g : Globals} {start size : BitVec 64}
    (h : (ranges g).find? (·.Decides start size) = none) :
    eptGetMemoryType g start size = resolve g.defaultMemoryType (typesAt (ranges g) start) := by
  rw [eptGetMemoryType_eq, h, answer]

/-! ## Pages and regions -/

/-- The `k`-th page of the 2 MiB region at `a`. -/
def pageAt (a : BitVec 64) (k : Nat) : BitVec 64 := a + BitVec.ofNat 64 (k * 0x1000)

theorem toNat_pageAt {a : BitVec 64} {k : Nat} (ha : a.toNat < 2 ^ 39) (hk : k < 512) :
    (pageAt a k).toNat = a.toNat + k * 0x1000 := by
  rw [pageAt, BitVec.toNat_add, BitVec.toNat_ofNat]
  omega

namespace MtrrData

variable {d : MtrrData} {a p : BitVec 64}

theorem covers_iff :
    d.Covers a ↔ d.rangeBegin.toNat ≤ a.toNat ∧ a.toNat < d.rangeEnd.toNat := by
  rw [Covers, BitVec.le_def, BitVec.lt_def]

/-- Ranges end at page boundaries, so that none ends inside a page it contains. -/
theorem WellFormed.not_endsInside_page (h : d.WellFormed) (hp : 0x1000 ∣ p.toNat)
    (hc : d.Covers p) : ¬ d.EndsInside p 0x1000 := by
  obtain ⟨-, hlt⟩ := covers_iff.mp hc
  obtain ⟨k, hk⟩ := hp
  obtain ⟨e, he⟩ := h.dvd_end
  have hend := h.end_le
  have hadd : (p + 0x1000 - 1 : BitVec 64).toNat = p.toNat + 0xFFF := by
    rw [BitVec.toNat_sub, BitVec.toNat_add]
    simp
    omega
  rw [EndsInside, BitVec.le_def, hadd]
  omega

theorem endsInside_region_iff (ha : a.toNat < 2 ^ 39) :
    d.EndsInside a 0x200000 ↔ d.rangeEnd.toNat < a.toNat + 0x200000 := by
  have hadd : (a + 0x200000 - 1 : BitVec 64).toNat = a.toNat + 0x1FFFFF := by
    rw [BitVec.toNat_sub, BitVec.toNat_add]
    simp
    omega
  rw [EndsInside, BitVec.le_def, hadd]
  omega

/-- A fixed range is too short to contain a 2 MiB region. -/
theorem WellFormed.fixed_endsInside (h : d.WellFormed) (hf : d.fixed = true)
    (ha : a.toNat < 2 ^ 39) (hc : d.Covers a) : d.EndsInside a 0x200000 := by
  have hle := h.fixed_le hf
  obtain ⟨hb, -⟩ := covers_iff.mp hc
  rw [endsInside_region_iff ha]
  omega

/-- A range that contains the start of a region and does not end inside it
contains the whole region. -/
theorem Covers.pageAt (hc : d.Covers a) (he : ¬ d.EndsInside a 0x200000)
    (ha : a.toNat < 2 ^ 39) {k : Nat} (hk : k < 512) : d.Covers (pageAt a k) := by
  rw [endsInside_region_iff ha] at he
  rw [covers_iff] at hc ⊢
  rw [toNat_pageAt ha hk]
  omega

/-- A range that contains a page of a region and not the start of the region
begins inside the region. -/
theorem Covers.of_pageAt (ha : a.toNat < 2 ^ 39) {k : Nat} (hk : k < 512)
    (hc : d.Covers (Mtrr.pageAt a k)) (hb : ¬ a < d.rangeBegin) : d.Covers a := by
  rw [BitVec.lt_def] at hb
  rw [covers_iff, toNat_pageAt ha hk] at hc
  rw [covers_iff]
  omega

end MtrrData

/-! ## Page lookups -/

/-- A page lookup: the first fixed range that contains the page, and otherwise
`resolve` over the types of all ranges that do. -/
theorem eptGetMemoryType_page {g : Globals} {fs vs : List MtrrData} (hg : ranges g = fs ++ vs)
    (hwf : ∀ d ∈ ranges g, d.WellFormed) (hfs : ∀ d ∈ fs, d.fixed = true)
    (hvs : ∀ d ∈ vs, d.fixed = false) {p : BitVec 64} (hp : 0x1000 ∣ p.toNat) :
    eptGetMemoryType g p 0x1000 =
      match fs.find? (·.Covers p) with
      | some d => d.type
      | none => resolve g.defaultMemoryType (typesAt vs p) := by
  have hend : ∀ d ∈ ranges g, d.Covers p → ¬ d.EndsInside p 0x1000 := fun d hd hc ↦
    (hwf d hd).not_endsInside_page hp hc
  have hfind : fs.find? (·.Decides p 0x1000) = fs.find? (·.Covers p) :=
    List.find?_congr fun d hd ↦ by simp [MtrrData.Decides, hfs d hd]
  rw [eptGetMemoryType_eq, hg, List.find?_append, hfind]
  cases hf : fs.find? (·.Covers p) with
  | some d =>
      have hmem : d ∈ ranges g := hg ▸ List.mem_append_left vs (List.mem_of_find?_eq_some hf)
      have hc : d.Covers p := by simpa using List.find?_some hf
      exact if_neg (hend d hmem hc)
  | none =>
      have hnone : ∀ d ∈ fs, ¬ d.Covers p := by simpa using hf
      rw [Option.none_or, typesAt_append, typesAt_eq_nil hnone, List.nil_append]
      cases hv : vs.find? (·.Decides p 0x1000) with
      | some d =>
          have hmem := List.mem_of_find?_eq_some hv
          obtain ⟨hc, hdec⟩ : d.Decides p 0x1000 := by simpa using List.find?_some hv
          have he := hend d (hg ▸ List.mem_append_right fs hmem) hc
          have huc : d.type = memoryTypeUncacheable :=
            (hdec.resolve_left he).resolve_left (by simp [hvs d hmem])
          rw [resolve_of_mem (mem_typesAt.mpr ⟨d, hmem, hc, huc⟩)]
          exact (if_neg he).trans huc
      | none => rfl

end Hypervi.Mtrr
