import Hypervi.Ept.Failure

/-!
# The translation that `ept_init_core` sets up

Below 512 GiB the walk succeeds for every address, and nothing is mapped from there on
(`mapsTo_iff`).  Pages are mapped to themselves, and the 2 MiB region with the number
`r` to the start of the gibibyte with the number `r`.

So the guest reaches the memory that is split into pages, and the first 2 MiB of each gibibyte
whose number is that of a region which is not (`reaches_iff`).  Where both are the same memory
the guest has it twice (`injective_iff`).
-/

namespace Hypervi.Ept

open Bits Ia32 Memory Mtrr Freestanding

/-! ## Regions -/

/-- The 2 MiB region with the number `r` is split into pages. -/
def SplitRegion (g : Globals) (r : Nat) : Prop := Split g (r / 512) (r % 512)

instance (g : Globals) (r : Nat) : Decidable (SplitRegion g r) :=
  inferInstanceAs (Decidable (Split _ _ _))

/-- The number of the region of an address. -/
def regionOf (a : BitVec 64) : Nat := a.toNat / 2 ^ 21

/-- The address that a guest address is mapped to. -/
def hostAddress (g : Globals) (a : BitVec 64) : BitVec 64 :=
  if SplitRegion g (regionOf a) then a
  else BitVec.ofNat 64 (regionOf a * 2 ^ 30 + a.toNat % 2 ^ 21)

theorem splitRegion_iff {g : Globals} {a : BitVec 64} (ha : a.toNat < 2 ^ 39) :
    SplitRegion g (regionOf a) ↔ Split g (pdptIndex a) (pdIndex a) := by
  have hpdpt : regionOf a / 512 = pdptIndex a := by
    rw [regionOf, pdptIndex]
    omega
  have hpd : regionOf a % 512 = pdIndex a := rfl
  rw [SplitRegion, hpdpt, hpd]

/-- The frame of a large page. -/
theorem largeFrame_eq (a : BitVec 64) :
    (regionStart a <<< 9) + Field.get ⟨0, 21⟩ a =
      BitVec.ofNat 64 (regionOf a * 2 ^ 30 + a.toNat % 2 ^ 21) := by
  apply BitVec.eq_of_toNat_eq
  rw [BitVec.toNat_add, BitVec.toNat_shiftLeft, Field.toNat_get_low, toNat_regionStart,
    Nat.shiftLeft_eq, BitVec.toNat_ofNat, regionOf]
  omega

theorem toNat_hostAddress_of_split {g : Globals} {a : BitVec 64}
    (h : SplitRegion g (regionOf a)) : (hostAddress g a).toNat = a.toNat := by
  rw [hostAddress, if_pos h]

theorem toNat_hostAddress_of_not_split {g : Globals} {a : BitVec 64} (ha : a.toNat < 2 ^ 39)
    (h : ¬ SplitRegion g (regionOf a)) :
    (hostAddress g a).toNat = a.toNat / 2 ^ 21 * 2 ^ 30 + a.toNat % 2 ^ 21 := by
  rw [hostAddress, if_neg h, BitVec.toNat_ofNat, regionOf]
  omega

/-! ## The walk -/

section walk

variable {alloc : Nat → BitVec 64} {msrs : Msrs} {a : BitVec 64} {mem : Mem}

/-- A walk that finds a page, through entries that allow every access. -/
def MapsTo (s : EptState) (a h : BitVec 64) : Prop :=
  ∃ t, eptWalk s.mem s.ptr a = some t ∧ (∀ e ∈ t.path, AllowsAll e) ∧ t.hpa = h

theorem mapsTo_eptInitCore (hl : LegalTypes msrs) (rax : Nat → BitVec 64)
    (hp : Pages alloc (eptInitCore alloc (eptInitMtrr rax msrs) mem).calls)
    (ha : a.toNat < 2 ^ 39) :
    MapsTo (eptInitCore alloc (eptInitMtrr rax msrs) mem) a
      (hostAddress (eptInitMtrr rax msrs) a) := by
  have hb := built_eptInitCore mem hp
  by_cases hs : Split (eptInitMtrr rax msrs) (pdptIndex a) (pdIndex a)
  · obtain ⟨t, hwalk, -, hall, hhpa⟩ := hb.identityMapped_of_split hp ha hs
      (legal_pageStart hl rax a)
    rw [hostAddress, if_pos ((splitRegion_iff ha).mpr hs)]
    exact ⟨t, hwalk, hall, hhpa⟩
  · have hne := fun h ↦ hs ((split_iff ha).mpr h)
    have hwalk := hb.eptWalk_of_not_split hp ha hs
      ((hl.lookup rax (regionStart a) 0x200000).resolve_left hne)
    rw [hostAddress, if_neg (fun h ↦ hs ((splitRegion_iff ha).mp h)), ← largeFrame_eq]
    refine ⟨_, hwalk, fun e he ↦ ?_, rfl⟩
    simp only [List.mem_cons, List.not_mem_nil, or_false] at he
    rcases he with rfl | rfl | rfl
    · exact allowsAll_tableEntry _
    · exact allowsAll_tableEntry _
    · exact allowsAll_largeEntry _ _

/-- The other entries of the PML4 are not present. -/
theorem eptWalk_eq_none (g : Globals) (hp : Pages alloc (eptInitCore alloc g mem).calls)
    (ha : a.toNat / 2 ^ 39 % 512 ≠ 0) :
    eptWalk (eptInitCore alloc g mem).mem (eptInitCore alloc g mem).ptr a = none := by
  have hb := built_eptInitCore (g := g) mem hp
  have hempty := entry_pml4_eptInitCore mem hp (Nat.mod_lt (a.toNat / 2 ^ 39) (by decide)) ha
  have h0 := Nat.lt_of_lt_of_le Nat.two_pos hb.calls
  have hunusable : usable [⟨3, 5⟩, reservedAddress] 0 = false := by decide
  have htable := tableOf_eptPointer (hp.aligned 0 h0) (hp.lt 0 h0)
  simp only [eptWalk, hb.ptr, pageWalkLength_eptPointer, htable, hempty, hunusable, ne_eq,
    not_true_eq_false, if_false, Bool.not_false, if_true]

/-- **The translation.**  An address below 512 GiB is mapped to its host address, with every
access allowed, and no address above is mapped. -/
theorem mapsTo_iff (hl : LegalTypes msrs) (rax : Nat → BitVec 64)
    (hp : Pages alloc (eptInitCore alloc (eptInitMtrr rax msrs) mem).calls)
    (ha : a.toNat < 2 ^ 48) (h : BitVec 64) :
    MapsTo (eptInitCore alloc (eptInitMtrr rax msrs) mem) a h ↔
      a.toNat < 2 ^ 39 ∧ h = hostAddress (eptInitMtrr rax msrs) a := by
  constructor
  · rintro ⟨t, hwalk, -, rfl⟩
    by_cases hlow : a.toNat < 2 ^ 39
    · obtain ⟨u, hwalk', -, hhpa⟩ := mapsTo_eptInitCore hl rax hp hlow
      obtain rfl : t = u := Option.some.inj (hwalk.symm.trans hwalk')
      exact ⟨hlow, hhpa⟩
    · rw [eptWalk_eq_none _ hp (by omega)] at hwalk
      exact absurd hwalk (by simp)
  · rintro ⟨hlow, rfl⟩
    exact mapsTo_eptInitCore hl rax hp hlow

/-- Memory that the guest reaches from some address. -/
def Reaches (s : EptState) (h : BitVec 64) : Prop := ∃ a, a.toNat < 2 ^ 48 ∧ MapsTo s a h

/-- **What the guest reaches.**  The memory that is split into pages, and the first 2 MiB of a
gibibyte when the region with its number is not split. -/
theorem reaches_iff (hl : LegalTypes msrs) (rax : Nat → BitVec 64)
    (hp : Pages alloc (eptInitCore alloc (eptInitMtrr rax msrs) mem).calls) (h : BitVec 64) :
    Reaches (eptInitCore alloc (eptInitMtrr rax msrs) mem) h ↔
      (h.toNat < 2 ^ 39 ∧ SplitRegion (eptInitMtrr rax msrs) (regionOf h)) ∨
      (h.toNat < 2 ^ 48 ∧ h.toNat % 2 ^ 30 < 2 ^ 21 ∧
        ¬ SplitRegion (eptInitMtrr rax msrs) (h.toNat / 2 ^ 30)) := by
  constructor
  · rintro ⟨a, ha, hmaps⟩
    obtain ⟨hlow, rfl⟩ := (mapsTo_iff hl rax hp ha h).mp hmaps
    by_cases hs : SplitRegion (eptInitMtrr rax msrs) (regionOf a)
    · rw [hostAddress, if_pos hs]
      exact .inl ⟨hlow, hs⟩
    · have hhost := toNat_hostAddress_of_not_split hlow hs
      have hnumber : (hostAddress (eptInitMtrr rax msrs) a).toNat / 2 ^ 30 = regionOf a := by
        rw [hhost, regionOf]
        omega
      rw [hnumber]
      exact .inr ⟨by omega, by omega, hs⟩
  · rintro (⟨hlow, hs⟩ | ⟨hlt, hfirst, hs⟩)
    · refine ⟨h, by omega, (mapsTo_iff hl rax hp (by omega) h).mpr ⟨hlow, ?_⟩⟩
      rw [hostAddress, if_pos hs]
    · -- the address with the same offset in the region
      obtain ⟨a, hat⟩ : ∃ a : BitVec 64,
          a.toNat = h.toNat / 2 ^ 30 * 2 ^ 21 + h.toNat % 2 ^ 30 :=
        ⟨BitVec.ofNat 64 (h.toNat / 2 ^ 30 * 2 ^ 21 + h.toNat % 2 ^ 30), by
          rw [BitVec.toNat_ofNat]
          omega⟩
      have hregion : regionOf a = h.toNat / 2 ^ 30 := by
        rw [regionOf, hat]
        omega
      have hlow : a.toNat < 2 ^ 39 := by omega
      refine ⟨a, by omega, (mapsTo_iff hl rax hp (by omega) h).mpr ⟨hlow, ?_⟩⟩
      apply BitVec.eq_of_toNat_eq
      rw [toNat_hostAddress_of_not_split hlow (by rw [hregion]; exact hs)]
      omega

theorem not_reaches_writeBackOnly :
    ¬ Reaches (eptInitCore consecutivePages (eptInitMtrr (fun _ ↦ 0) writeBackOnly) fun _ ↦ 0)
      0x200000 := by
  have hp := pages_eptInitCore (eptInitMtrr (fun _ ↦ 0) writeBackOnly) fun _ ↦ 0
  rw [reaches_iff legalTypes_writeBackOnly (fun _ ↦ 0) hp]
  decide +kernel

/-- A region that is not split onto one that is, when no region below 1 GiB is. -/
theorem not_collision {g : Globals} {a a' : BitVec 64} (hs : ¬ SplitRegion g (regionOf a))
    (hs' : SplitRegion g (regionOf a')) (ha' : a'.toNat < 2 ^ 39)
    (heq : a'.toNat = a.toNat / 2 ^ 21 * 2 ^ 30 + a.toNat % 2 ^ 21) :
    ¬ ∀ r, 0 < r → r < 512 → SplitRegion g r ∨ ¬ SplitRegion g (512 * r) := by
  have hregion : regionOf a' = 512 * regionOf a := by
    rw [regionOf, regionOf]
    omega
  have hlt : regionOf a < 512 := by
    rw [regionOf]
    omega
  rw [hregion] at hs'
  rcases Nat.eq_zero_or_pos (regionOf a) with hzero | hpos
  · rw [hzero] at hs hs'
    exact absurd hs' hs
  · intro h
    exact (h _ hpos hlt).elim hs fun hn ↦ hn hs'

/-- No two addresses of the guest are mapped to the same memory. -/
structure OneToOne (s : EptState) : Prop where
  eq_of_mapsTo : ∀ a a' h : BitVec 64, a.toNat < 2 ^ 48 → a'.toNat < 2 ^ 48 →
    MapsTo s a h → MapsTo s a' h → a = a'

/-- **Memory that the guest has twice.**  The mapping is one to one exactly when there is no
region, among those from 2 MiB to 1 GiB, that is not split while the one it is mapped onto is. -/
theorem injective_iff (hl : LegalTypes msrs) (rax : Nat → BitVec 64)
    (hp : Pages alloc (eptInitCore alloc (eptInitMtrr rax msrs) mem).calls) :
    OneToOne (eptInitCore alloc (eptInitMtrr rax msrs) mem) ↔
      ∀ r, 0 < r → r < 512 → SplitRegion (eptInitMtrr rax msrs) r ∨
        ¬ SplitRegion (eptInitMtrr rax msrs) (512 * r) := by
  constructor
  · intro hinj r hpos hlt
    by_contra hboth
    obtain ⟨hlarge, hsplit⟩ := not_or.mp hboth
    rw [not_not] at hsplit
    -- the start of the region and the start of the gibibyte
    obtain ⟨a, hat⟩ : ∃ a : BitVec 64, a.toNat = r * 2 ^ 21 :=
      ⟨BitVec.ofNat 64 (r * 2 ^ 21), by rw [BitVec.toNat_ofNat]; omega⟩
    obtain ⟨a', hat'⟩ : ∃ a : BitVec 64, a.toNat = r * 2 ^ 30 :=
      ⟨BitVec.ofNat 64 (r * 2 ^ 30), by rw [BitVec.toNat_ofNat]; omega⟩
    have hregion : regionOf a = r := by
      rw [regionOf, hat]
      omega
    have hregion' : regionOf a' = 512 * r := by
      rw [regionOf, hat']
      omega
    rw [← hregion] at hlarge
    rw [← hregion'] at hsplit
    have htoNat := toNat_hostAddress_of_not_split (a := a) (by omega) hlarge
    have hhost : a' = hostAddress (eptInitMtrr rax msrs) a :=
      BitVec.eq_of_toNat_eq (by omega)
    have hhost' : a' = hostAddress (eptInitMtrr rax msrs) a' := by
      rw [hostAddress, if_pos hsplit]
    have heq := hinj.eq_of_mapsTo a a' a' (by omega) (by omega)
      ((mapsTo_iff hl rax hp (by omega) a').mpr ⟨by omega, hhost⟩)
      ((mapsTo_iff hl rax hp (by omega) a').mpr ⟨by omega, hhost'⟩)
    rw [heq, hat'] at hat
    omega
  · refine fun hregions ↦ ⟨?_⟩
    intro a a' h ha ha' hmaps hmaps'
    obtain ⟨hlow, rfl⟩ := (mapsTo_iff hl rax hp ha h).mp hmaps
    obtain ⟨hlow', hsame⟩ := (mapsTo_iff hl rax hp ha' _).mp hmaps'
    have htoNat := congrArg BitVec.toNat hsame
    apply BitVec.eq_of_toNat_eq
    by_cases hs : SplitRegion (eptInitMtrr rax msrs) (regionOf a)
    · by_cases hs' : SplitRegion (eptInitMtrr rax msrs) (regionOf a')
      · rwa [toNat_hostAddress_of_split hs, toNat_hostAddress_of_split hs'] at htoNat
      · rw [toNat_hostAddress_of_split hs, toNat_hostAddress_of_not_split hlow' hs'] at htoNat
        exact absurd hregions (not_collision hs' hs hlow htoNat)
    · by_cases hs' : SplitRegion (eptInitMtrr rax msrs) (regionOf a')
      · rw [toNat_hostAddress_of_not_split hlow hs, toNat_hostAddress_of_split hs'] at htoNat
        exact absurd hregions (not_collision hs hs' hlow' htoNat.symm)
      · rw [toNat_hostAddress_of_not_split hlow hs, toNat_hostAddress_of_not_split hlow' hs']
          at htoNat
        omega

theorem injective_writeBackOnly :
    OneToOne (eptInitCore consecutivePages (eptInitMtrr (fun _ ↦ 0) writeBackOnly) fun _ ↦ 0) :=
  (injective_iff legalTypes_writeBackOnly (fun _ ↦ 0)
    (pages_eptInitCore (eptInitMtrr (fun _ ↦ 0) writeBackOnly) fun _ ↦ 0)).mpr
    fun r hpos hlt ↦ by
      have h : ∀ r < 512, 0 < r → SplitRegion (eptInitMtrr (fun _ ↦ 0) writeBackOnly) r ∨
          ¬ SplitRegion (eptInitMtrr (fun _ ↦ 0) writeBackOnly) (512 * r) := by decide +kernel
      exact h r hlt hpos

end walk

end Hypervi.Ept
