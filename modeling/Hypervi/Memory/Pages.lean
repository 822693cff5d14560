import Hypervi.Control
import Hypervi.Memory.Byte

/-!
# Tables in pages handed out by an allocator

An allocator is the sequence of the pages it returns: `alloc n` is the result of
its `n`-th call.  `Pages alloc n` says that the first `n` results are usable as
tables, pages of 4 KiB that do not overlap.  A page then holds 512 entries of
64 bits; `entry_store_self` and `Pages.entry_store_of_ne` read an entry back after
a write to it, or to any other entry of any page.

A program that builds linked tables is followed with `Untouched`: between two
states, the entries of the pages allocated so far have changed at most where the
program was entitled to write.  Pages are named by the number of the call that
returned them, so that "another page" is an inequality of numbers.
-/

namespace Hypervi.Memory

/-- The address of the `k`-th entry of the table at `page`. -/
def entryAt (page : BitVec 64) (k : Nat) : BitVec 64 := page + BitVec.ofNat 64 (8 * k)

/-- The contents of the `k`-th entry of the table at `page`. -/
def entry (m : Mem) (page : BitVec 64) (k : Nat) : BitVec 64 := load64 m (entryAt page k)

@[simp] theorem entryAt_zero (page : BitVec 64) : entryAt page 0 = page := by simp [entryAt]

/-- The results of the first `n` calls are aligned pages of 4 KiB below `2 ^ 48`,
not null, and no two of them overlap. -/
structure Pages (alloc : Nat → BitVec 64) (n : Nat) : Prop where
  aligned : ∀ i < n, 0x1000 ∣ (alloc i).toNat
  ne_null : ∀ i < n, alloc i ≠ 0
  lt : ∀ i < n, (alloc i).toNat < 2 ^ 48
  disjoint : ∀ i < n, ∀ j < n, i ≠ j → Apart (alloc i) 0x1000 (alloc j) 0x1000

theorem toNat_entryAt {page : BitVec 64} (hp : page.toNat < 2 ^ 48) {k : Nat} (hk : k < 512) :
    (entryAt page k).toNat = page.toNat + 8 * k := by
  rw [entryAt, BitVec.toNat_add, BitVec.toNat_ofNat]
  omega

@[simp] theorem entry_store_self (m : Mem) (page : BitVec 64) (k : Nat) (v : BitVec 64) :
    entry (store64 m (entryAt page k) v) page k = v := load_store_self (by decide) _ _ _

/-- A page that has been cleared holds zero entries. -/
theorem entry_memset_self (m : Mem) (page : BitVec 64) {k : Nat} (hk : k < 512) :
    entry (memset m page 0 0x1000) page k = 0 :=
  member_memset_zero (by omega) (by decide)

namespace Pages

variable {alloc : Nat → BitVec 64} {n : Nat}

theorem mono (h : Pages alloc n) {k : Nat} (hk : k ≤ n) : Pages alloc k where
  aligned i hi := h.aligned i (Nat.lt_of_lt_of_le hi hk)
  ne_null i hi := h.ne_null i (Nat.lt_of_lt_of_le hi hk)
  lt i hi := h.lt i (Nat.lt_of_lt_of_le hi hk)
  disjoint i hi j hj := h.disjoint i (Nat.lt_of_lt_of_le hi hk) j (Nat.lt_of_lt_of_le hj hk)

/-- A page is not page 0. -/
theorem le_toNat (h : Pages alloc n) {i : Nat} (hi : i < n) : 0x1000 ≤ (alloc i).toNat := by
  have hne : (alloc i).toNat ≠ 0 := fun h0 ↦ h.ne_null i hi (BitVec.eq_of_toNat_eq h0)
  exact Nat.le_of_dvd (Nat.pos_of_ne_zero hne) (h.aligned i hi)

/-- Two pages that do not overlap, compared as numbers. -/
theorem le_or_le (h : Pages alloc n) {i j : Nat} (hi : i < n) (hj : j < n) (hij : i ≠ j) :
    (alloc i).toNat + 0x1000 ≤ (alloc j).toNat ∨ (alloc j).toNat + 0x1000 ≤ (alloc i).toNat := by
  obtain ⟨h₁, h₂⟩ := h.disjoint i hi j hj hij
  rw [BitVec.toNat_sub] at h₁ h₂
  have := h.lt i hi
  have := h.lt j hj
  omega

theorem apart_entries (h : Pages alloc n) {i j k l : Nat} (hi : i < n) (hj : j < n)
    (hk : k < 512) (hl : l < 512) (hne : i ≠ j ∨ k ≠ l) :
    Apart (entryAt (alloc i) k) 8 (entryAt (alloc j) l) 8 := by
  have hi' := toNat_entryAt (h.lt i hi) hk
  have hj' := toNat_entryAt (h.lt j hj) hl
  have hil := h.lt i hi
  have hjl := h.lt j hj
  refine apart_of_le (by omega) (by omega) (by decide) (by decide) ?_
  by_cases hij : i = j
  · subst hij
    have := hne.resolve_left fun h ↦ h rfl
    omega
  · have := h.le_or_le hi hj hij
    omega

/-- A write to one entry leaves every other entry of every page alone. -/
theorem entry_store_of_ne (h : Pages alloc n) {i j k l : Nat} (hi : i < n) (hj : j < n)
    (hk : k < 512) (hl : l < 512) (hne : i ≠ j ∨ k ≠ l) (m : Mem) (v : BitVec 64) :
    entry (store64 m (entryAt (alloc i) k) v) (alloc j) l = entry m (alloc j) l :=
  load_store_of_apart (h.apart_entries hi hj hk hl hne)

/-- Clearing one page leaves the entries of the others alone. -/
theorem entry_memset_of_ne (h : Pages alloc n) {i j l : Nat} (hi : i < n) (hj : j < n)
    (hl : l < 512) (hij : i ≠ j) (m : Mem) :
    entry (memset m (alloc i) 0 0x1000) (alloc j) l = entry m (alloc j) l := by
  have hj' := toNat_entryAt (h.lt j hj) hl
  have hil := h.lt i hi
  have hjl := h.lt j hj
  have hor := h.le_or_le hi hj hij
  exact load_memset_of_apart
    (apart_of_le (by omega) (by omega) (by decide) (by decide) (by omega))

end Pages

/-! ## What a program leaves alone -/

/-- From `m` to `m'` no entry of the first `n` pages has changed but for those the
program may write. -/
def Untouched (alloc : Nat → BitVec 64) (n : Nat) (mayWrite : Nat → Nat → Prop) (m m' : Mem) :
    Prop :=
  ∀ i < n, ∀ k < 512, ¬ mayWrite i k → entry m' (alloc i) k = entry m (alloc i) k

namespace Untouched

variable {alloc : Nat → BitVec 64} {n : Nat} {W W' : Nat → Nat → Prop} {m m' m'' : Mem}

theorem refl (alloc : Nat → BitVec 64) (n : Nat) (W : Nat → Nat → Prop) (m : Mem) :
    Untouched alloc n W m m := fun _ _ _ _ _ ↦ rfl

/-- Two stretches of a program, where the second one may know of more pages. -/
theorem trans {n' : Nat} (h : Untouched alloc n W m m') (h' : Untouched alloc n' W' m' m'')
    (hn : n ≤ n') (hW : ∀ i < n, ∀ k < 512, W' i k → W i k) : Untouched alloc n W m m'' :=
  fun i hi k hk hw ↦
    (h' i (Nat.lt_of_lt_of_le hi hn) k hk fun hw' ↦ hw (hW i hi k hk hw')).trans (h i hi k hk hw)

theorem mono {n' : Nat} (h : Untouched alloc n W m m') (hn : n' ≤ n)
    (hW : ∀ i < n', ∀ k < 512, W i k → W' i k) : Untouched alloc n' W' m m' :=
  fun i hi k hk hw ↦ h i (Nat.lt_of_lt_of_le hi hn) k hk fun hw' ↦ hw (hW i hi k hk hw')

/-- A write to one entry. -/
theorem store (h : Pages alloc n) {i k : Nat} (hi : i < n) (hk : k < 512) (m : Mem)
    (v : BitVec 64) :
    Untouched alloc n (fun j l ↦ j = i ∧ l = k) m (store64 m (entryAt (alloc i) k) v) :=
  fun j hj l hl hne ↦ h.entry_store_of_ne hi hj hk hl
    (by by_cases hij : i = j
        · exact Or.inr fun hkl ↦ hne ⟨hij.symm, hkl.symm⟩
        · exact Or.inl hij) m v

/-- A page that is new to the first `n` is cleared. -/
theorem memset (h : Pages alloc (n + 1)) (m : Mem) (W : Nat → Nat → Prop) :
    Untouched alloc n W m (Memory.memset m (alloc n) 0 0x1000) :=
  fun _ hj _ hl _ ↦ h.entry_memset_of_ne (Nat.lt_succ_self n) (Nat.lt_succ_of_lt hj) hl
    (Nat.ne_of_gt hj) m

end Untouched

/-! ## Filling a table -/

/-- Writing the entries of one table in order leaves every other page alone. -/
theorem forRange_store {alloc : Nat → BitVec 64} {n : Nat} (h : Pages alloc n) {i : Nat}
    (hi : i < n) (f : Nat → BitVec 64) (m : Mem) :
    Untouched alloc n (fun j _ ↦ j = i) m
        (forRange 512 (fun k m ↦ store64 m (entryAt (alloc i) k) (f k)) m) ∧
      ∀ k < 512,
        entry (forRange 512 (fun k m ↦ store64 m (entryAt (alloc i) k) (f k)) m) (alloc i) k =
          f k := by
  refine forRange_induction
    (P := fun k m' ↦ Untouched alloc n (fun j _ ↦ j = i) m m' ∧ ∀ l < k, entry m' (alloc i) l = f l)
    ⟨Untouched.refl _ _ _ _, fun l hl ↦ absurd hl (Nat.not_lt_zero l)⟩ ?_
  rintro k hk m' ⟨hu, hf⟩
  refine ⟨hu.trans (Untouched.store h hi hk m' (f k)) (Nat.le_refl n) fun _ _ _ _ hw ↦ hw.1, ?_⟩
  intro l hl
  rcases Nat.lt_succ_iff_lt_or_eq.mp hl with hlt | rfl
  · rw [h.entry_store_of_ne hi hi hk (Nat.lt_trans hlt hk) (Or.inr (Nat.ne_of_gt hlt))]
    exact hf l hlt
  · exact entry_store_self m' (alloc i) l (f l)

end Hypervi.Memory
