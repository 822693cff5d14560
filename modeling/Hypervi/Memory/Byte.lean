import Mathlib.Algebra.GroupWithZero.Nat
import Mathlib.Tactic.Common

/-!
# Byte-addressed memory

Memory is a map from 64-bit addresses to bytes.  `load n m a` is the
little-endian word made of the `n` bytes from `a` on, `store n m a v` writes one
back, and `memset` fills a run of bytes.  Addresses wrap around, as pointer
arithmetic on a 64-bit machine does, so that two runs of bytes are kept apart by
`Apart` rather than by an order on addresses.

The rules a program proof uses are `load_store_self`, `load_store_of_apart` and
`load_memset_of_apart`; `apart_of_le` gives `Apart` for addresses that do not wrap.
-/

namespace Hypervi.Memory

/-- The contents of memory: one byte for each address. -/
abbrev Mem := BitVec 64 → BitVec 8

/-- The little-endian number in the `n` bytes from `a` on. -/
def loadNat (m : Mem) : Nat → BitVec 64 → Nat
  | 0, _ => 0
  | n + 1, a => 2 ^ 8 * loadNat m n (a + 1) + (m a).toNat

/-- Read the little-endian word of `n` bytes at `a`. -/
def load (n : Nat) (m : Mem) (a : BitVec 64) : BitVec (8 * n) :=
  BitVec.ofNat (8 * n) (loadNat m n a)

/-- Write the little-endian word `v` of `n` bytes at `a`. -/
def store (n : Nat) (m : Mem) (a : BitVec 64) (v : BitVec (8 * n)) : Mem := fun x =>
  if (x - a).toNat < n then v.extractLsb' (8 * (x - a).toNat) 8 else m x

/-- Fill the `n` bytes from `a` on with `c`. -/
def memset (m : Mem) (a : BitVec 64) (c : BitVec 8) (n : Nat) : Mem := fun x =>
  if (x - a).toNat < n then c else m x

/-- Copy the `n` bytes from `src` on to those from `dst` on. -/
def memcpy (m : Mem) (dst src : BitVec 64) (n : Nat) : Mem := fun x =>
  if (x - dst).toNat < n then m (src + (x - dst)) else m x

/-- Read a `u32`. -/
abbrev load32 (m : Mem) (a : BitVec 64) : BitVec 32 := load 4 m a

/-- Read a `u64`. -/
abbrev load64 (m : Mem) (a : BitVec 64) : BitVec 64 := load 8 m a

/-- Write a `u64`. -/
abbrev store64 (m : Mem) (a : BitVec 64) (v : BitVec 64) : Mem := store 8 m a v

/-- The `n` bytes from `a` on and the `k` bytes from `b` on have no address in
common, on the ring of 64-bit addresses. -/
def Apart (a : BitVec 64) (n : Nat) (b : BitVec 64) (k : Nat) : Prop :=
  n ≤ (b - a).toNat ∧ k ≤ (a - b).toNat

instance (a : BitVec 64) (n : Nat) (b : BitVec 64) (k : Nat) : Decidable (Apart a n b k) :=
  instDecidableAnd

theorem apart_of_le {a b : BitVec 64} {n k : Nat} (hb : b.toNat + k ≤ 2 ^ 64)
    (ha : a.toNat + n ≤ 2 ^ 64) (hk : 0 < k) (hn : 0 < n)
    (h : a.toNat + n ≤ b.toNat ∨ b.toNat + k ≤ a.toNat) : Apart a n b k := by
  constructor <;> rw [BitVec.toNat_sub] <;> omega

/-- Runs with no address in common are apart. -/
theorem apart_of_disjoint {a b : BitVec 64} {n k : Nat} (hn : 0 < n) (hk : 0 < k)
    (h : ∀ x : BitVec 64, (x - a).toNat < n → ¬ (x - b).toNat < k) : Apart a n b k := by
  constructor
  · by_contra hlt
    refine h b (Nat.not_le.mp hlt) ?_
    rw [BitVec.sub_self]
    exact hk
  · by_contra hlt
    refine h a ?_ (Nat.not_le.mp hlt)
    rw [BitVec.sub_self]
    exact hn

/-- A run is inside the first `k` bytes from `a` on, which do not reach around, exactly
when it is empty or ends there as a sum of numbers. -/
theorem run_inside_iff (a off : BitVec 64) {n k : Nat} (hn : n ≤ 2 ^ 64) (hk : k < 2 ^ 64) :
    (∀ x : BitVec 64, (x - (a + off)).toNat < n → (x - a).toNat < k) ↔
      n = 0 ∨ off.toNat + n ≤ k := by
  have hsub (y : BitVec 64) : a + y - a = y := by
    rw [BitVec.add_comm, BitVec.add_sub_cancel]
  have hsub' (y : BitVec 64) : a + y - (a + off) = y - off := by
    rw [← BitVec.sub_sub, hsub]
  have hoff := off.isLt
  constructor
  · intro h
    by_contra hout
    have hpos : 0 < n := Nat.pos_of_ne_zero fun hzero ↦ hout (.inl hzero)
    by_cases hwrap : off.toNat + (n - 1) < 2 ^ 64
    · -- the last byte of the run
      have hlast := h (a + BitVec.ofNat 64 (off.toNat + (n - 1)))
      rw [hsub, hsub', BitVec.toNat_sub, BitVec.toNat_ofNat, Nat.mod_eq_of_lt hwrap] at hlast
      omega
    · -- the run reaches around, over the last offset of all
      have hlast := h (a + BitVec.ofNat 64 (2 ^ 64 - 1))
      rw [hsub, hsub', BitVec.toNat_sub, BitVec.toNat_ofNat] at hlast
      omega
  · rintro (rfl | hle) x hx
    · exact absurd hx (Nat.not_lt_zero _)
    · have hat : x = a + (x - a) := by
        rw [BitVec.add_comm, BitVec.sub_add_cancel]
      rw [hat, hsub', BitVec.toNat_sub] at hx
      have := (x - a).isLt
      omega

/-- The bytes of `n` words in a row. -/
theorem in_words_iff (a x : BitVec 64) {n : Nat} (hn : 8 * n ≤ 2 ^ 64) :
    (∃ k < n, (x - (a + BitVec.ofNat 64 (8 * k))).toNat < 8) ↔ (x - a).toNat < 8 * n := by
  have hsub (k : Nat) : x - (a + BitVec.ofNat 64 (8 * k)) = x - a - BitVec.ofNat 64 (8 * k) :=
    (BitVec.sub_sub x a _).symm
  have hlt := (x - a).isLt
  constructor
  · rintro ⟨k, hk, hx⟩
    rw [hsub, BitVec.toNat_sub, BitVec.toNat_ofNat] at hx
    omega
  · intro hx
    refine ⟨(x - a).toNat / 8, by omega, ?_⟩
    rw [hsub, BitVec.toNat_sub, BitVec.toNat_ofNat]
    omega

/-! ## Bits of a loaded word -/

theorem testBit_loadNat (m : Mem) : ∀ (n : Nat) (a : BitVec 64) (i : Nat), i < 8 * n →
    (loadNat m n a).testBit i = (m (a + BitVec.ofNat 64 (i / 8))).getLsbD (i % 8)
  | 0, _, i, h => absurd h (by omega)
  | n + 1, a, i, h => by
      rw [loadNat, Nat.testBit_two_pow_mul_add _ (m a).isLt]
      by_cases hi : i < 8
      · rw [if_pos hi, Nat.div_eq_of_lt hi, Nat.mod_eq_of_lt hi]
        simp [BitVec.getLsbD]
      · rw [if_neg hi, testBit_loadNat m n (a + 1) (i - 8) (by omega)]
        have hd : i / 8 = (i - 8) / 8 + 1 := by omega
        have hm : i % 8 = (i - 8) % 8 := by omega
        have ha : a + 1 + BitVec.ofNat 64 ((i - 8) / 8) = a + BitVec.ofNat 64 (i / 8) := by
          rw [hd, BitVec.add_assoc, BitVec.ofNat_add, BitVec.add_comm 1]
          rfl
        rw [ha, hm]

/-- Bit `i` of a loaded word is bit `i % 8` of its byte `i / 8`. -/
theorem getLsbD_load (n : Nat) (m : Mem) (a : BitVec 64) {i : Nat} (hi : i < 8 * n) :
    (load n m a).getLsbD i = (m (a + BitVec.ofNat 64 (i / 8))).getLsbD (i % 8) := by
  rw [load, BitVec.getLsbD_ofNat, testBit_loadNat m n a i hi]
  simp [hi]

/-- Two loaded words are equal when their bytes are. -/
theorem load_eq_load_iff {n : Nat} {m m' : Mem} {a a' : BitVec 64} :
    load n m' a' = load n m a ↔
      ∀ i < n, m' (a' + BitVec.ofNat 64 i) = m (a + BitVec.ofNat 64 i) := by
  constructor
  · intro h i hi
    apply BitVec.eq_of_getLsbD_eq
    intro b hb
    have hbit := congrArg (·.getLsbD (8 * i + b)) h
    have hdiv : (8 * i + b) / 8 = i := by omega
    have hmod : (8 * i + b) % 8 = b := by omega
    simp only [getLsbD_load n _ _ (show 8 * i + b < 8 * n by omega), hdiv, hmod] at hbit
    exact hbit
  · intro h
    apply BitVec.eq_of_getLsbD_eq
    intro i hi
    rw [getLsbD_load n m' a' hi, getLsbD_load n m a hi, h (i / 8) (by omega)]

/-- A loaded word depends on its own bytes only. -/
theorem load_congr {n : Nat} {m m' : Mem} {a : BitVec 64}
    (h : ∀ i < n, m' (a + BitVec.ofNat 64 i) = m (a + BitVec.ofNat 64 i)) :
    load n m' a = load n m a := load_eq_load_iff.mpr h

/-- A word is loaded where memory holds its bytes. -/
theorem load_of_bytes {n : Nat} {m : Mem} {a : BitVec 64} {v : BitVec (8 * n)}
    (h : ∀ i < n, m (a + BitVec.ofNat 64 i) = v.extractLsb' (8 * i) 8) : load n m a = v := by
  apply BitVec.eq_of_getLsbD_eq
  intro i hi
  rw [getLsbD_load n m a hi, h (i / 8) (by omega), BitVec.getLsbD_extractLsb', Nat.div_add_mod]
  simp [Nat.mod_lt]

/-! ## Reading back -/

theorem toNat_add_sub_self (a : BitVec 64) {i : Nat} (hi : i < 2 ^ 64) :
    (a + BitVec.ofNat 64 i - a).toNat = i := by
  rw [BitVec.add_comm, BitVec.add_sub_cancel, BitVec.toNat_ofNat, Nat.mod_eq_of_lt hi]

/-- An address of the second of two runs kept apart is outside the first. -/
theorem Apart.le_toNat_sub {a b : BitVec 64} {n k : Nat} (h : Apart a n b k) {i : Nat}
    (hi : i < k) : n ≤ (b + BitVec.ofNat 64 i - a).toNat := by
  obtain ⟨h₁, h₂⟩ := h
  rw [BitVec.toNat_sub] at h₁ h₂
  rw [BitVec.toNat_sub, BitVec.toNat_add, BitVec.toNat_ofNat]
  have := a.isLt
  have := b.isLt
  omega

/-- Runs kept apart have no address in common. -/
theorem Apart.not_lt {a b : BitVec 64} {n k : Nat} (h : Apart a n b k) {x : BitVec 64}
    (hx : (x - b).toNat < k) : ¬ (x - a).toNat < n := by
  have hat : b + BitVec.ofNat 64 (x - b).toNat = x := by
    rw [BitVec.ofNat_toNat, BitVec.setWidth_eq, BitVec.add_comm, BitVec.sub_add_cancel]
  have hle := h.le_toNat_sub hx
  rw [hat] at hle
  exact Nat.not_lt.mpr hle

@[simp] theorem load_store_self {n : Nat} (hn : n ≤ 2 ^ 64) (m : Mem) (a : BitVec 64)
    (v : BitVec (8 * n)) : load n (store n m a v) a = v := by
  apply BitVec.eq_of_getLsbD_eq
  intro i hi
  have hlt : i / 8 < n := by omega
  rw [getLsbD_load n _ a hi, store, toNat_add_sub_self a (by omega), if_pos hlt,
    BitVec.getLsbD_extractLsb', Nat.div_add_mod]
  simp [Nat.mod_lt]

/-- A second write of the same bytes replaces the first. -/
theorem store_store_self (n : Nat) (m : Mem) (a : BitVec 64) (v v' : BitVec (8 * n)) :
    store n (store n m a v) a v' = store n m a v' := by
  funext x
  unfold store
  split <;> rfl

theorem load_store_of_apart {n k : Nat} {m : Mem} {a b : BitVec 64} {v : BitVec (8 * n)}
    (h : Apart a n b k) : load k (store n m a v) b = load k m b :=
  load_congr fun i hi => by rw [store, if_neg (Nat.not_lt.mpr (h.le_toNat_sub hi))]

theorem load_memset_of_apart {n k : Nat} {m : Mem} {a b : BitVec 64} {c : BitVec 8}
    (h : Apart a n b k) : load k (memset m a c n) b = load k m b :=
  load_congr fun i hi => by rw [memset, if_neg (Nat.not_lt.mpr (h.le_toNat_sub hi))]

/-- Part of a run of bytes is apart from what the whole run is apart from. -/
theorem Apart.sub {a b : BitVec 64} {n k : Nat} (h : Apart a n b k) {off j : Nat} (hj : 0 < j)
    (hsub : off + j ≤ k) : Apart a n (b + BitVec.ofNat 64 off) j := by
  obtain ⟨h₁, h₂⟩ := h
  have ha := a.isLt
  have hb := b.isLt
  rw [BitVec.toNat_sub] at h₁ h₂
  constructor
  · rw [BitVec.toNat_sub, BitVec.toNat_add, BitVec.toNat_ofNat]
    omega
  · rw [BitVec.toNat_sub, BitVec.toNat_add, BitVec.toNat_ofNat]
    omega

/-- Bytes of a loaded word are the word loaded from their address. -/
theorem extractLsb'_load {n j k : Nat} (h : k + j ≤ n) (m : Mem) (a : BitVec 64) :
    (load n m a).extractLsb' (8 * k) (8 * j) = load j m (a + BitVec.ofNat 64 k) := by
  apply BitVec.eq_of_getLsbD_eq
  intro i hi
  have haddr : a + BitVec.ofNat 64 k + BitVec.ofNat 64 (i / 8) =
      a + BitVec.ofNat 64 ((8 * k + i) / 8) := by
    rw [BitVec.add_assoc, ← BitVec.ofNat_add, Nat.mul_add_div (by decide)]
  rw [BitVec.getLsbD_extractLsb', getLsbD_load j m _ hi, haddr, getLsbD_load n m a (by omega),
    Nat.mul_add_mod]
  simp [hi]

/-! ## Members of a packed structure -/

/-- Read the member of `n` bytes at offset `off` of the structure at `a`. -/
def member (n : Nat) (m : Mem) (a : BitVec 64) (off : Nat) : BitVec (8 * n) :=
  load n m (a + BitVec.ofNat 64 off)

/-- Assign to it. -/
def setMember (n : Nat) (m : Mem) (a : BitVec 64) (off : Nat) (v : BitVec (8 * n)) : Mem :=
  store n m (a + BitVec.ofNat 64 off) v

section member

variable {m : Mem} {a : BitVec 64} {off n : Nat}

theorem member_setMember_self {v : BitVec (8 * n)} (hn : n ≤ 2 ^ 64) :
    member n (setMember n m a off v) a off = v := load_store_self hn m _ v

theorem member_setMember_of_disjoint {off' k : Nat} {v : BitVec (8 * n)} (hn : 0 < n) (hk : 0 < k)
    (hoff : off + n ≤ 2 ^ 64) (hoff' : off' + k ≤ 2 ^ 64) (h : off + n ≤ off' ∨ off' + k ≤ off) :
    member k (setMember n m a off v) a off' = member k m a off' := by
  have hlt : (BitVec.ofNat 64 off).toNat = off := Nat.mod_eq_of_lt (by omega)
  have hlt' : (BitVec.ofNat 64 off').toNat = off' := Nat.mod_eq_of_lt (by omega)
  have ha := a.isLt
  apply load_store_of_apart
  constructor
  · rw [BitVec.toNat_sub, BitVec.toNat_add, BitVec.toNat_add, hlt, hlt']
    omega
  · rw [BitVec.toNat_sub, BitVec.toNat_add, BitVec.toNat_add, hlt, hlt']
    omega

/-- A structure filled with zeros has zeros for members. -/
theorem member_memset_zero {k : Nat} (h : off + n ≤ k) (hk : k ≤ 2 ^ 64) :
    member n (memset m a 0 k) a off = 0 := by
  apply BitVec.eq_of_getLsbD_eq
  intro i hi
  have haddr : a + BitVec.ofNat 64 off + BitVec.ofNat 64 (i / 8) =
      a + BitVec.ofNat 64 (off + i / 8) := by
    rw [BitVec.add_assoc, BitVec.ofNat_add]
  rw [member, getLsbD_load n _ _ hi, haddr, memset, toNat_add_sub_self a (by omega),
    if_pos (by omega)]
  simp

/-- A byte of a structure that is filled. -/
theorem member_memset_byte {c : BitVec 8} {k : Nat} (h : off < k) (hk : k ≤ 2 ^ 64) :
    member 1 (memset m a c k) a off = c := by
  apply BitVec.eq_of_getLsbD_eq
  intro i hi
  have hbyte : i / 8 = 0 := Nat.div_eq_of_lt hi
  have hbit : i % 8 = i := Nat.mod_eq_of_lt hi
  have hin : memset m a c k (a + BitVec.ofNat 64 off) = c := by
    rw [memset, toNat_add_sub_self a (by omega), if_pos h]
  rw [member, getLsbD_load 1 _ _ hi, hbyte, hbit, BitVec.add_zero, hin]

theorem member_memset_of_apart {b : BitVec 64} {c : BitVec 8} {j k : Nat} (h : Apart b j a k)
    (hn : 0 < n) (hsub : off + n ≤ k) : member n (memset m b c j) a off = member n m a off :=
  load_memset_of_apart (h.sub hn hsub)

end member

end Hypervi.Memory
