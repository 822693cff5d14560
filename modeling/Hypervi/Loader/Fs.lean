import Hypervi.Control
import Mathlib.Data.Nat.Find
import Mathlib.Logic.Function.Basic
import Mathlib.Tactic.Common

/-!
# The filesystems of the loader

`efi_fs_init` asks the firmware for all handles with a filesystem and opens the volumes of
the first sixteen; where the protocol of a handle or its volume cannot be had, the pointer
in `fs_roots` stays null.  `efi_fs_find_file` goes through `fs_roots` up to the number of
handles.  The two agree when there are at most sixteen handles and all of them open, and
otherwise as long as a file is found early enough (`lookup_iff`).

The firmware's answers are arbitrary, also where a pointer is followed that is not that of a
volume.
-/

namespace Hypervi.Loader

/-! ## The firmware -/

/-- The answers of the firmware to `efi_fs_init`. -/
structure FsFirmware where
  /-- `locate_handle_buffer`: the number of handles, if it succeeds. -/
  locateHandleBuffer : Option (BitVec 64)
  /-- Whether `handle_protocol` succeeds for a handle. -/
  handleProtocol : Nat → Bool
  /-- `open_volume`: the root of a handle's volume, if it succeeds. -/
  openVolume : Nat → Option (BitVec 64)

/-- The answer to `open`, which is called for the pointer given with a path, a mode and
attributes: the file, if it succeeds. -/
abbrev OpenFile := BitVec 64 → List (BitVec 16) → BitVec 64 → BitVec 64 → Option (BitVec 64)

namespace FsFirmware

variable (fw : FsFirmware)

/-- The number of handles that the loop of `efi_fs_init` looks at. -/
def scanned : Nat :=
  match fw.locateHandleBuffer with
  | some n => min n.toNat 0x10
  | none => 0

/-- The root of the volume that `efi_fs_init` opens for a handle. -/
def opened (i : Nat) : Option (BitVec 64) :=
  if i < fw.scanned ∧ fw.handleProtocol i then fw.openVolume i else none

end FsFirmware

/-! ## The code -/

/-- `fs_roots[index]->…`, with the pointer read. -/
structure Access where
  index : Nat
  pointer : BitVec 64
deriving DecidableEq, Repr

/-- The globals: what is behind the end of `fs_roots` is not theirs. -/
structure Filesystems where
  fsRoots : Nat → BitVec 64
  fsRootCount : BitVec 64

/-- What the globals hold when the program starts. -/
def Filesystems.initial (behind : Nat → BitVec 64) : Filesystems where
  fsRoots i := if i < 64 then 0 else behind i
  fsRootCount := 0

/-- One handle of the loop of `efi_fs_init`, up to the call of `get_info`. -/
def openHandle (fw : FsFirmware) (i : Nat) (s : (Nat → BitVec 64) × List Access) :
    (Nat → BitVec 64) × List Access :=
  if fw.handleProtocol i then
    let fsRoots :=
      match fw.openVolume i with
      | some root => Function.update s.1 i root
      | none => s.1
    (fsRoots, s.2 ++ [⟨i, fsRoots i⟩])
  else
    s

/-- `efi_fs_init`, and the pointers it follows. -/
def efiFsInit (fw : FsFirmware) (behind : Nat → BitVec 64) : Filesystems × List Access :=
  let s := Filesystems.initial behind
  match fw.locateHandleBuffer with
  | none => (s, [])
  | some n =>
      let roots := forRange (min n.toNat 0x10) (openHandle fw) (s.fsRoots, [])
      (⟨roots.1, n⟩, roots.2)

/-- The loop of `efi_fs_find_file` from the `i`-th volume on, with so many to go. -/
def findFrom (fsRoots : Nat → BitVec 64) (file : BitVec 64 → Option (BitVec 64)) :
    Nat → Nat → BitVec 64 × List Access
  | 0, _ => (0, [])
  | k + 1, i =>
      match file (fsRoots i) with
      | some output => (output, [⟨i, fsRoots i⟩])
      | none =>
          let rest := findFrom fsRoots file k (i + 1)
          (rest.1, ⟨i, fsRoots i⟩ :: rest.2)

/-- `efi_fs_find_file`, and the pointers it follows. -/
def efiFsFindFile (openFile : OpenFile) (s : Filesystems) (path : List (BitVec 16))
    (openMode attributes : BitVec 64) : BitVec 64 × List Access :=
  findFrom s.fsRoots (fun root ↦ openFile root path openMode attributes) s.fsRootCount.toNat 0

/-! ## Looking a file up -/

section lookup

variable (fw : FsFirmware) (file : BitVec 64 → Option (BitVec 64))

/-- The file is that of the first opened volume that has it, or null if none has. -/
def FirstFile (output : BitVec 64) : Prop :=
  (∃ i root, fw.opened i = some root ∧ file root = some output ∧
      ∀ j < i, ∀ root', fw.opened j = some root' → file root' = none) ∨
    output = 0 ∧ ∀ i root, fw.opened i = some root → file root = none

/-- Only opened volumes are touched, and the right file is found. -/
structure Lookup (accesses : List Access) (output : BitVec 64) : Prop where
  index_lt : ∀ a ∈ accesses, a.index < 64
  opened : ∀ a ∈ accesses, fw.opened a.index = some a.pointer
  first : FirstFile fw file output

/-- Each handle whose protocol can be had opens, and before a handle that is not opened
there is one that has the file. -/
structure Covers : Prop where
  opens : ∀ i < fw.scanned, fw.handleProtocol i = true → (fw.openVolume i).isSome
  found : ∀ n, fw.locateHandleBuffer = some n → ∀ i < n.toNat, fw.opened i = none →
    ∃ j < i, ∃ root, fw.opened j = some root ∧ (file root).isSome

end lookup

section lemmas

variable {fw : FsFirmware} {file : BitVec 64 → Option (BitVec 64)}

theorem scanned_le (fw : FsFirmware) :
    fw.scanned ≤ 16 ∧ fw.scanned ≤ (fw.locateHandleBuffer.getD 0).toNat := by
  rw [FsFirmware.scanned]
  cases fw.locateHandleBuffer with
  | none => exact ⟨Nat.zero_le _, Nat.zero_le _⟩
  | some n => exact ⟨Nat.min_le_right _ _, Nat.min_le_left _ _⟩

theorem lt_scanned_of_opened {i : Nat} {root : BitVec 64} (h : fw.opened i = some root) :
    i < fw.scanned := by
  rw [FsFirmware.opened] at h
  split at h
  · rename_i hi
    exact hi.1
  · exact absurd h (by simp)

/-- The pointers after `k` handles of the loop of `efi_fs_init`, and those it has
followed. -/
structure Scanned (fw : FsFirmware) (fsRoots : Nat → BitVec 64) (k : Nat)
    (s : (Nat → BitVec 64) × List Access) : Prop where
  roots : ∀ i, s.1 i =
    if i < k ∧ fw.handleProtocol i then (fw.openVolume i).getD (fsRoots i) else fsRoots i
  accesses : ∀ a, a ∈ s.2 ↔ a.index < k ∧ fw.handleProtocol a.index = true ∧
    a.pointer = (fw.openVolume a.index).getD (fsRoots a.index)

theorem openHandle_of_protocol {i : Nat} (h : fw.handleProtocol i = true)
    (s : (Nat → BitVec 64) × List Access) :
    openHandle fw i s = (Function.update s.1 i ((fw.openVolume i).getD (s.1 i)),
      s.2 ++ [⟨i, (fw.openVolume i).getD (s.1 i)⟩]) := by
  rw [openHandle, if_pos h]
  cases fw.openVolume i with
  | none => simp
  | some root => simp

namespace Scanned

variable {fsRoots : Nat → BitVec 64} {k : Nat} {s : (Nat → BitVec 64) × List Access}

theorem init (fw : FsFirmware) (fsRoots : Nat → BitVec 64) :
    Scanned fw fsRoots 0 (fsRoots, []) where
  roots i := (if_neg fun h ↦ Nat.not_lt_zero i h.1).symm
  accesses a := iff_of_false List.not_mem_nil fun h ↦ Nat.not_lt_zero a.index h.1

theorem skip (h : Scanned fw fsRoots k s) (hprotocol : ¬ fw.handleProtocol k = true) :
    Scanned fw fsRoots (k + 1) s := by
  have hbelow (i : Nat) : i < k + 1 ∧ fw.handleProtocol i = true ↔
      i < k ∧ fw.handleProtocol i = true := by
    constructor
    · rintro ⟨hi, hi'⟩
      rcases Nat.lt_succ_iff_lt_or_eq.mp hi with hi | rfl
      · exact ⟨hi, hi'⟩
      · exact absurd hi' hprotocol
    · rintro ⟨hi, hi'⟩
      exact ⟨Nat.lt_succ_of_lt hi, hi'⟩
  constructor
  · intro i
    simp only [hbelow]
    exact h.roots i
  · intro a
    rw [← and_assoc, hbelow, and_assoc]
    exact h.accesses a

theorem follow (h : Scanned fw fsRoots k s) (hprotocol : fw.handleProtocol k = true) :
    Scanned fw fsRoots (k + 1) (openHandle fw k s) := by
  have hk : s.1 k = fsRoots k := (h.roots k).trans (if_neg fun hk ↦ Nat.lt_irrefl k hk.1)
  rw [openHandle_of_protocol hprotocol, hk]
  constructor
  · intro i
    dsimp only
    by_cases hik : i = k
    · subst hik
      rw [Function.update_self, if_pos ⟨Nat.lt_succ_self i, hprotocol⟩]
    · rw [Function.update_of_ne hik, h.roots]
      simp only [Nat.lt_succ_iff_lt_or_eq, hik, or_false]
  · rintro ⟨i, pointer⟩
    rw [List.mem_append, List.mem_singleton, h.accesses, Access.mk.injEq]
    constructor
    · rintro (⟨hi, hi'⟩ | ⟨rfl, rfl⟩)
      · exact ⟨Nat.lt_succ_of_lt hi, hi'⟩
      · exact ⟨Nat.lt_succ_self i, hprotocol, rfl⟩
    · rintro ⟨hi, hi'⟩
      rcases Nat.lt_succ_iff_lt_or_eq.mp hi with hi | rfl
      · exact .inl ⟨hi, hi'⟩
      · exact .inr ⟨rfl, hi'.2⟩

theorem step (h : Scanned fw fsRoots k s) : Scanned fw fsRoots (k + 1) (openHandle fw k s) := by
  by_cases hprotocol : fw.handleProtocol k = true
  · exact h.follow hprotocol
  · rw [openHandle, if_neg hprotocol]
    exact h.skip hprotocol

theorem run (fw : FsFirmware) (fsRoots : Nat → BitVec 64) (n : Nat) :
    Scanned fw fsRoots n (forRange n (openHandle fw) (fsRoots, [])) :=
  forRange_induction (P := Scanned fw fsRoots) (init fw fsRoots) fun _ _ _ h ↦ h.step

end Scanned

theorem fsRootCount_efiFsInit (fw : FsFirmware) (behind : Nat → BitVec 64) :
    (efiFsInit fw behind).1.fsRootCount = fw.locateHandleBuffer.getD 0 := by
  rw [efiFsInit]
  cases fw.locateHandleBuffer <;> rfl

/-- `efi_fs_init` leaves the roots of the opened volumes, and follows a pointer for each
handle whose protocol it gets. -/
theorem efiFsInit_eq (fw : FsFirmware) (behind : Nat → BitVec 64) :
    (∀ i, (efiFsInit fw behind).1.fsRoots i =
      (fw.opened i).getD ((Filesystems.initial behind).fsRoots i)) ∧
    ∀ a, a ∈ (efiFsInit fw behind).2 ↔
      a.index < fw.scanned ∧ fw.handleProtocol a.index = true ∧ a.pointer =
        (fw.openVolume a.index).getD ((Filesystems.initial behind).fsRoots a.index) := by
  have hloop := Scanned.run fw (Filesystems.initial behind).fsRoots fw.scanned
  unfold efiFsInit
  unfold FsFirmware.opened
  unfold FsFirmware.scanned at hloop ⊢
  cases hlocate : fw.locateHandleBuffer with
  | none => simp
  | some n =>
      simp only [hlocate] at hloop ⊢
      refine ⟨fun i ↦ ?_, hloop.accesses⟩
      rw [hloop.roots i]
      split <;> rfl

/-- What `findFrom` does up to the first file. -/
theorem findFrom_succ (fsRoots : Nat → BitVec 64) (k i : Nat) :
    (∃ output, file (fsRoots i) = some output ∧
      findFrom fsRoots file (k + 1) i = (output, [⟨i, fsRoots i⟩])) ∨
    file (fsRoots i) = none ∧ findFrom fsRoots file (k + 1) i =
      ((findFrom fsRoots file k (i + 1)).1,
        ⟨i, fsRoots i⟩ :: (findFrom fsRoots file k (i + 1)).2) := by
  cases hfile : file (fsRoots i) with
  | some output => exact .inl ⟨output, rfl, by rw [findFrom, hfile]⟩
  | none => exact .inr ⟨rfl, by rw [findFrom, hfile]⟩

/-- Nothing is found from `i` on exactly when nothing is found at `i` and behind it. -/
theorem forall_from_succ {p : Nat → Prop} {i n : Nat} (hi : i < n) :
    (∀ j, i ≤ j → j < n → p j) ↔ p i ∧ ∀ j, i + 1 ≤ j → j < n → p j := by
  constructor
  · intro h
    exact ⟨h i (Nat.le_refl i) hi, fun j hj ↦ h j (Nat.le_of_succ_le hj)⟩
  · rintro ⟨hi', h⟩ j hj hjn
    rcases Nat.eq_or_lt_of_le hj with rfl | hlt
    · exact hi'
    · exact h j hlt hjn

theorem forall_from_self {p : Nat → Prop} (i : Nat) : ∀ j, i ≤ j → j < i → p j :=
  fun _ hj hj' ↦ absurd hj (Nat.not_le.mpr hj')

theorem access_eq_iff {fsRoots : Nat → BitVec 64} {a : Access} {i : Nat} :
    a = ⟨i, fsRoots i⟩ ↔ a.index = i ∧ a.pointer = fsRoots a.index := by
  constructor
  · rintro rfl
    exact ⟨rfl, rfl⟩
  · rintro ⟨rfl, heq⟩
    rw [← heq]

/-- The pointers that the loop of `efi_fs_find_file` follows: those before which no file was
found. -/
theorem mem_findFrom {fsRoots : Nat → BitVec 64} {k i : Nat} {a : Access} :
    a ∈ (findFrom fsRoots file k i).2 ↔ (i ≤ a.index ∧ a.index < i + k) ∧
      a.pointer = fsRoots a.index ∧ ∀ j, i ≤ j → j < a.index → file (fsRoots j) = none := by
  induction k generalizing i with
  | zero =>
      refine iff_of_false List.not_mem_nil ?_
      rintro ⟨⟨hle, hlt⟩, -⟩
      exact Nat.not_lt.mpr hle hlt
  | succ k ih =>
      rcases findFrom_succ fsRoots k i with ⟨output, hfile, heq⟩ | ⟨hfile, heq⟩
      · rw [heq, List.mem_singleton, access_eq_iff]
        constructor
        · rintro ⟨rfl, hpointer⟩
          exact ⟨⟨Nat.le_refl _, by omega⟩, hpointer, forall_from_self _⟩
        · rintro ⟨⟨hle, -⟩, hpointer, hnone⟩
          refine ⟨?_, hpointer⟩
          by_contra hne
          have hzero := hnone i (Nat.le_refl i) (Nat.lt_of_le_of_ne hle (Ne.symm hne))
          rw [hzero] at hfile
          exact Option.some_ne_none _ hfile.symm
      · rw [heq, List.mem_cons, access_eq_iff, ih]
        constructor
        · rintro (⟨rfl, hpointer⟩ | ⟨⟨hle, hlt⟩, hpointer, hnone⟩)
          · exact ⟨⟨Nat.le_refl _, by omega⟩, hpointer, forall_from_self _⟩
          · refine ⟨⟨by omega, by omega⟩, hpointer, ?_⟩
            exact (forall_from_succ hle).mpr ⟨hfile, hnone⟩
        · rintro ⟨⟨hle, hlt⟩, hpointer, hnone⟩
          rcases Nat.eq_or_lt_of_le hle with heq | hlt'
          · exact .inl ⟨heq.symm, hpointer⟩
          · exact .inr ⟨⟨hlt', by omega⟩, hpointer, ((forall_from_succ hlt').mp hnone).2⟩

/-- What the loop returns. -/
theorem findFrom_fst (file : BitVec 64 → Option (BitVec 64)) (fsRoots : Nat → BitVec 64)
    (k i : Nat) :
    (∃ j, (i ≤ j ∧ j < i + k) ∧ file (fsRoots j) = some (findFrom fsRoots file k i).1 ∧
      ∀ j', i ≤ j' → j' < j → file (fsRoots j') = none) ∨
    (findFrom fsRoots file k i).1 = 0 ∧
      ∀ j, i ≤ j → j < i + k → file (fsRoots j) = none := by
  induction k generalizing i with
  | zero => exact .inr ⟨rfl, forall_from_self i⟩
  | succ k ih =>
      rcases findFrom_succ fsRoots k i with ⟨output, hfile, heq⟩ | ⟨hfile, heq⟩
      · rw [heq]
        exact .inl ⟨i, ⟨Nat.le_refl i, by omega⟩, hfile, forall_from_self i⟩
      · rw [heq]
        rcases ih (i + 1) with ⟨j, ⟨hle, hlt⟩, hfound, hnone⟩ | ⟨hzero, hnone⟩
        · refine .inl ⟨j, ⟨by omega, by omega⟩, hfound, ?_⟩
          exact (forall_from_succ hle).mpr ⟨hfile, hnone⟩
        · refine .inr ⟨hzero, (forall_from_succ (by omega)).mpr ⟨hfile, ?_⟩⟩
          intro j hj hj'
          exact hnone j hj (by omega)

end lemmas

/-! ## What a lookup touches -/

section touched

/-- The pointers hold the roots of the opened volumes. -/
def HoldsRoots (fw : FsFirmware) (fsRoots : Nat → BitVec 64) : Prop :=
  ∀ i root, fw.opened i = some root → fsRoots i = root

variable {fw : FsFirmware} {file : BitVec 64 → Option (BitVec 64)} {behind : Nat → BitVec 64}
  {fsRoots : Nat → BitVec 64} {n : Nat}

/-- An access of `efi_fs_init` is to an opened volume when the volume of its handle opens. -/
theorem opened_of_init (hcovers : Covers fw file) {a : Access}
    (ha : a ∈ (efiFsInit fw behind).2) : fw.opened a.index = some a.pointer := by
  obtain ⟨hlt, hprotocol, hpointer⟩ := ((efiFsInit_eq fw behind).2 a).mp ha
  obtain ⟨root, hroot⟩ := Option.isSome_iff_exists.mp (hcovers.opens _ hlt hprotocol)
  rw [FsFirmware.opened, if_pos ⟨hlt, hprotocol⟩, hpointer, hroot]
  rfl

/-- And the volume of its handle opens when all its accesses are to opened volumes. -/
theorem opens_of_init
    (hopened : ∀ a ∈ (efiFsInit fw behind).2, fw.opened a.index = some a.pointer) {i : Nat}
    (hi : i < fw.scanned) (hprotocol : fw.handleProtocol i = true) :
    (fw.openVolume i).isSome := by
  have hmem := ((efiFsInit_eq fw behind).2
    ⟨i, (fw.openVolume i).getD ((Filesystems.initial behind).fsRoots i)⟩).mpr ⟨hi, hprotocol, rfl⟩
  have haccess := hopened _ hmem
  rw [FsFirmware.opened, if_pos ⟨hi, hprotocol⟩] at haccess
  exact Option.isSome_of_eq_some haccess

/-- An access of `efi_fs_find_file` before which no file was found is to an opened volume. -/
theorem opened_of_find (hcovers : Covers fw file) (hroots : HoldsRoots fw fsRoots) {i : Nat}
    (hi : i < (fw.locateHandleBuffer.getD 0).toNat)
    (hnone : ∀ j < i, file (fsRoots j) = none) : fw.opened i = some (fsRoots i) := by
  cases hopened : fw.opened i with
  | some root => rw [hroots i root hopened]
  | none =>
      cases hlocate : fw.locateHandleBuffer with
      | none =>
          rw [hlocate] at hi
          exact absurd hi (Nat.not_lt_zero i)
      | some n =>
          rw [hlocate] at hi
          obtain ⟨j, hj, root, hroot, hfile⟩ := hcovers.found n hlocate i hi hopened
          rw [← hroots j root hroot, hnone j hj] at hfile
          exact absurd hfile Bool.false_ne_true

/-- Before an entry that is not opened, an opened volume has the file, when every access is
to an opened volume. -/
theorem found_of_opened
    (hopened : ∀ a ∈ (findFrom fsRoots file n 0).2, fw.opened a.index = some a.pointer)
    {i : Nat} (hi : i < n) (hnone : fw.opened i = none) :
    ∃ j < i, ∃ root, fw.opened j = some root ∧ (file root).isSome := by
  classical
  have hreached (i : Nat) (hi : i < n) (hfile : ∀ j < i, file (fsRoots j) = none) :
      fw.opened i = some (fsRoots i) :=
    hopened ⟨i, fsRoots i⟩ (mem_findFrom.mpr
      ⟨⟨Nat.zero_le i, (Nat.zero_add n).symm ▸ hi⟩, rfl, fun j _ hj ↦ hfile j hj⟩)
  have hexists : ∃ j, j < i ∧ file (fsRoots j) ≠ none := by
    by_contra hall
    have hsome := hreached i hi fun j hj ↦ by
      by_contra hne
      exact hall ⟨j, hj, hne⟩
    rw [hnone] at hsome
    exact Option.some_ne_none _ hsome.symm
  -- the first of them is reached
  obtain ⟨hj, hne⟩ := Nat.find_spec hexists
  refine ⟨Nat.find hexists, hj, _, hreached _ (Nat.lt_trans hj hi) ?_,
    Option.isSome_iff_ne_none.mpr hne⟩
  intro j' hj'
  by_contra hne'
  exact Nat.find_min hexists hj' ⟨Nat.lt_trans hj' hj, hne'⟩

/-- When each access is to an opened volume, the loop finds the file of the first of them
that has it. -/
theorem firstFile_findFrom (hroots : HoldsRoots fw fsRoots) (hscanned : fw.scanned ≤ n)
    (hopened : ∀ a ∈ (findFrom fsRoots file n 0).2, fw.opened a.index = some a.pointer) :
    FirstFile fw file (findFrom fsRoots file n 0).1 := by
  rcases findFrom_fst file fsRoots n 0 with ⟨i, hi, hfile, hnone⟩ | ⟨hzero, hnone⟩
  · have hroot := hopened ⟨i, fsRoots i⟩ (mem_findFrom.mpr ⟨hi, rfl, hnone⟩)
    refine .inl ⟨i, _, hroot, hfile, ?_⟩
    intro j hj root hj'
    rw [← hroots j root hj']
    exact hnone j (Nat.zero_le j) hj
  · refine .inr ⟨hzero, ?_⟩
    intro i root hi
    rw [← hroots i root hi]
    have := lt_scanned_of_opened hi
    exact hnone i (Nat.zero_le i) (by omega)

end touched

/-- After `efi_fs_init`, looking a file up touches only opened volumes and finds the right
file exactly when each handle whose protocol can be had opens, and before a handle that is
not opened, as those from the seventeenth on never are, an opened volume has the file. -/
theorem lookup_iff (fw : FsFirmware) (behind : Nat → BitVec 64) (openFile : OpenFile)
    (path : List (BitVec 16)) (openMode attributes : BitVec 64) :
    Lookup fw (fun root ↦ openFile root path openMode attributes)
      ((efiFsInit fw behind).2 ++
        (efiFsFindFile openFile (efiFsInit fw behind).1 path openMode attributes).2)
      (efiFsFindFile openFile (efiFsInit fw behind).1 path openMode attributes).1 ↔
    Covers fw fun root ↦ openFile root path openMode attributes := by
  unfold efiFsFindFile
  generalize (fun root ↦ openFile root path openMode attributes) = file
  have hroots : HoldsRoots fw (efiFsInit fw behind).1.fsRoots := by
    intro i root h
    rw [(efiFsInit_eq fw behind).1, h]
    rfl
  obtain ⟨hsixteen, hcount⟩ := scanned_le fw
  rw [fsRootCount_efiFsInit]
  constructor
  · intro h
    constructor
    · intro i hi hprotocol
      exact opens_of_init (fun a ha ↦ h.opened a (List.mem_append_left _ ha)) hi hprotocol
    · intro n hlocate i hi
      rw [hlocate] at h
      exact found_of_opened (fun a ha ↦ h.opened a (List.mem_append_right _ ha)) hi
  · intro h
    have hfind : ∀ a ∈ (findFrom (efiFsInit fw behind).1.fsRoots file
        (fw.locateHandleBuffer.getD 0).toNat 0).2, fw.opened a.index = some a.pointer := by
      intro a ha
      obtain ⟨⟨-, hlt⟩, hpointer, hnone⟩ := mem_findFrom.mp ha
      rw [hpointer]
      exact opened_of_find h hroots (by omega) fun j hj ↦ hnone j (Nat.zero_le j) hj
    have hopened (a : Access) (ha : a ∈ (efiFsInit fw behind).2 ++ _) :
        fw.opened a.index = some a.pointer :=
      (List.mem_append.mp ha).elim (opened_of_init h) (hfind a)
    refine ⟨?_, hopened, firstFile_findFrom hroots hcount hfind⟩
    intro a ha
    have := lt_scanned_of_opened (hopened a ha)
    omega

/-- One handle whose protocol cannot be had. -/
def oneHandle : FsFirmware where
  locateHandleBuffer := some 1
  handleProtocol _ := false
  openVolume _ := none

/-- `efi_fs_find_file` follows the null pointer that `efi_fs_init` has left for it. -/
theorem oneHandle_not_lookup :
    ¬ Lookup oneHandle (fun _ ↦ none)
      ((efiFsInit oneHandle fun _ ↦ 0).2 ++
        (efiFsFindFile (fun _ _ _ _ ↦ none) (efiFsInit oneHandle fun _ ↦ 0).1 [] 1 0).2)
      (efiFsFindFile (fun _ _ _ _ ↦ none) (efiFsInit oneHandle fun _ ↦ 0).1 [] 1 0).1 := by
  intro h
  have hopened := h.opened ⟨0, 0⟩ (by decide)
  exact absurd hopened (by decide)

end Hypervi.Loader
