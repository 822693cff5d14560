import Hypervi.Cpu.Init
import Hypervi.Loader.Idt
import Hypervi.Memory.Runs

/-!
# The interrupt descriptor table of the loader

`efi_idt_init` copies the IDT of the firmware and lets seven gates of the copy point to
the stubs of the loader.  What it writes is a list of runs, the copy first and then
three parts of an address for each hook (`idtRuns`).

An IDT of limit `L` has `L + 1` bytes.  The array for the copy has `L / 16` gates, one
too few, and `L` bytes are copied into it: fifteen too many for the array and one too
few for the table.  So the copy always leaves its array (`not_clonesIdt`), and all gates
are right exactly when the byte that is not copied happens to be right already
(`gatesCloned_iff`).
-/

namespace Hypervi.Loader

open Memory Cpu

/-! ## What is written -/

/-- The exceptions in the order of `hooks`. -/
def hooks : List Exception :=
  [.invalidOpcode, .doubleFault, .invalidTss, .segmentNotPresent, .stackSegmentFault,
    .generalProtectionFault, .pagefault]

/-- The members of `idt_entry_t` that make up the address of the handler. -/
inductive IsrPart where
  | low | mid | high
  deriving DecidableEq

namespace IsrPart

/-- The offset in the gate. -/
def offset : IsrPart → Nat
  | low => 0
  | mid => 6
  | high => 8

/-- The size in bytes. -/
def size : IsrPart → Nat
  | low => 2
  | mid => 2
  | high => 4

/-- The number of bytes of the address below this part. -/
def skip : IsrPart → Nat
  | low => 0
  | mid => 2
  | high => 4

end IsrPart

section init

variable (idtr : SegmentDescriptorRegister64) (mem : Mem) (customIdt : BitVec 64)
  (stub : Exception → BitVec 64)

/-- `entries` -/
def idtEntries : Nat := idtr.limit.toNat / 16

/-- The size in bytes of `new idt_entry_t[entries]`. -/
def customIdtSize : Nat := 16 * idtEntries idtr

/-- `memcpy(custom_idt, base_address, limit)` -/
def copyRun : Run where
  start := customIdt
  size := idtr.limit.toNat
  byte off := mem (idtr.baseAddress + off)

/-- The assignment to one of `entry->isr_low`, `entry->isr_mid` and `entry->isr_high`. -/
def isrRun (a : Exception × IsrPart) : Run where
  start := customIdt + BitVec.ofNat 64 (16 * a.1.index + a.2.offset)
  size := a.2.size
  byte off := (stub a.1 >>> (8 * a.2.skip)).extractLsb' (8 * off.toNat) 8

/-- The assignments of the loop over `hooks`, in order. -/
def isrAssignments : List (Exception × IsrPart) :=
  hooks.flatMap fun e ↦ [(e, .low), (e, .mid), (e, .high)]

/-- Everything that is written to the new table. -/
def idtRuns : List Run :=
  copyRun idtr mem customIdt :: isrAssignments.map (isrRun customIdt stub)

/-- The memory that `efi_idt_init` leaves. -/
def efiIdtInit : Mem := overwrite (idtRuns idtr mem customIdt stub) mem

end init

/-! ## What is wanted -/

/-- The `v`-th gate of a table. -/
def gateAt (table : BitVec 64) (v : Nat) : BitVec 64 := table + BitVec.ofNat 64 (16 * v)

/-- `isr_low | isr_mid << 16 | isr_high << 32` -/
def handlerAddress (m : Mem) (gate : BitVec 64) : BitVec 64 :=
  (member 2 m gate 0).setWidth 64 ||| ((member 2 m gate 6).setWidth 64 <<< 16) |||
    ((member 4 m gate 8).setWidth 64 <<< 32)

/-- The members other than the address of the handler: `kernel_cs`, `ist`, `attributes`
and `reserved`. -/
structure SameRights (m : Mem) (gate : BitVec 64) (m' : Mem) (gate' : BitVec 64) : Prop where
  kernelCs : member 2 m' gate' 2 = member 2 m gate 2
  ist : member 1 m' gate' 4 = member 1 m gate 4
  attributes : member 1 m' gate' 5 = member 1 m gate 5
  reserved : member 4 m' gate' 12 = member 4 m gate 12

/-- The gates after `efi_idt_init`, for a table of `n` gates: a hooked one points to its
stub and is otherwise as before, and every other one is a copy. -/
structure GatesCloned (n : Nat) (m : Mem) (table : BitVec 64) (m' : Mem) (table' : BitVec 64)
    (stub : Exception → BitVec 64) : Prop where
  handler : ∀ e, handlerAddress m' (gateAt table' e.index) = stub e
  rights : ∀ e : Exception, e.index < n →
    SameRights m (gateAt table e.index) m' (gateAt table' e.index)
  others : ∀ v < n, (∀ e : Exception, e.index ≠ v) → ∀ k < 16,
    m' (gateAt table' v + BitVec.ofNat 64 k) = m (gateAt table v + BitVec.ofNat 64 k)

/-- The table is cloned and hooked, and nothing is written outside the array. -/
structure ClonesIdt (idtr : SegmentDescriptorRegister64) (mem : Mem) (customIdt : BitVec 64)
    (stub : Exception → BitVec 64) : Prop where
  gates : GatesCloned ((idtr.limit.toNat + 1) / 16) mem idtr.baseAddress
    (efiIdtInit idtr mem customIdt stub) customIdt stub
  inside : ∀ r ∈ idtRuns idtr mem customIdt stub, ∀ x, r.Over x →
    (x - customIdt).toNat < customIdtSize idtr

/-! ## The bytes of the new table -/

theorem Exception.mem_hooks (e : Exception) : e ∈ hooks := by
  cases e <;> decide

theorem Exception.index_lt (e : Exception) : e.index < 15 := by
  cases e <;> decide

theorem Exception.eq_of_index_eq {e e' : Exception} (h : e.index = e'.index) : e = e' := by
  revert h
  cases e <;> cases e' <;> decide

theorem mem_isrAssignments (a : Exception × IsrPart) : a ∈ isrAssignments := by
  refine List.mem_flatMap.mpr ⟨a.1, a.1.mem_hooks, ?_⟩
  obtain ⟨e, p⟩ := a
  cases p <;> simp

/-- A byte of a gate that is part of the address. -/
def IsrPart.Has (p : IsrPart) (k : Nat) : Prop := p.offset ≤ k ∧ k < p.offset + p.size

theorem IsrPart.Has.lt {p : IsrPart} {k : Nat} (h : p.Has k) : k < 12 := by
  cases p <;> simp only [Has, offset, size] at h <;> omega

theorem IsrPart.Has.unique {p p' : IsrPart} {k : Nat} (h : p.Has k) (h' : p'.Has k) : p = p' := by
  cases p <;> cases p' <;> first | rfl | (simp only [Has, offset, size] at h h'; omega)

section bytes

variable {idtr : SegmentDescriptorRegister64} {mem : Mem} {customIdt : BitVec 64}
  {stub : Exception → BitVec 64} {v k : Nat}

theorem isrRun_over_iff (hv : v < 0x1000) (hk : k < 16) (a : Exception × IsrPart) :
    (isrRun customIdt stub a).Over (customIdt + BitVec.ofNat 64 (16 * v + k)) ↔
      a.1.index = v ∧ a.2.Has k := by
  obtain ⟨e, p⟩ := a
  have hindex := e.index_lt
  rw [isrRun, Run.over_add_iff (by cases p <;> simp only [IsrPart.offset, IsrPart.size] <;> omega)
    (by omega)]
  simp only [IsrPart.Has]
  cases p <;> simp only [IsrPart.offset, IsrPart.size] <;> omega

theorem copyRun_over_iff (hv : v < 0x1000) (hk : k < 16) :
    (copyRun idtr mem customIdt).Over (customIdt + BitVec.ofNat 64 (16 * v + k)) ↔
      16 * v + k < idtr.limit.toNat := by
  unfold Run.Over copyRun
  rw [toNat_add_sub_self customIdt (by omega)]

/-- A byte of an address comes from the stub. -/
theorem efiIdtInit_of_has {p : IsrPart} (hp : p.Has k) (e : Exception) :
    efiIdtInit idtr mem customIdt stub (customIdt + BitVec.ofNat 64 (16 * e.index + k)) =
      (stub e >>> (8 * p.skip)).extractLsb' (8 * (k - p.offset)) 8 := by
  have hindex := e.index_lt
  have hk := hp.lt
  have hover (a : Exception × IsrPart) :
      (isrRun customIdt stub a).Over (customIdt + BitVec.ofNat 64 (16 * e.index + k)) ↔
        a.1.index = e.index ∧ a.2.Has k := isrRun_over_iff (by omega) (by omega) a
  rw [efiIdtInit, idtRuns, overwrite_cons, overwrite_map_of_unique (mem_isrAssignments (e, p))
    ((hover (e, p)).mpr ⟨rfl, hp⟩)]
  · have hat : 16 * e.index + k - (16 * e.index + p.offset) = k - p.offset := by omega
    have hsmall : (BitVec.ofNat 64 (k - p.offset)).toNat = k - p.offset := by
      rw [BitVec.toNat_ofNat]
      omega
    rw [isrRun, Run.at'_add (Nat.add_le_add_left hp.1 _), hat, hsmall]
  · rintro ⟨e', p'⟩ - hb
    obtain ⟨hindex, hp'⟩ := (hover (e', p')).mp hb
    exact Prod.ext (Exception.eq_of_index_eq hindex) (hp'.unique hp)

/-- Every other byte is that of the copy, as far as it goes. -/
theorem efiIdtInit_of_not_has (hv : v < 0x1000) (hk : k < 16)
    (hnot : ∀ (e : Exception) (p : IsrPart), e.index = v → ¬ p.Has k) :
    efiIdtInit idtr mem customIdt stub (customIdt + BitVec.ofNat 64 (16 * v + k)) =
      if 16 * v + k < idtr.limit.toNat then mem (idtr.baseAddress + BitVec.ofNat 64 (16 * v + k))
      else mem (customIdt + BitVec.ofNat 64 (16 * v + k)) := by
  have hself : customIdt + BitVec.ofNat 64 (16 * v + k) - customIdt =
      BitVec.ofNat 64 (16 * v + k) := by
    rw [BitVec.add_comm, BitVec.add_sub_cancel]
  rw [efiIdtInit, idtRuns, overwrite_cons, overwrite_map_of_none]
  · by_cases hcopy : 16 * v + k < idtr.limit.toNat
    · rw [Run.write_of_over ((copyRun_over_iff hv hk).mpr hcopy), if_pos hcopy, Run.at', copyRun,
        hself]
    · rw [Run.write_of_not_over fun h ↦ hcopy ((copyRun_over_iff hv hk).mp h), if_neg hcopy]
  · rintro ⟨e, p⟩ - hover
    obtain ⟨hindex, hp⟩ := (isrRun_over_iff hv hk (e, p)).mp hover
    exact hnot e p hindex hp

/-- Each part of the address of a hooked gate. -/
theorem member_efiIdtInit (e : Exception) (p : IsrPart) :
    member p.size (efiIdtInit idtr mem customIdt stub) (gateAt customIdt e.index) p.offset =
      (stub e >>> (8 * p.skip)).setWidth (8 * p.size) := by
  refine load_of_bytes fun i hi ↦ ?_
  have hp : p.Has (p.offset + i) := ⟨Nat.le_add_right _ _, Nat.add_lt_add_left hi _⟩
  have haddr : gateAt customIdt e.index + BitVec.ofNat 64 p.offset + BitVec.ofNat 64 i =
      customIdt + BitVec.ofNat 64 (16 * e.index + (p.offset + i)) := by
    rw [gateAt, BitVec.add_assoc, BitVec.add_assoc, ← BitVec.ofNat_add, ← BitVec.ofNat_add]
  rw [haddr, efiIdtInit_of_has hp, Nat.add_sub_cancel_left]
  apply BitVec.eq_of_getLsbD_eq
  intro b hb
  have hin : 8 * i + b < 8 * p.size := by omega
  simp [hb, hin]

end bytes

/-- The three parts make up the address. -/
theorem isrParts_eq (ptr : BitVec 64) :
    ((ptr >>> 0).setWidth 16).setWidth 64 ||| (((ptr >>> 16).setWidth 16).setWidth 64 <<< 16) |||
      (((ptr >>> 32).setWidth 32).setWidth 64 <<< 32) = ptr := by
  apply BitVec.eq_of_getLsbD_eq
  intro i hi
  simp only [BitVec.getLsbD_or, BitVec.getLsbD_shiftLeft, BitVec.getLsbD_setWidth,
    BitVec.getLsbD_ushiftRight]
  by_cases h16 : i < 16
  · have h32 : i < 32 := by omega
    simp [hi, h16, h32]
  · by_cases h32 : i < 32
    · have hmid : i - 16 < 16 := by omega
      have hsum : 16 + (i - 16) = i := by omega
      have hlt : i - 16 < 64 := by omega
      simp [hi, h16, h32, hmid, hsum, hlt]
    · have hmid : ¬ i - 16 < 16 := by omega
      have hhigh : i - 32 < 32 := by omega
      have hsum : 32 + (i - 32) = i := by omega
      have hlt : i - 32 < 64 := by omega
      simp [hi, h16, h32, hmid, hhigh, hsum, hlt]

/-! ## The gates and the array -/

section gates

variable (idtr : SegmentDescriptorRegister64) (mem : Mem) (customIdt : BitVec 64)
  (stub : Exception → BitVec 64)

/-- A hooked gate points to its stub, whatever the size of the table. -/
theorem handlerAddress_efiIdtInit (e : Exception) :
    handlerAddress (efiIdtInit idtr mem customIdt stub) (gateAt customIdt e.index) = stub e := by
  have hlow : member 2 (efiIdtInit idtr mem customIdt stub) (gateAt customIdt e.index) 0 =
      (stub e >>> 0).setWidth 16 := member_efiIdtInit e .low
  have hmid : member 2 (efiIdtInit idtr mem customIdt stub) (gateAt customIdt e.index) 6 =
      (stub e >>> 16).setWidth 16 := member_efiIdtInit e .mid
  have hhigh : member 4 (efiIdtInit idtr mem customIdt stub) (gateAt customIdt e.index) 8 =
      (stub e >>> 32).setWidth 32 := member_efiIdtInit e .high
  rw [handlerAddress, hlow, hmid, hhigh, isrParts_eq]

theorem gateAt_add (table : BitVec 64) (v k : Nat) :
    gateAt table v + BitVec.ofNat 64 k = table + BitVec.ofNat 64 (16 * v + k) := by
  rw [gateAt, BitVec.add_assoc, ← BitVec.ofNat_add]

variable {idtr mem customIdt stub} in
/-- A byte outside the addresses is that of the original table, when the last one is. -/
theorem efiIdtInit_copied {n v k : Nat} (hn : idtr.limit.toNat + 1 = 16 * n)
    (hlast : mem (customIdt + BitVec.ofNat 64 idtr.limit.toNat) =
      mem (idtr.baseAddress + BitVec.ofNat 64 idtr.limit.toNat)) (hv : v < n) (hk : k < 16)
    (hnot : ∀ (e : Exception) (p : IsrPart), e.index = v → ¬ p.Has k) :
    efiIdtInit idtr mem customIdt stub (gateAt customIdt v + BitVec.ofNat 64 k) =
      mem (gateAt idtr.baseAddress v + BitVec.ofNat 64 k) := by
  have hlimit := idtr.limit.isLt
  rw [gateAt_add, gateAt_add, efiIdtInit_of_not_has (by omega) hk hnot]
  split
  · rfl
  · have hend : 16 * v + k = idtr.limit.toNat := by omega
    rw [hend]
    exact hlast

variable {idtr mem customIdt stub} in
/-- The members of a gate that are not part of the address. -/
theorem sameRights_efiIdtInit {n v : Nat} (hn : idtr.limit.toNat + 1 = 16 * n)
    (hlast : mem (customIdt + BitVec.ofNat 64 idtr.limit.toNat) =
      mem (idtr.baseAddress + BitVec.ofNat 64 idtr.limit.toNat)) (hv : v < n) :
    SameRights mem (gateAt idtr.baseAddress v) (efiIdtInit idtr mem customIdt stub)
      (gateAt customIdt v) := by
  have hmember (size off : Nat) (hoff : off + size ≤ 16)
      (h : off = 2 ∧ size ≤ 4 ∨ 4 ≤ off ∧ off + size ≤ 6 ∨ 12 ≤ off) :
      member size (efiIdtInit idtr mem customIdt stub) (gateAt customIdt v) off =
        member size mem (gateAt idtr.baseAddress v) off := by
    refine load_eq_load_iff.mpr fun i hi ↦ ?_
    rw [BitVec.add_assoc, BitVec.add_assoc, ← BitVec.ofNat_add]
    refine efiIdtInit_copied hn hlast hv (by omega) fun e p _ ↦ ?_
    cases p <;> simp only [IsrPart.Has, IsrPart.offset, IsrPart.size] <;> omega
  exact ⟨hmember 2 2 (by decide) (by decide), hmember 1 4 (by decide) (by decide),
    hmember 1 5 (by decide) (by decide), hmember 4 12 (by decide) (by decide)⟩

/-- The last byte of the table belongs to no part of an address, and is not copied. -/
theorem lastByte_of_gatesCloned {n : Nat} (hn : idtr.limit.toNat + 1 = 16 * n)
    (h : GatesCloned n mem idtr.baseAddress (efiIdtInit idtr mem customIdt stub) customIdt stub) :
    mem (customIdt + BitVec.ofNat 64 idtr.limit.toNat) =
      mem (idtr.baseAddress + BitVec.ofNat 64 idtr.limit.toNat) := by
  have hlimit := idtr.limit.isLt
  have hlast : 16 * (n - 1) + 15 = idtr.limit.toNat := by omega
  have hbyte : efiIdtInit idtr mem customIdt stub
      (customIdt + BitVec.ofNat 64 (16 * (n - 1) + 15)) = _ :=
    efiIdtInit_of_not_has (by omega) (by decide) fun e p _ hp ↦ absurd hp.lt (by decide)
  rw [if_neg (by omega)] at hbyte
  rw [← hlast, ← hbyte, ← gateAt_add, ← gateAt_add]
  by_cases hhook : ∃ e : Exception, e.index = n - 1
  · obtain ⟨e, he⟩ := hhook
    have hreserved := (h.rights e (by omega)).reserved
    rw [he] at hreserved
    have hthird := load_eq_load_iff.mp hreserved 3 (by decide)
    rwa [BitVec.add_assoc, BitVec.add_assoc] at hthird
  · exact h.others (n - 1) (by omega) (fun e he ↦ hhook ⟨e, he⟩) 15 (by decide)

/-- The gates are cloned and hooked exactly when the byte that is not copied happens to be
right already. -/
theorem gatesCloned_iff (hdvd : 16 ∣ idtr.limit.toNat + 1) :
    GatesCloned ((idtr.limit.toNat + 1) / 16) mem idtr.baseAddress
        (efiIdtInit idtr mem customIdt stub) customIdt stub ↔
      mem (customIdt + BitVec.ofNat 64 idtr.limit.toNat) =
        mem (idtr.baseAddress + BitVec.ofNat 64 idtr.limit.toNat) := by
  obtain ⟨n, hn⟩ := hdvd
  have hcount : (idtr.limit.toNat + 1) / 16 = n := by omega
  rw [hcount]
  constructor
  · exact lastByte_of_gatesCloned idtr mem customIdt stub hn
  · intro hlast
    refine ⟨handlerAddress_efiIdtInit idtr mem customIdt stub,
      fun e he ↦ sameRights_efiIdtInit hn hlast he, fun v hv hne k hk ↦ ?_⟩
    exact efiIdtInit_copied hn hlast hv hk fun e _ he ↦ absurd he (hne e)

/-- The copy writes behind the array. -/
theorem copyRun_not_inside (hdvd : 16 ∣ idtr.limit.toNat + 1) :
    ∃ x, (copyRun idtr mem customIdt).Over x ∧ ¬ (x - customIdt).toNat < customIdtSize idtr := by
  have hlimit := idtr.limit.isLt
  have hlt : customIdtSize idtr < 2 ^ 64 := by
    unfold customIdtSize idtEntries
    omega
  have hself := toNat_add_sub_self customIdt hlt
  refine ⟨customIdt + BitVec.ofNat 64 (customIdtSize idtr), ?_, ?_⟩
  · change (customIdt + BitVec.ofNat 64 (customIdtSize idtr) - customIdt).toNat < idtr.limit.toNat
    rw [hself]
    unfold customIdtSize idtEntries
    omega
  · rw [hself]
    exact Nat.lt_irrefl _

/-- No table is cloned within its array.  The gates themselves are right exactly when one
byte is right beforehand (`gatesCloned_iff`). -/
theorem not_clonesIdt (idtr : SegmentDescriptorRegister64) (mem : Mem) (customIdt : BitVec 64)
    (stub : Exception → BitVec 64) (hdvd : 16 ∣ idtr.limit.toNat + 1) :
    ¬ ClonesIdt idtr mem customIdt stub := by
  intro h
  obtain ⟨x, hover, hout⟩ := copyRun_not_inside idtr mem customIdt hdvd
  exact hout (h.inside _ List.mem_cons_self x hover)

end gates

/-! ## Two tables -/

/-- A table of 256 gates. -/
theorem not_clonesIdt_fullTable :
    ¬ ClonesIdt ⟨0xFFF, 0x1000⟩ (fun _ ↦ 0) 0x200000 fun _ ↦ 0x300000 :=
  not_clonesIdt ⟨0xFFF, 0x1000⟩ (fun _ ↦ 0) 0x200000 (fun _ ↦ 0x300000) (by decide)

/-- Of a table of 32 gates byte `0x1FE` is copied behind the 31 of the array. -/
theorem not_clonesIdt_exceptionTable :
    ¬ ClonesIdt ⟨0x1FF, 0x1000⟩ (fun _ ↦ 0) 0x200000 fun _ ↦ 0x300000 :=
  fun h ↦ absurd (h.inside _ List.mem_cons_self 0x2001FE (by decide)) (by decide)

end Hypervi.Loader
