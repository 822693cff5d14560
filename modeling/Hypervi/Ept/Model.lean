import Hypervi.Freestanding.PtHelper
import Hypervi.Memory.Pages
import Hypervi.Mtrr.Model

/-!
# The EPT: `ept_init_core` and `ept_resolve_entries`

The second half of `hypervisor/ept.cc`.  `ept_init_core` builds an identity
mapping of the first 512 GiB, with large pages where one memory type covers them;
`ept_resolve_entries` finds the entries for an address again.

* `ldr_malloc` is the sequence `alloc` of the pages it returns, call by call, and
  `memset` clears the page.
* A pointer to an entry is its address, and an assignment to a bit-field reads
  the 64-bit entry, replaces the field and writes the entry back.
* `BuildState.pd` and `BuildState.pt` record which call returned the page
  directory of a PDPT entry and the page table of a PD entry.  The code keeps
  these pages only in local variables, and nothing here reads the record.
* Log output is left out, and with it the comparison of `pt->memory_type` that
  only logs.
-/

namespace Hypervi.Ept

open Bits Ia32 Memory Mtrr Freestanding

/-! ## Entries -/

/-- `e->field = v;` -/
def assign (field : Field) (v e : BitVec 64) (m : Mem) : Mem :=
  store64 m e (field.set (load64 m e) v)

/-- The three assignments that allow every access. -/
def allowAccess (e : BitVec 64) (m : Mem) : Mem :=
  let m := assign readAccess 1 e m
  let m := assign writeAccess 1 e m
  assign executeAccess 1 e m

/-- The assignments to `pml4` and to `pdpt`. -/
def writeTableEntry (e page : BitVec 64) (m : Mem) : Mem :=
  let m := store64 m e 0
  let m := allowAccess e m
  assign pageFrameNumber (page >>> 12) e m

/-- The assignments to `pde`. -/
def writePde (e page : BitVec 64) (m : Mem) : Mem :=
  let m := store64 m e 0
  let m := assign pageFrameNumber (page >>> 12) e m
  allowAccess e m

/-- The assignments to `pde_big`. -/
def writePdeBig (e addr : BitVec 64) (memType : MemoryType) (m : Mem) : Mem :=
  let m := store64 m e 0
  let m := allowAccess e m
  let m := assign largePage 1 e m
  let m := assign leafMemoryType (memType.setWidth 64) e m
  assign Epde2mb.pageFrameNumber (addr >>> 12) e m

/-- The assignments to `pt`. -/
def writePte (e addr : BitVec 64) (memType : MemoryType) (m : Mem) : Mem :=
  let m := store64 m e 0
  let m := allowAccess e m
  let m := assign leafMemoryType (memType.setWidth 64) e m
  assign pageFrameNumber (addr >>> 12) e m

/-! ## `ept_init_core` -/

/-- Memory, the number of calls of `ldr_malloc` made so far, and the record of
what they were for. -/
structure BuildState where
  mem : Mem
  calls : Nat
  /-- The call that returned the page directory of the `i`-th PDPT entry. -/
  pd : Nat → Nat
  /-- The call that returned the page table of the `j`-th entry of that directory. -/
  pt : Nat → Nat → Nat

/-- What `ept_init_core` leaves: the tables, and `structs.ptr`. -/
structure EptState extends BuildState where
  ptr : BitVec 64

/-- `ldr_malloc(0x1000)` and `memset(page, 0, 0x1000)`; the page is
`alloc s.calls`. -/
def BuildState.zeroedPage (alloc : Nat → BitVec 64) (s : BuildState) : BuildState :=
  { s with mem := memset s.mem (alloc s.calls) 0 0x1000, calls := s.calls + 1 }

/-- `pt_to_address(0, pdpt_i, pde_i, pt_i)` -/
def addressOf (pdptI pdeI ptI : Nat) : BitVec 64 :=
  ptToAddress 0 (BitVec.ofNat 32 pdptI) (BitVec.ofNat 32 pdeI) (BitVec.ofNat 32 ptI)

/-- The branch that splits a 2 MiB region into pages. -/
def splitPde (alloc : Nat → BitVec 64) (g : Globals) (pdes : BitVec 64) (pdptI pdeI : Nat)
    (s : BuildState) : BuildState :=
  let pts := alloc s.calls
  let record := fun i j ↦ if i = pdptI ∧ j = pdeI then s.calls else s.pt i j
  let s := { s.zeroedPage alloc with pt := record }
  let m := writePde (entryAt pdes pdeI) pts s.mem
  { s with
    mem := forRange 512 (fun ptI m ↦
      let addr := addressOf pdptI pdeI ptI
      writePte (entryAt pts ptI) addr (eptGetMemoryType g addr 0x1000) m) m }

/-- One iteration of the loop over the entries of a page directory. -/
def pdeStep (alloc : Nat → BitVec 64) (g : Globals) (pdes : BitVec 64) (pdptI pdeI : Nat)
    (s : BuildState) : BuildState :=
  let addr := addressOf pdptI pdeI 0
  let memType := eptGetMemoryType g addr 0x200000
  if memType ≠ memoryTypeInvalid then
    { s with mem := writePdeBig (entryAt pdes pdeI) addr memType s.mem }
  else splitPde alloc g pdes pdptI pdeI s

/-- One iteration of the loop over the PDPT. -/
def pdptStep (alloc : Nat → BitVec 64) (g : Globals) (pdpts : BitVec 64) (pdptI : Nat)
    (s : BuildState) : BuildState :=
  let pdes := alloc s.calls
  let record := fun i ↦ if i = pdptI then s.calls else s.pd i
  let s := { s.zeroedPage alloc with pd := record }
  let s := { s with mem := writeTableEntry (entryAt pdpts pdptI) pdes s.mem }
  forRange 512 (pdeStep alloc g pdes pdptI) s

/-- The value assigned to `structs.ptr`. -/
def eptPointer (pml4 : BitVec 64) : BitVec 64 :=
  let p := EptPointer.memoryType.set 0 (memoryTypeWriteBack.setWidth 64)
  let p := EptPointer.pageWalkLength.set p eptPageWalkLength4
  EptPointer.pageFrameNumber.set p (pml4 >>> 12)

/-- `ept_init_core` -/
def eptInitCore (alloc : Nat → BitVec 64) (g : Globals) (mem : Mem) : EptState :=
  let s : BuildState := ⟨mem, 0, fun _ ↦ 0, fun _ _ ↦ 0⟩
  let pml4 := alloc s.calls
  let s := s.zeroedPage alloc
  let pdpts := alloc s.calls
  let s := s.zeroedPage alloc
  let s := { s with mem := writeTableEntry pml4 pdpts s.mem }
  let s := forRange 512 (pdptStep alloc g pdpts) s
  { s with ptr := eptPointer pml4 }

/-! ## `ept_resolve_entries` -/

/-- One value for each of the four pointer parameters. -/
structure EntryPointers (α : Type) where
  pml4 : α
  pdpt : α
  pd : α
  pt : α
deriving DecidableEq, Repr

/-- What a call of `ept_resolve_entries` does: what it writes through each
parameter that is not null, whether it writes through a null one, and the
addresses of the entries it reads. -/
structure Resolved where
  outs : EntryPointers (Option (BitVec 64))
  writesNull : Bool
  reads : List (BitVec 64)
deriving DecidableEq, Repr

/-- `if (p != nullptr) *p = e;` -/
def writeIf (supplied : Bool) (e : BitVec 64) : Option (BitVec 64) :=
  if supplied then some e else none

/-- The table an entry points to: `page_frame_number << 12`. -/
def tableOf (e : BitVec 64) : BitVec 64 := pageFrameNumber.get e <<< 12

/-- `ept_resolve_entries`, where `eptPtr` is what `cpu_vmxread` returns for
`VMCS_CTRL_EPT_POINTER` and `supplied` tells which of the pointers are not null.
The pointer `pt` is assigned without a check when the entry maps a large page. -/
def eptResolveEntries (m : Mem) (eptPtr address : BitVec 64) (supplied : EntryPointers Bool) :
    Resolved :=
  let index := addressToPt address
  let pml4e := entryAt (EptPointer.pageFrameNumber.get eptPtr <<< 12) index.pml4.toNat
  let pdpte := entryAt (tableOf (load64 m pml4e)) index.pdpt.toNat
  let pde := entryAt (tableOf (load64 m pdpte)) index.pd.toNat
  let reads := [pml4e, pdpte, pde]
  let outs : EntryPointers (Option (BitVec 64)) :=
    ⟨writeIf supplied.pml4 pml4e, writeIf supplied.pdpt pdpte, writeIf supplied.pd pde, none⟩
  if largePage.test (load64 m pde) then
    { outs := { outs with pt := writeIf supplied.pt 0 }, writesNull := !supplied.pt, reads := reads }
  else
    let pte := entryAt (tableOf (load64 m pde)) index.pt.toNat
    { outs := { outs with pt := writeIf supplied.pt pte }, writesNull := false, reads := reads }

end Hypervi.Ept
