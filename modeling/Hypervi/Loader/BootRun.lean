import Hypervi.Loader.Boot

/-!
# The descriptor tables during a run of the loader

While the tables of the loader are in use, nothing that a stage writes is in them
(`Ready.tablesLoaded`), so that the exceptions that are hooked reach their stubs and the
descriptors of the firmware keep their meaning, the hypervisor's run included
(`Ready.idtInPlace`, `Ready.gdtInPlace`).

At the end the firmware has its tables back (`Ready.restored`), but the task register keeps a
selector that is not in its GDT, and two of the three blocks are not given back.
-/

namespace Hypervi.Loader

open Bits Ia32 Memory Freestanding Cpu Elf

/-! ## The stages of a run -/

/-- The tables of the loader are loaded, those of the firmware are remembered, and what the
loader owns is as `efi_gdt_init` left it. -/
structure TablesLoaded (img : LoaderImage) (p : BootPages) (s t : Boot) : Prop where
  idtr : t.idtr = ⟨s.idtr.limit, p.idt⟩
  tr : t.tr = trSelector s.gdtr
  efiIdtr : t.efiIdtr = s.idtr
  efiGdtr : t.efiGdtr = s.gdtr
  customIdt : t.customIdt = p.idt
  newGdt : t.newGdt = p.gdt
  freed : t.freed = s.freed
  owned : ∀ x, Owned img p s x → t.mem x =
    clonedGdt s.gdtr (efiIdtInit s.idtr s.mem p.idt img.stub) p.gdt img.newTss img.fills x

/-- A member depends on its bytes. -/
theorem member_congr {n off size : Nat} {m m' : Mem} {a : BitVec 64}
    (h : ∀ i < size, m' (a + BitVec.ofNat 64 i) = m (a + BitVec.ofNat 64 i))
    (hin : off + n ≤ size) : member n m' a off = member n m a off := by
  refine load_eq_load_iff.mpr fun i hi ↦ ?_
  rw [BitVec.add_assoc, ← BitVec.ofNat_add]
  exact h (off + i) (by omega)

theorem EncodesTss.congr {m m' : Mem} {entry tssPtr : BitVec 64} {flags2 : BitVec 8}
    (h : EncodesTss m entry tssPtr flags2)
    (hbytes : ∀ i < 16, m' (entry + BitVec.ofNat 64 i) = m (entry + BitVec.ofNat 64 i)) :
    EncodesTss m' entry tssPtr flags2 where
  low := (member_congr hbytes (by decide)).trans h.low
  middle := (member_congr hbytes (by decide)).trans h.middle
  high := (member_congr hbytes (by decide)).trans h.high
  upper := (member_congr hbytes (by decide)).trans h.upper
  flags1 := by
    rw [member_congr hbytes (by decide)]
    exact h.flags1
  flags2 := (member_congr hbytes (by decide)).trans h.flags2

theorem handlerAddress_congr {m m' : Mem} {gate : BitVec 64}
    (h : ∀ i < 16, m' (gate + BitVec.ofNat 64 i) = m (gate + BitVec.ofNat 64 i)) :
    handlerAddress m' gate = handlerAddress m gate := by
  rw [handlerAddress, member_congr h (by decide), member_congr h (by decide),
    member_congr h (by decide), handlerAddress]

section exec

variable (img : LoaderImage) {fw : BootFirmware} {p : BootPages} {s t : Boot} {live : List Block}

/-- `efi_idt_init`, when the firmware hands out a block. -/
theorem efiIdtInit_handOut (hpages : fw.idtPages = some p.idt)
    (hinv : Inv ⟨s.globals.allocations, live⟩) (hroom : live.length < allocationsMax)
    (hfree : (idtBlock p s).Free live) :
    (s.efiIdtInit img fw).idtr = ⟨s.idtr.limit, p.idt⟩ ∧
      (s.efiIdtInit img fw).customIdt = p.idt ∧
      (s.efiIdtInit img fw).mem = efiIdtInit s.idtr s.mem p.idt img.stub ∧
      Inv ⟨(s.efiIdtInit img fw).globals.allocations, idtBlock p s :: live⟩ := by
  obtain ⟨haddress, hinv'⟩ := hinv.handOut hroom hfree
  have hanswer : fw.idtPages = some (idtBlock p s).address := hpages
  change Cpu.SegmentDescriptorRegister64.mk _
      (efiAllocate _ (idtBlock p s).size fw.idtPages).2 = _ ∧
    (efiAllocate _ (idtBlock p s).size fw.idtPages).2 = _ ∧
    efiIdtInit s.idtr s.mem (efiAllocate _ (idtBlock p s).size fw.idtPages).2 img.stub = _ ∧
    Inv ⟨(efiAllocate _ (idtBlock p s).size fw.idtPages).1, _⟩
  rw [hanswer, haddress]
  exact ⟨rfl, rfl, rfl, hinv'⟩

/-- `efi_gdt_init`, when the firmware hands out a block. -/
theorem efiGdtInit_handOut (hgdtr : t.gdtr = s.gdtr) (hpages : fw.gdtPages = some p.gdt)
    (hinv : Inv ⟨t.globals.allocations, live⟩) (hroom : live.length < allocationsMax)
    (hfree : (gdtBlock p s).Free live) :
    (t.efiGdtInit img fw).gdtr = newGdtr s.gdtr p.gdt ∧
      (t.efiGdtInit img fw).newGdt = p.gdt ∧
      (t.efiGdtInit img fw).mem = clonedGdt s.gdtr t.mem p.gdt img.newTss img.fills ∧
      Inv ⟨(t.efiGdtInit img fw).globals.allocations, gdtBlock p s :: live⟩ := by
  obtain ⟨haddress, hinv'⟩ := hinv.handOut hroom hfree
  have hanswer : fw.gdtPages = some (gdtBlock p s).address := hpages
  have hblock : gdtBlock p t = gdtBlock p s := by rw [gdtBlock, hgdtr, gdtBlock]
  rw [← hblock] at haddress hinv' hanswer ⊢
  change newGdtr t.gdtr (efiAllocate _ (gdtBlock p t).size fw.gdtPages).2 = _ ∧
    (efiAllocate _ (gdtBlock p t).size fw.gdtPages).2 = _ ∧
    clonedGdt t.gdtr t.mem (efiAllocate _ (gdtBlock p t).size fw.gdtPages).2 img.newTss
      img.fills = _ ∧
    Inv ⟨(efiAllocate _ (gdtBlock p t).size fw.gdtPages).1, _⟩
  rw [hanswer, haddress, hgdtr]
  exact ⟨rfl, rfl, rfl, hinv'⟩

/-- `efi_loader_init`, when the file is found and the firmware hands out a block for it. -/
theorem efiLoaderInit_handOut {g : Globals} {b : Block} (hfile : fileBlock fw p s = some b)
    (hfs : g.filesystems = (efiFsInit fw.fs s.globals.filesystems.fsRoots).1)
    (hpages : fw.loader.bufferPages = some p.buffer)
    (hinv : Inv ⟨g.allocations, live⟩) (hroom : live.length < allocationsMax)
    (hfree : b.Free live) :
    (efiLoaderInit fw.loader g).visorReal = p.buffer ∧
      (efiLoaderInit fw.loader g).image.mem = (fileRun fw p.buffer).write g.image.mem ∧
      Inv ⟨(efiLoaderInit fw.loader g).allocations, b :: live⟩ := by
  obtain ⟨haddress, hinv'⟩ := hinv.handOut hroom hfree
  obtain ⟨hallocations, hreal, hmem⟩ := efiLoaderInit_of_some hfile hfs hpages
  have hreal' := hreal.trans (haddress.trans (fileBlock_address hfile))
  rw [hreal'] at hmem
  rw [hallocations]
  exact ⟨hreal', hmem, hinv'⟩

end exec

/-- Stages that change the globals only keep the tables, unless they write to what the loader
owns. -/
theorem TablesLoaded.withGlobals {img : LoaderImage} {p : BootPages} {s t : Boot}
    (h : TablesLoaded img p s t) {globals : Globals}
    (howned : ∀ x, Owned img p s x → globals.image.mem x = t.mem x) :
    TablesLoaded img p s { t with globals := globals } where
  idtr := h.idtr
  tr := h.tr
  efiIdtr := h.efiIdtr
  efiGdtr := h.efiGdtr
  customIdt := h.customIdt
  newGdt := h.newGdt
  freed := h.freed
  owned x hx := (howned x hx).trans (h.owned x hx)

section handsOut

variable (img : LoaderImage) {fw : BootFirmware} (env : Elf.Machine) (hypervisor : Mem → Mem)
  {p : BootPages} {live : List Block} {s : Boot}

/-- After `efi_gdt_init`. -/
theorem HandsOut.boot_two (h : HandsOut fw p live s) :
    TablesLoaded img p s (boot img fw env hypervisor s 2) ∧
      (boot img fw env hypervisor s 2).gdtr = newGdtr s.gdtr p.gdt ∧
      Inv ⟨(boot img fw env hypervisor s 2).globals.allocations,
        gdtBlock p s :: idtBlock p s :: live⟩ := by
  have hroom := h.room
  obtain ⟨hidtr, hidt, hmem, hinv⟩ := efiIdtInit_handOut img h.idtPages h.allocator
    (by omega) h.idt
  obtain ⟨hgdtr, hgdt, hmem', hinv'⟩ := efiGdtInit_handOut img (s := s)
    (t := s.efiIdtInit img fw) rfl h.gdtPages hinv (by rw [List.length_cons]; omega) h.gdt
  rw [hmem] at hmem'
  refine ⟨⟨hidtr, rfl, rfl, rfl, hidt, hgdt, rfl, fun x _ ↦ ?_⟩, hgdtr, hinv'⟩
  exact congrFun hmem' x

/-- After `efi_loader_init`, when the file is found. -/
theorem HandsOut.boot_four_file (h : HandsOut fw p live s) {b : Block}
    (hfile : fileBlock fw p s = some b) :
    (boot img fw env hypervisor s 4).globals.visorReal = p.buffer ∧
      (boot img fw env hypervisor s 4).mem =
        (fileRun fw p.buffer).write (boot img fw env hypervisor s 2).mem ∧
      Inv ⟨(boot img fw env hypervisor s 4).globals.allocations,
        b :: gdtBlock p s :: idtBlock p s :: live⟩ := by
  have hroom := h.room
  obtain ⟨-, -, hinv⟩ := h.boot_two img env hypervisor
  have hfs : (boot img fw env hypervisor s 3).globals.filesystems =
      (efiFsInit fw.fs s.globals.filesystems.fsRoots).1 := rfl
  exact efiLoaderInit_handOut hfile hfs h.bufferPages hinv
    (by simp only [List.length_cons]; omega) (h.file b hfile)

end handsOut

namespace Ready

variable {img : LoaderImage} {fw : BootFirmware} {env : Elf.Machine} {hypervisor : Mem → Mem}
  {p : BootPages} {live : List Block} {s : Boot} (h : Ready img fw env hypervisor p live s)

include h

/-- The block of the file is apart from what the loader owns. -/
theorem not_owned_of_covers {b : Block} (hfile : fileBlock fw p s = some b) {x : BitVec 64}
    (hx : b.Covers x) : ¬ Owned img p s x := by
  have hfree := h.file b hfile
  rintro (hidt | hgdt | htss)
  · exact (hfree.disjoint _ (List.mem_cons_of_mem _ List.mem_cons_self)).bytes x hx hidt
  · exact (hfree.disjoint _ List.mem_cons_self).bytes x hx hgdt
  · exact absurd ((h.read b hfile).2 x hx) (Nat.not_le.mpr htss)

/-- After `efi_loader_init`. -/
theorem boot_four :
    TablesLoaded img p s (boot img fw env hypervisor s 4) ∧
      Inv ⟨(boot img fw env hypervisor s 4).globals.allocations,
        (fileBlock fw p s).toList ++ gdtBlock p s :: idtBlock p s :: live⟩ := by
  have hroom := h.room
  obtain ⟨htwo, -, hinv⟩ := h.toHandsOut.boot_two img env hypervisor
  have hthree : TablesLoaded img p s (boot img fw env hypervisor s 3) :=
    htwo.withGlobals fun _ _ ↦ rfl
  have hfs : (boot img fw env hypervisor s 3).globals.filesystems =
      (efiFsInit fw.fs s.globals.filesystems.fsRoots).1 := rfl
  cases hfile : fileBlock fw p s with
  | none =>
      obtain ⟨himage, hallocations⟩ := efiLoaderInit_of_none hfile hfs
      refine ⟨hthree.withGlobals fun x _ ↦ congrFun (congrArg Image.mem himage) x, ?_⟩
      rw [Option.toList_none, List.nil_append]
      exact hallocations ▸ hinv
  | some b =>
      obtain ⟨-, hmem, hinv'⟩ := h.toHandsOut.boot_four_file img env hypervisor hfile
      refine ⟨hthree.withGlobals fun x hx ↦ (congrFun hmem x).trans ?_, hinv'⟩
      refine Run.write_of_not_over (fun hover ↦ h.not_owned_of_covers hfile ?_ hx) _
      have hread := (h.read b hfile).1
      have haddress := fileBlock_address hfile
      apply Block.covers_of_lt (h.file b hfile).size
      rw [haddress]
      exact Nat.lt_of_lt_of_le hover hread

/-- From `efi_gdt_init` to `efi_gdt_exit`. -/
theorem tablesLoaded {k : Nat} (hfrom : 2 ≤ k) (hto : k ≤ 6) :
    TablesLoaded img p s (boot img fw env hypervisor s k) := by
  obtain ⟨htwo, -⟩ := h.toHandsOut.boot_two img env hypervisor
  obtain ⟨hfour, -⟩ := h.boot_four
  have hfive : TablesLoaded img p s (boot img fw env hypervisor s 5) := by
    refine hfour.withGlobals fun x hx ↦ (h.hypervisor _ x hx).trans ?_
    refine ElfMapper.mapTo_mem_of_not_wrote _ _ _ fun hwrote ↦ h.image x ?_ hx
    have hmapped : (boot img fw env hypervisor s 4).globals.visorMapped = s.globals.visorMapped :=
      visorMapped_efiLoaderInit _ _
    rw [← hmapped]
    exact (ElfMapper.mapTo_inside_iff _ env _ _).mpr h.fits x hwrote
  obtain rfl | rfl | rfl | rfl | rfl : k = 2 ∨ k = 3 ∨ k = 4 ∨ k = 5 ∨ k = 6 := by omega
  · exact htwo
  · exact htwo.withGlobals fun _ _ ↦ rfl
  · exact hfour
  · exact hfive
  · exact ⟨hfive.idtr, hfive.tr, hfive.efiIdtr, hfive.efiGdtr, hfive.customIdt, hfive.newGdt,
      hfive.freed, hfive.owned⟩

/-- A page of the loader's IDT. -/
theorem mem_of_idtBlock {k : Nat} (hfrom : 1 ≤ k) (hto : k ≤ 6) {x : BitVec 64}
    (hx : (idtBlock p s).Covers x) : (boot img fw env hypervisor s k).mem x =
      efiIdtInit s.idtr s.mem p.idt img.stub x := by
  obtain rfl | hfrom := Nat.eq_or_lt_of_le hfrom
  · obtain ⟨-, -, hmem, -⟩ := efiIdtInit_handOut img h.idtPages h.allocator
      (by have := h.room; omega) h.idt
    exact congrFun hmem x
  · rw [(h.tablesLoaded hfrom hto).owned x (.inl hx)]
    apply clonedGdt_of_not_covers h.toFirmwareTables
    · exact fun hgdt ↦ (h.gdt.disjoint _ List.mem_cons_self).bytes x hgdt hx
    · exact Nat.le_of_not_lt fun htss ↦ (h.tss x htss).1 hx

theorem idtr_boot {k : Nat} (hfrom : 1 ≤ k) (hto : k ≤ 6) :
    (boot img fw env hypervisor s k).idtr = ⟨s.idtr.limit, p.idt⟩ ∧
      (boot img fw env hypervisor s k).customIdt = p.idt ∧
      (boot img fw env hypervisor s k).freed = s.freed := by
  obtain rfl | hfrom := Nat.eq_or_lt_of_le hfrom
  · obtain ⟨hidtr, hidt, -⟩ := efiIdtInit_handOut img h.idtPages h.allocator
      (by have := h.room; omega) h.idt
    exact ⟨hidtr, hidt, rfl⟩
  · have hloaded := h.tablesLoaded hfrom hto
    exact ⟨hloaded.idtr, hloaded.customIdt, hloaded.freed⟩

end Ready

/-! ## A small run -/

theorem Block.disjoint_of_apart {b c : Block} (hne : b.address ≠ c.address)
    (h : Apart c.address (pageBytes (numPages c.size)) b.address (pageBytes (numPages b.size))) :
    b.Disjoint c := ⟨hne, fun _ hx ↦ h.not_lt hx⟩

/-- A loader whose stubs and task state segment are somewhere else. -/
def smallImage : LoaderImage where
  stub _ := 0x300000
  newTss := 0x400000
  fills := ⟨0, 0⟩
  exports := ⟨0, 0, 0, 0, 0, 0⟩

/-- An image of one segment. -/
def segmentFile : Mem := fileOf (ehdrMembers 64 1 0 0 0 ++ phdrMembers 64 1 0 0 120 0x200)

/-- A firmware with one volume, which has that file. -/
def smallFirmware : BootFirmware where
  idtPages := some 0x200000
  gdtPages := some 0x210000
  fs := ⟨some 1, fun _ ↦ true, fun _ ↦ some 0x2000⟩
  loader := {
    openFile _ _ _ _ := some 0x1000
    getInfo := some 120
    bufferPages := some 0x220000
    read := ⟨true, (List.range 120).map fun i ↦ segmentFile (BitVec.ofNat 64 i)⟩
    imagePages := some 0x500000 }

def smallPages : BootPages := ⟨0x200000, 0x210000, 0x220000⟩

/-- The firmware's tables have 256 gates and six descriptors. -/
def smallBoot : Boot where
  idtr := ⟨0xFFF, 0x1000⟩
  gdtr := ⟨0x2F, 0x3000⟩
  tr := 0
  interrupts := true
  efiIdtr := ⟨0, 0⟩
  efiGdtr := ⟨0, 0⟩
  customIdt := 0
  newGdt := 0
  globals := .initial ⟨fun _ ↦ 0, 0⟩ State.initial.table fun _ ↦ 0
  freed := []

theorem fileBlock_smallBoot :
    fileBlock smallFirmware smallPages smallBoot = some ⟨0x220000, 120⟩ := rfl

theorem handsOut_smallBoot : HandsOut smallFirmware smallPages [] smallBoot where
  allocator := Inv.initial
  room := by
    unfold allocationsMax
    decide
  idtPages := rfl
  gdtPages := rfl
  bufferPages := rfl
  idt := ⟨by decide, by decide, fun _ hc ↦ absurd hc List.not_mem_nil⟩
  gdt := by
    refine ⟨by decide, by decide, fun c hc ↦ ?_⟩
    obtain rfl := List.mem_singleton.mp hc
    exact Block.disjoint_of_apart (by decide) (by decide)
  file b hb := by
    obtain rfl := Option.some.inj (fileBlock_smallBoot.symm.trans hb)
    refine ⟨by decide, by decide, fun c hc ↦ ?_⟩
    simp only [List.mem_cons, List.not_mem_nil, or_false] at hc
    obtain rfl | rfl := hc
    · exact Block.disjoint_of_apart (by decide) (by decide)
    · exact Block.disjoint_of_apart (by decide) (by decide)

theorem firmwareTables_smallBoot : FirmwareTables smallPages smallBoot where
  idt_min := by decide
  idt_max := by decide
  gdt_dvd := by decide
  gdt_min := by decide
  gdt_max := by decide
  gdt_apart := by
    unfold Block.Covers
    decide

/-- The mapper reads the file from its block. -/
theorem loaderMapper_smallBoot : (loaderMapper smallImage.exports
      (boot smallImage smallFirmware ElfMapper.zeroMachine id smallBoot 4).globals).Fits ∧
    (loaderMapper smallImage.exports
      (boot smallImage smallFirmware ElfMapper.zeroMachine id smallBoot 4).globals).allocated =
        4096 := by
  obtain ⟨hreal, hmem, -⟩ := handsOut_smallBoot.boot_four_file smallImage
    ElfMapper.zeroMachine id fileBlock_smallBoot
  have hfile : (fun off ↦ (boot smallImage smallFirmware ElfMapper.zeroMachine id smallBoot
      4).globals.image.mem ((boot smallImage smallFirmware ElfMapper.zeroMachine id smallBoot
      4).globals.visorReal + off)) = fun off ↦ (fileRun smallFirmware 0x220000).write
        (boot smallImage smallFirmware ElfMapper.zeroMachine id smallBoot 2).mem
        (0x220000 + off) := by
    funext off
    rw [hreal]
    exact congrFun hmem _
  rw [loaderMapper, hfile]
  have hshnum : (ElfMapper.ofFile (fun off ↦ (fileRun smallFirmware 0x220000).write
      (boot smallImage smallFirmware ElfMapper.zeroMachine id smallBoot 2).mem (0x220000 + off))
      (efiLoaderImports smallImage.exports)).shnum = 0 := by decide +kernel
  refine ⟨⟨by decide +kernel, by decide +kernel, fun g hg ↦ ?_, fun i _ hreloc ↦ ?_⟩,
    by decide +kernel⟩
  · rw [hshnum] at hg
    exact absurd hg (Nat.not_lt_zero g)
  · have hi := hreloc.1
    rw [hshnum] at hi
    exact absurd hi (Nat.not_lt_zero i)

theorem not_owned_smallBoot {x a : BitVec 64} {n : Nat} (hx : (x - a).toNat < n)
    (hidt : Apart 0x200000 4096 a n) (hgdt : Apart 0x210000 4096 a n)
    (htss : Apart 0x400000 tssSize a n) : ¬ Owned smallImage smallPages smallBoot x := by
  rintro (h | h | h)
  · exact hidt.not_lt hx ((idtBlock_covers_iff firmwareTables_smallBoot).mp h)
  · exact hgdt.not_lt hx h
  · exact htss.not_lt hx h

theorem ready_smallBoot : Ready smallImage smallFirmware ElfMapper.zeroMachine id smallPages []
    smallBoot where
  toHandsOut := handsOut_smallBoot
  toFirmwareTables := firmwareTables_smallBoot
  tss x hx := by
    have hidt : Apart 0x200000 4096 0x400000 tssSize := by decide
    have hgdt : Apart 0x210000 4096 0x400000 tssSize := by decide
    exact ⟨fun h ↦ hidt.not_lt hx ((idtBlock_covers_iff firmwareTables_smallBoot).mp h),
      fun h ↦ hgdt.not_lt hx h⟩
  read b hb := by
    obtain rfl := Option.some.inj (fileBlock_smallBoot.symm.trans hb)
    have hbuffer : Apart 0x400000 tssSize 0x220000 4096 := by decide
    exact ⟨by decide, fun x hx ↦ Nat.le_of_not_lt (hbuffer.not_lt hx)⟩
  fits := loaderMapper_smallBoot.1
  image x hx := by
    rw [ElfMapper.InPages, loaderMapper_smallBoot.2] at hx
    exact not_owned_smallBoot hx (by decide) (by decide) (by decide)
  hypervisor _ _ _ := rfl

/-! ## The tables -/

section tables

variable {img : LoaderImage} {fw : BootFirmware} {env : Elf.Machine} {hypervisor : Mem → Mem}
  {p : BootPages} {live : List Block} {s : Boot}

/-- **The IDT stays in place** from `efi_idt_init` to `efi_idt_exit`. -/
theorem Ready.idtInPlace (h : Ready img fw env hypervisor p live s) {k : Nat} (hfrom : 1 ≤ k)
    (hto : k ≤ 6) :
    IdtInPlace img s (boot img fw env hypervisor s k) := by
  obtain ⟨hidtr, hidt, hfreed⟩ := h.idtr_boot hfrom hto
  have hmax := h.idt_max
  have hbyte {off : Nat} (hoff : off < 4096) :
      (boot img fw env hypervisor s k).mem (p.idt + BitVec.ofNat 64 off) =
        efiIdtInit s.idtr s.mem p.idt img.stub (p.idt + BitVec.ofNat 64 off) := by
    apply h.mem_of_idtBlock hfrom hto
    rw [idtBlock_covers_iff h.toFirmwareTables, toNat_add_sub_self _ (by omega)]
    exact hoff
  refine ⟨by rw [hidtr, hidt], hfreed, fun e ↦ ?_, fun v i hi hlimit hnot ↦ ?_⟩
  · have hindex := e.index_lt
    rw [hidtr, ← handlerAddress_efiIdtInit s.idtr s.mem p.idt img.stub e]
    apply handlerAddress_congr
    intro i hi
    rw [gateAt_add]
    exact hbyte (by omega)
  · rw [hidtr, gateAt_add, gateAt_add, hbyte (by omega),
      efiIdtInit_of_not_has (by omega) hi hnot, if_pos hlimit]

theorem idtInPlace_smallBoot : IdtInPlace smallImage smallBoot
    (boot smallImage smallFirmware ElfMapper.zeroMachine id smallBoot 6) :=
  ready_smallBoot.idtInPlace (by decide) (by decide)

/-- **The GDT stays in place** from `efi_gdt_init` to `efi_gdt_exit`. -/
theorem Ready.gdtInPlace (h : Ready img fw env hypervisor p live s) {k : Nat} (hfrom : 2 ≤ k)
    (hto : k ≤ 5) :
    GdtInPlace img s (boot img fw env hypervisor s k) := by
  have hloaded := h.tablesLoaded hfrom (by omega)
  have hgdtr : (boot img fw env hypervisor s k).gdtr = newGdtr s.gdtr p.gdt := by
    obtain ⟨-, hgdtr, -⟩ := h.toHandsOut.boot_two img env hypervisor
    obtain rfl | rfl | rfl | rfl : k = 2 ∨ k = 3 ∨ k = 4 ∨ k = 5 := by omega
    all_goals exact hgdtr
  have hmin := h.gdt_min
  have hmax := h.gdt_max
  have hapart : Apart img.newTss tssSize p.gdt (newGdtSize s.gdtr) := by
    refine apart_of_disjoint (by decide) (by rw [newGdtSize]; omega) fun x htss hgdt ↦ ?_
    exact (h.tss x htss).2 (gdtBlock_covers_of_lt hgdt)
  have hbyte {off : Nat} (hoff : off < newGdtSize s.gdtr) :
      (boot img fw env hypervisor s k).mem (p.gdt + BitVec.ofNat 64 off) =
        clonedGdt s.gdtr (efiIdtInit s.idtr s.mem p.idt img.stub) p.gdt img.newTss
          img.fills (p.gdt + BitVec.ofNat 64 off) := by
    apply hloaded.owned
    refine .inr (.inl (gdtBlock_covers_of_lt ?_))
    rw [newGdtSize, gdtEntries] at hoff
    rw [toNat_add_sub_self _ (by omega), newGdtSize, gdtEntries]
    exact hoff
  have hentry : tssDescriptor s.gdtr p.gdt = p.gdt + BitVec.ofNat 64 (s.gdtr.limit.toNat + 1) :=
    tssDescriptor_eq h.gdt_dvd hmax
  refine ⟨by rw [hgdtr, hloaded.newGdt], fun i hi ↦ ?_, hloaded.tr, ?_, fun i hi ↦ ?_⟩
  · rw [hgdtr]
    change (boot img fw env hypervisor s k).mem (p.gdt + BitVec.ofNat 64 i) = _
    rw [hbyte (by rw [newGdtSize, gdtEntries]; omega),
      clonedGdt_apply h.gdt_dvd hmax hapart (Nat.le_of_lt hi), if_pos hi,
      efiIdtInit_of_not_covers h.toFirmwareTables (h.gdt_apart i hi)]
  · rw [hgdtr]
    change EncodesTss _ (tssDescriptor s.gdtr p.gdt) img.newTss img.fills.descriptor
    have hencodes : EncodesTss
        (clonedGdt s.gdtr (efiIdtInit s.idtr s.mem p.idt img.stub) p.gdt img.newTss img.fills)
        (tssDescriptor s.gdtr p.gdt) img.newTss img.fills.descriptor :=
      (encodesTss_efiGdtInit _ _ h.gdt_dvd hmax hapart).ltr
    refine hencodes.congr fun i hi ↦ ?_
    rw [hentry, BitVec.add_assoc, ← BitVec.ofNat_add]
    exact hbyte (by rw [newGdtSize, gdtEntries]; omega)
  · have hin : (img.newTss + BitVec.ofNat 64 i - img.newTss).toNat < tssSize := by
      rw [toNat_add_sub_self _ (by rw [tssSize] at hi; omega)]
      exact hi
    have hentry := le_sub_tssDescriptor h.toFirmwareTables (h.tss _ hin).2
    rw [hloaded.owned _ (.inr (.inr hin)), clonedGdt, ltr_of_outside hentry, efiGdtInit]
    exact if_pos hin

theorem gdtInPlace_smallBoot : GdtInPlace smallImage smallBoot
    (boot smallImage smallFirmware ElfMapper.zeroMachine id smallBoot 5) :=
  ready_smallBoot.gdtInPlace (by decide) (by decide)

/-- **What is left at the end.**  The blocks of the GDT and of the file stay allocated. -/
theorem Ready.restored (h : Ready img fw env hypervisor p live s) :
    Restored (idtBlock p s).entry ((fileBlock fw p s).toList ++ gdtBlock p s :: live) s
      (boot img fw env hypervisor s 7) := by
  have hloaded := h.tablesLoaded (k := 6) (by decide) (by decide)
  obtain ⟨-, hinv⟩ := h.boot_four
  have hallocations : (boot img fw env hypervisor s 6).globals.allocations =
      (boot img fw env hypervisor s 4).globals.allocations := rfl
  have hsplit : (fileBlock fw p s).toList ++ gdtBlock p s :: idtBlock p s :: live =
      ((fileBlock fw p s).toList ++ [gdtBlock p s]) ++ idtBlock p s :: live := by simp
  rw [hsplit, ← hallocations] at hinv
  obtain ⟨hcalls, hinv'⟩ := hinv.takeBack
  have hidt : (boot img fw env hypervisor s 6).customIdt = (idtBlock p s).address :=
    hloaded.customIdt
  have hmax := h.gdt_max
  have hexit : boot img fw env hypervisor s 7 =
      (boot img fw env hypervisor s 6).efiIdtExit := rfl
  have hgdtr : (boot img fw env hypervisor s 7).gdtr = s.gdtr :=
    (h.tablesLoaded (k := 5) (by decide) (by decide)).efiGdtr
  refine ⟨hloaded.efiIdtr, hgdtr, rfl, ?_, ?_, ?_⟩
  · have htr : (boot img fw env hypervisor s 7).tr = trSelector s.gdtr := hloaded.tr
    obtain ⟨n, hn⟩ := h.gdt_dvd
    rw [hgdtr, htr, toNat_index_trSelector hmax]
    omega
  · rw [hexit, Boot.efiIdtExit, Boot.freed_freePages, hidt, hcalls, ← hloaded.freed]
    rfl
  · rw [hexit, Boot.efiIdtExit, Boot.allocations_freePages, hidt]
    rw [List.append_assoc] at hinv'
    exact hinv'

theorem restored_smallBoot :
    Restored (idtBlock smallPages smallBoot).entry
      ((fileBlock smallFirmware smallPages smallBoot).toList ++ [gdtBlock smallPages smallBoot])
      smallBoot (boot smallImage smallFirmware ElfMapper.zeroMachine id smallBoot 7) :=
  ready_smallBoot.restored

end tables

end Hypervi.Loader
