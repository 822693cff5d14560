import Hypervi.Cpu.Init
import Hypervi.Freestanding.Macros

/-!
# VM exits and the stack of the host

A VM exit loads `rsp` from `VMCS_HOST_RSP` and runs `host_hv_entrypoint`, which saves the
registers of the guest on that stack and calls the handler.  `cpu_init` writes the lowest
address of `host_stack` to the field, and a stack grows down: what is pushed lands in
`core_msr_bitmap`, the member below.

* `written_mem_msrBitmap`: in every run, every word that the entry point writes lies in
  the bitmap.
* `holds_runExits`: after a run the end of the bitmap is the register file of the guest.
* `exits_confined_iff`: the stack keeps to `host_stack` in the runs without a VM exit.
-/

namespace Hypervi.Cpu

open Ia32 Memory X86 Freestanding Store

/-! ## The layout of `cpu_state` -/

namespace Core

variable (c : Core) (x : BitVec 64)

/-- The address of a byte of the `cpu_state`. -/
def InState : Prop := (x - c.state).toNat < 0x216000

/-- The address of a byte of `core_msr_bitmap`. -/
def InMsrBitmap : Prop := (x - c.coreMsrBitmap).toNat < 0x1000

/-- The address of a byte of `host_stack`. -/
def InHostStack : Prop := (x - c.hostStack).toNat < 0xFFFF

instance : Decidable (c.InState x) := inferInstanceAs (Decidable (_ < _))

instance : Decidable (c.InHostStack x) := inferInstanceAs (Decidable (_ < _))

theorem not_inHostStack_of_inMsrBitmap (h : c.InMsrBitmap x) : ¬ c.InHostStack x := by
  rw [InMsrBitmap, coreMsrBitmap] at h
  rw [InHostStack, hostStack]
  bv_omega

/-- The twenty words below `host_stack` are the end of `core_msr_bitmap`. -/
theorem inMsrBitmap_below {i j : Nat} (hi : i < 20) (hj : j < 8) :
    c.InMsrBitmap (c.hostStack - BitVec.ofNat 64 (8 * (i + 1)) + BitVec.ofNat 64 j) := by
  rw [InMsrBitmap, coreMsrBitmap, hostStack]
  have hi' : (BitVec.ofNat 64 (8 * (i + 1))).toNat = 8 * (i + 1) :=
    Nat.mod_eq_of_lt (by omega)
  have hj' : (BitVec.ofNat 64 j).toNat = j := Nat.mod_eq_of_lt (by omega)
  bv_omega

end Core

/-! ## The entry point -/

/-- `host_hv_entrypoint` between the pushes and the pops. -/
def hostHvCall (hostVmexitPtr returnAddress : BitVec 64) (handler : Machine → Machine) :
    List Instr :=
  [ .mov .rdi .rsp,
    .sub .rsp 0x20,
    .movImm .rsi hostVmexitPtr,
    .call returnAddress handler,
    .add .rsp 0x20 ]

/-- `host_hv_entrypoint` up to its `vmresume`. -/
def hostHvEntrypoint (hostVmexitPtr returnAddress : BitVec 64) (handler : Machine → Machine) :
    List Instr :=
  pushGpRegs ++ (hostHvCall hostVmexitPtr returnAddress handler ++ popGpRegs)

section code

variable (hostVmexitPtr returnAddress : BitVec 64) (handler : Machine → Machine) (s : Machine)

theorem run_pushGpRegs_rsp : (run pushGpRegs s).rsp = s.rsp - 120 := by
  have hlen : 8 * (gpRegs.reverse.map s.regs).length = 120 := by simp [gpRegs]
  rw [run_pushGpRegs, Machine.pushes_rsp, hlen, BitVec.ofNat_eq_ofNat]

/-- The machine on which the handler is called. -/
def hostHvCalled : Machine :=
  (((s.set .rdi s.rsp).set .rsp (s.rsp - 0x20)).set .rsi hostVmexitPtr).push returnAddress

theorem hostHvCalled_rsp : (hostHvCalled hostVmexitPtr returnAddress s).rsp = s.rsp - 40 := by
  rw [hostHvCalled, Machine.push_rsp, Machine.rsp, Machine.set_regs_of_ne _ _ (by decide),
    Machine.set_regs_self]
  bv_omega

theorem hostHvCalled_mem :
    (hostHvCalled hostVmexitPtr returnAddress s).mem =
      store64 s.mem (s.rsp - 40) returnAddress := by
  have hrsp := hostHvCalled_rsp hostVmexitPtr returnAddress s
  rw [hostHvCalled, Machine.push_rsp] at hrsp
  rw [hostHvCalled, Machine.push_mem, hrsp]
  rfl

theorem run_hostHvCall :
    run (hostHvCall hostVmexitPtr returnAddress handler) s =
      (handler (hostHvCalled hostVmexitPtr returnAddress s)).set .rsp
        ((handler (hostHvCalled hostVmexitPtr returnAddress s)).rsp + 0x20) := by
  simp only [hostHvCall, run, Instr.exec]
  rfl

theorem run_hostHvEntrypoint_mem :
    (run (hostHvEntrypoint hostVmexitPtr returnAddress handler) s).mem =
      (handler (hostHvCalled hostVmexitPtr returnAddress (run pushGpRegs s))).mem := by
  rw [hostHvEntrypoint, run_append, run_append, popGpRegs_eq, run_pop_mem, run_hostHvCall,
    Machine.set_mem]

/-- Besides the registers the entry point writes one word, the return address. -/
theorem stores_hostHvEntrypoint :
    stores (hostHvEntrypoint hostVmexitPtr returnAddress handler) s =
      stores pushGpRegs s ++ [s.rsp - 160] := by
  have hcall (t : Machine) :
      stores (hostHvCall hostVmexitPtr returnAddress handler ++ popGpRegs) t = [t.rsp - 40] := by
    rw [stores_append, popGpRegs_eq, stores_pop, List.append_nil, ← hostHvCalled_rsp hostVmexitPtr
      returnAddress t, hostHvCalled, Machine.push_rsp]
    rfl
  have hdown : s.rsp - 120 - 40 = s.rsp - 160 := by bv_omega
  rw [hostHvEntrypoint, stores_append, hcall, run_pushGpRegs_rsp, hdown]

/-- The words that the entry point writes are among the twenty below its `rsp`. -/
theorem exists_of_mem_stores {a : BitVec 64}
    (h : a ∈ stores (hostHvEntrypoint hostVmexitPtr returnAddress handler) s) :
    ∃ i < 20, a = s.rsp - BitVec.ofNat 64 (8 * (i + 1)) := by
  rw [stores_hostHvEntrypoint, List.mem_append, List.mem_singleton] at h
  rcases h with h | rfl
  · rw [pushGpRegs_eq, mem_stores_push] at h
    obtain ⟨i, hi, rfl⟩ := h
    exact ⟨i, Nat.lt_trans hi (by decide), rfl⟩
  · exact ⟨19, by decide, rfl⟩

/-- The first of them is just below. -/
theorem mem_stores_hostHvEntrypoint :
    s.rsp - 8 ∈ stores (hostHvEntrypoint hostVmexitPtr returnAddress handler) s := by
  rw [stores_hostHvEntrypoint, pushGpRegs_eq, List.mem_append, mem_stores_push]
  exact .inl ⟨0, by decide, rfl⟩

end code

/-- A handler that writes below its entry `rsp` only. -/
structure ExitHandler where
  run : Machine → Machine
  keeps : ∀ s x, s.rsp ≤ x → (run s).mem x = s.mem x

/-- A VM exit: the registers of the guest, what it wrote to its memory since the last
one, which is not the `cpu_state`, and the handler. -/
structure Exit (c : Core) where
  guest : Gpr → BitVec 64
  guestMem : Mem → Mem
  keeps : ∀ m x, c.InState x → guestMem m x = m x
  handler : ExitHandler

section run

variable {c : Core} (hostVmexitPtr returnAddress hostRsp : BitVec 64)

/-- The machine on which the processor enters the host. -/
def Exit.enter (e : Exit c) (mem : Mem) : Machine where
  regs := Function.update e.guest .rsp hostRsp
  mem := e.guestMem mem

/-- The code that a VM exit runs. -/
def Exit.code (e : Exit c) : List Instr :=
  hostHvEntrypoint hostVmexitPtr returnAddress e.handler.run

/-- The memory that a VM exit leaves. -/
def runExit (e : Exit c) (mem : Mem) : Mem :=
  (run (e.code hostVmexitPtr returnAddress) (e.enter hostRsp mem)).mem

/-- The memory that a run of VM exits leaves. -/
def runExits : List (Exit c) → Mem → Mem
  | [], mem => mem
  | e :: exits, mem => runExits exits (runExit hostVmexitPtr returnAddress hostRsp e mem)

/-- The addresses of the words that `host_hv_entrypoint` writes in a run. -/
def written : List (Exit c) → Mem → List (BitVec 64)
  | [], _ => []
  | e :: exits, mem =>
      stores (e.code hostVmexitPtr returnAddress) (e.enter hostRsp mem) ++
        written exits (runExit hostVmexitPtr returnAddress hostRsp e mem)

/-- The words lie in `host_stack`. -/
def Confined (c : Core) (words : List (BitVec 64)) : Prop :=
  ∀ a ∈ words, ∀ i < 8, c.InHostStack (a + BitVec.ofNat 64 i)

/-- The `cpu_state` is the same outside `host_stack`. -/
def Unchanged (c : Core) (mem mem' : Mem) : Prop :=
  ∀ x, c.InState x → ¬ c.InHostStack x → mem' x = mem x

theorem exists_of_mem_written {a : BitVec 64} (exits : List (Exit c)) (mem : Mem)
    (h : a ∈ written hostVmexitPtr returnAddress hostRsp exits mem) :
    ∃ i < 20, a = hostRsp - BitVec.ofNat 64 (8 * (i + 1)) := by
  induction exits generalizing mem with
  | nil => exact absurd h List.not_mem_nil
  | cons e exits ih =>
      rw [written, List.mem_append] at h
      rcases h with h | h
      · exact exists_of_mem_stores hostVmexitPtr returnAddress e.handler.run
          (e.enter hostRsp mem) h
      · exact ih (runExit hostVmexitPtr returnAddress hostRsp e mem) h

theorem mem_written (e : Exit c) (exits : List (Exit c)) (mem : Mem) :
    hostRsp - 8 ∈ written hostVmexitPtr returnAddress hostRsp (e :: exits) mem := by
  rw [written, List.mem_append]
  exact .inl (mem_stores_hostHvEntrypoint hostVmexitPtr returnAddress e.handler.run
    (e.enter hostRsp mem))

/-- On the stack that `cpu_init` sets up, every word that the entry point writes lies in
`core_msr_bitmap`. -/
theorem written_mem_msrBitmap (exits : List (Exit c)) (mem : Mem) {a : BitVec 64}
    (h : a ∈ written hostVmexitPtr returnAddress c.hostStack exits mem) {i : Nat} (hi : i < 8) :
    c.InMsrBitmap (a + BitVec.ofNat 64 i) := by
  obtain ⟨k, hk, rfl⟩ := exists_of_mem_written hostVmexitPtr returnAddress c.hostStack exits mem h
  exact c.inMsrBitmap_below hk hi

/-! ## What the guest leaves there -/

/-- A VM exit leaves the registers of the guest below `VMCS_HOST_RSP`. -/
theorem holds_runExit (hrsp : 160 ≤ hostRsp.toNat) (e : Exit c) (mem : Mem) :
    Holds (runExit hostVmexitPtr returnAddress hostRsp e mem) (hostRsp - 120)
      (gpRegs.map e.guest) := by
  have henter : (e.enter hostRsp mem).rsp = hostRsp := by
    simp only [Machine.rsp, Exit.enter, Function.update_self]
  have hguest : gpRegs.map (e.enter hostRsp mem).regs = gpRegs.map e.guest := by
    apply List.map_congr_left
    intro r hr
    exact Function.update_of_ne (mem_gpRegs_iff.mp hr) hostRsp e.guest
  have hpushed := holds_pushGpRegs (by simp) (Holds.nil (m := (e.enter hostRsp mem).mem)
    (a := (e.enter hostRsp mem).rsp))
  rw [List.append_nil, hguest, run_pushGpRegs_rsp, henter] at hpushed
  refine hpushed.congr fun i hi ↦ ?_
  have hi : i < 120 := hi
  -- the return address and what the handler writes are below the registers
  have hoff : (hostRsp - 120 + BitVec.ofNat 64 i - (hostRsp - 120 - 40)).toNat = i + 40 := by
    bv_omega
  have hbelow : hostRsp - 120 - 40 ≤ hostRsp - 120 + BitVec.ofNat 64 i := by
    bv_omega
  rw [runExit, Exit.code, run_hostHvEntrypoint_mem, e.handler.keeps, hostHvCalled_mem,
    run_pushGpRegs_rsp, henter, store64, store, if_neg (by omega)]
  rw [hostHvCalled_rsp, run_pushGpRegs_rsp, henter]
  exact hbelow

theorem runExits_append (exits : List (Exit c)) (e : Exit c) (mem : Mem) :
    runExits hostVmexitPtr returnAddress hostRsp (exits ++ [e]) mem =
      runExit hostVmexitPtr returnAddress hostRsp e
        (runExits hostVmexitPtr returnAddress hostRsp exits mem) := by
  induction exits generalizing mem with
  | nil => rfl
  | cons e' exits ih => exact ih (runExit hostVmexitPtr returnAddress hostRsp e' mem)

/-- After a run on the stack that `cpu_init` sets up, the end of `core_msr_bitmap` is the
register file of the guest at its last VM exit. -/
theorem holds_runExits (hfit : c.state.toNat + 0x216000 ≤ 2 ^ 64) (exits : List (Exit c))
    (e : Exit c) (mem : Mem) :
    Holds (runExits hostVmexitPtr returnAddress c.hostStack (exits ++ [e]) mem)
      (c.coreMsrBitmap + 0xF88) (gpRegs.map e.guest) := by
  have hbitmap : c.coreMsrBitmap + 0xF88 = c.hostStack - 120 := by
    rw [Core.coreMsrBitmap, Core.hostStack]
    bv_omega
  have hstack : 160 ≤ c.hostStack.toNat := by
    rw [Core.hostStack]
    bv_omega
  rw [runExits_append, hbitmap]
  exact holds_runExit hostVmexitPtr returnAddress c.hostStack hstack e _

end run

/-! ## The stack keeps to `host_stack` -/

/-- The stack pointer that `cpu_init` gives the host. -/
theorem hostRsp_eq {p : VmxInstructions} (hrsp : p.vmwrite .hostRsp = 0) (h : Host) (c : Core)
    (vmcs : Vmcs) : cpuInitVmcs p h c vmcs .hostRsp = c.hostStack := by
  apply applyWrites_of_lookup (vmcsWrites_nodup (setControlRegisters h) c)
  · exact beq_iff_eq.mpr hrsp
  · rfl

/-- The run writes inside `host_stack` and leaves the rest of the `cpu_state` as it was only
when there is no VM exit in it. -/
theorem exits_confined_iff {p : VmxInstructions} (hrsp : p.vmwrite .hostRsp = 0) (h : Host)
    (c : Core) (vmcs : Vmcs) (hostVmexitPtr returnAddress : BitVec 64) (exits : List (Exit c))
    (mem : Mem) :
    (Confined c (written hostVmexitPtr returnAddress (cpuInitVmcs p h c vmcs .hostRsp)
        exits mem) ∧
      Unchanged c mem (runExits hostVmexitPtr returnAddress (cpuInitVmcs p h c vmcs .hostRsp)
        exits mem)) ↔
    exits = [] := by
  rw [hostRsp_eq hrsp]
  constructor
  · rintro ⟨hconfined, -⟩
    cases exits with
    | nil => rfl
    | cons e exits =>
        -- the first push is already outside
        have hfirst := mem_written hostVmexitPtr returnAddress c.hostStack e exits mem
        have hbitmap := written_mem_msrBitmap hostVmexitPtr returnAddress (e :: exits) mem hfirst
          (i := 0) (by decide)
        exact absurd (hconfined _ hfirst 0 (by decide))
          (c.not_inHostStack_of_inMsrBitmap _ hbitmap)
  · rintro rfl
    constructor
    · intro a ha
      exact absurd ha List.not_mem_nil
    · intro x _ _
      rfl

/-! ## One VM exit -/

/-- A core whose `cpu_state` is at one mebibyte. -/
def mebibyteCore : Core := ⟨0x100000, 0, 0, 0, 0⟩

/-- A guest with `-1` in `rax` and a handler that returns. -/
def onesExit : Exit mebibyteCore where
  guest := fun r ↦ if r = .rax then ~~~0 else 0
  guestMem := id
  keeps := fun _ _ _ ↦ rfl
  handler := ⟨fun s ↦ s.set .rsp (s.rsp + 8), fun _ _ _ ↦ rfl⟩

/-- The run without a VM exit is confined, and the one with this exit is not. -/
theorem exits_confined_onesExit :
    (Confined mebibyteCore (written 0 0
        (cpuInitVmcs ⟨fun _ ↦ 0, fun _ ↦ 0⟩ flatHost mebibyteCore (fun _ ↦ 0) .hostRsp)
        ([] : List (Exit mebibyteCore)) fun _ ↦ 0) ∧
      Unchanged mebibyteCore (fun _ ↦ 0) (runExits 0 0
        (cpuInitVmcs ⟨fun _ ↦ 0, fun _ ↦ 0⟩ flatHost mebibyteCore (fun _ ↦ 0) .hostRsp)
        ([] : List (Exit mebibyteCore)) fun _ ↦ 0)) ∧
    ¬ (Confined mebibyteCore (written 0 0
        (cpuInitVmcs ⟨fun _ ↦ 0, fun _ ↦ 0⟩ flatHost mebibyteCore (fun _ ↦ 0) .hostRsp)
        [onesExit] fun _ ↦ 0) ∧
      Unchanged mebibyteCore (fun _ ↦ 0) (runExits 0 0
        (cpuInitVmcs ⟨fun _ ↦ 0, fun _ ↦ 0⟩ flatHost mebibyteCore (fun _ ↦ 0) .hostRsp)
        [onesExit] fun _ ↦ 0)) := by
  constructor
  · exact (exits_confined_iff rfl flatHost mebibyteCore (fun _ ↦ 0) 0 0 [] _).mpr rfl
  · intro h
    exact absurd ((exits_confined_iff rfl flatHost mebibyteCore (fun _ ↦ 0) 0 0 _ _).mp h)
      (List.cons_ne_nil _ _)

/-- The last byte of `core_msr_bitmap` becomes a byte of the guest's `rax`. -/
theorem onesExit_overwrites_msrBitmap :
    ¬ (Confined mebibyteCore (written 0 0
        (cpuInitVmcs ⟨fun _ ↦ 0, fun _ ↦ 0⟩ flatHost mebibyteCore (fun _ ↦ 0) .hostRsp)
        [onesExit] fun _ ↦ 0) ∧
      Unchanged mebibyteCore (fun _ ↦ 0) (runExits 0 0
        (cpuInitVmcs ⟨fun _ ↦ 0, fun _ ↦ 0⟩ flatHost mebibyteCore (fun _ ↦ 0) .hostRsp)
        [onesExit] fun _ ↦ 0)) := by
  rintro ⟨-, hunchanged⟩
  rw [hostRsp_eq rfl] at hunchanged
  exact absurd (hunchanged 0x305FFF (by decide) (by decide)) (by decide +kernel)

end Hypervi.Cpu
