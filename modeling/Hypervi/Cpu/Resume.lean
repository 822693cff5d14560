import Hypervi.Cpu.HostEntry

/-!
# The guest across a VM exit

The processor keeps the guest's `rsp` in the VMCS and loads the one of the host; the other
fifteen registers are on the stack of the host while the handler runs, and are popped again
before `vmresume`.

The memory that the host may write is a set of addresses of its own.  A guest that does not
look at it cannot tell how often it exited: whatever the handlers do in the memory of the
host, a run with VM exits ends like the run without (`agree_runVirtual`).
-/

namespace Hypervi.Cpu

open Memory X86 Freestanding

/-! ## The contract of the handler -/

/-- What `host_hv_entrypoint` needs of the function that it calls, when `hostRsp` is the top
of the stack: it returns behind the call, the saved registers are as before, and it writes to
the memory of the host only. -/
structure KeepsGuest (own : Set (BitVec 64)) (hostRsp : BitVec 64)
    (handler : Machine → Machine) : Prop where
  returns : ∀ s, s.rsp = hostRsp - 160 → (handler s).rsp = s.rsp + 8
  saved : ∀ s, s.rsp = hostRsp - 160 → ∀ i < 120,
    (handler s).mem (hostRsp - 120 + BitVec.ofNat 64 i) =
      s.mem (hostRsp - 120 + BitVec.ofNat 64 i)
  own : ∀ s, s.rsp = hostRsp - 160 → ∀ x ∉ own, (handler s).mem x = s.mem x

/-- The stack that the entry point uses is memory of the host. -/
def OwnsStack (own : Set (BitVec 64)) (hostRsp : BitVec 64) : Prop :=
  ∀ x, (x - (hostRsp - 160)).toNat < 160 → x ∈ own

/-- The stack that `cpu_init` sets up starts below `host_stack`, in the `cpu_state` still. -/
theorem ownsStack_of_inState {c : Core} {own : Set (BitVec 64)}
    (hown : ∀ x, c.InState x → x ∈ own) : OwnsStack own c.hostStack := by
  intro x hx
  apply hown
  rw [Core.hostStack] at hx
  rw [Core.InState]
  bv_omega

/-- Machines with the same registers and the same memory but for that of the host. -/
structure Agree (own : Set (BitVec 64)) (s t : Machine) : Prop where
  regs : s.regs = t.regs
  mem : ∀ x ∉ own, s.mem x = t.mem x

namespace Agree

variable {own : Set (BitVec 64)} {s t u : Machine}

theorem refl (s : Machine) : Agree own s s := ⟨rfl, fun _ _ ↦ rfl⟩

theorem trans (h : Agree own s t) (h' : Agree own t u) : Agree own s u :=
  ⟨h.regs.trans h'.regs, fun x hx ↦ (h.mem x hx).trans (h'.mem x hx)⟩

end Agree

/-! ## One VM exit -/

section exit

variable (hostVmexitPtr returnAddress hostRsp : BitVec 64) (handler : Machine → Machine)

/-- The machine on which the host starts. -/
def enterHost (s : Machine) : Machine := s.set .rsp hostRsp

/-- A VM exit and the `vmresume` that ends it. -/
def vmexit (s : Machine) : Machine :=
  (run (hostHvEntrypoint hostVmexitPtr returnAddress handler) (enterHost hostRsp s)).set .rsp s.rsp

variable {hostVmexitPtr returnAddress hostRsp handler} {own : Set (BitVec 64)} {s : Machine}

theorem enterHost_rsp : (enterHost hostRsp s).rsp = hostRsp := s.set_regs_self .rsp hostRsp

theorem run_pushGpRegs_enterHost_rsp :
    (run pushGpRegs (enterHost hostRsp s)).rsp = hostRsp - 120 := by
  rw [run_pushGpRegs_rsp, enterHost_rsp]

/-- The registers of the guest lie on the stack when the handler is called. -/
theorem holds_pushed :
    Holds (run pushGpRegs (enterHost hostRsp s)).mem (hostRsp - 120) (gpRegs.map s.regs) := by
  have hguest : gpRegs.map (enterHost hostRsp s).regs = gpRegs.map s.regs :=
    List.map_congr_left fun r hr ↦ s.set_regs_of_ne hostRsp (mem_gpRegs_iff.mp hr)
  have hpushed := holds_pushGpRegs (by simp) (Holds.nil (m := (enterHost hostRsp s).mem)
    (a := (enterHost hostRsp s).rsp))
  rwa [List.append_nil, hguest, run_pushGpRegs_enterHost_rsp] at hpushed

/-- The machine on which the handler is called. -/
def calledHost (hostVmexitPtr returnAddress hostRsp : BitVec 64) (s : Machine) : Machine :=
  hostHvCalled hostVmexitPtr returnAddress (run pushGpRegs (enterHost hostRsp s))

theorem calledHost_rsp :
    (calledHost hostVmexitPtr returnAddress hostRsp s).rsp = hostRsp - 160 := by
  rw [calledHost, hostHvCalled_rsp, run_pushGpRegs_enterHost_rsp]
  bv_omega

/-- The machine on which the registers are popped. -/
theorem run_hostHvEntrypoint_enterHost (h : KeepsGuest own hostRsp handler) :
    run (hostHvEntrypoint hostVmexitPtr returnAddress handler) (enterHost hostRsp s) =
      run popGpRegs
        ((handler (calledHost hostVmexitPtr returnAddress hostRsp s)).set .rsp (hostRsp - 120)) := by
  have htop : (handler (calledHost hostVmexitPtr returnAddress hostRsp s)).rsp + 0x20 =
      hostRsp - 120 := by
    rw [h.returns _ calledHost_rsp, calledHost_rsp]
    bv_omega
  rw [hostHvEntrypoint, run_append, run_append, run_hostHvCall, ← calledHost, htop]

/-- A VM exit gives the guest all of its registers back. -/
theorem vmexit_regs (h : KeepsGuest own hostRsp handler) :
    (vmexit hostVmexitPtr returnAddress hostRsp handler s).regs = s.regs := by
  have hsaved : Holds (handler (calledHost hostVmexitPtr returnAddress hostRsp s)).mem
      (hostRsp - 120) (gpRegs.map s.regs ++ []) := by
    rw [List.append_nil]
    refine holds_pushed.congr fun i hi ↦ ?_
    have hi : i < 120 := hi
    -- the return address is pushed below the registers
    have hoff : 8 ≤ (hostRsp - 120 + BitVec.ofNat 64 i - (hostRsp - 120 - 40)).toNat := by
      bv_omega
    rw [h.saved _ calledHost_rsp i hi, calledHost, hostHvCalled_mem, run_pushGpRegs_enterHost_rsp,
      store64, store, if_neg (Nat.not_lt.mpr hoff)]
  have hpop := run_popGpRegs (s := (handler
    (calledHost hostVmexitPtr returnAddress hostRsp s)).set .rsp (hostRsp - 120)) (by
      rw [Machine.set_mem, Machine.rsp, Machine.set_regs_self]
      exact hsaved)
  funext r
  rw [vmexit, run_hostHvEntrypoint_enterHost h]
  by_cases hr : r = .rsp
  · subst hr
    exact Machine.set_regs_self _ _ _
  · rw [Machine.set_regs_of_ne _ _ hr]
    exact hpop.1 r hr

/-- A VM exit leaves the memory of the guest as it was. -/
theorem vmexit_mem (h : KeepsGuest own hostRsp handler) (hown : OwnsStack own hostRsp)
    {x : BitVec 64} (hx : x ∉ own) :
    (vmexit hostVmexitPtr returnAddress hostRsp handler s).mem x = s.mem x := by
  have hout : 160 ≤ (x - (hostRsp - 160)).toNat := Nat.not_lt.mp fun hlt ↦ hx (hown x hlt)
  have hlen : 8 * (gpRegs.reverse.map (enterHost hostRsp s).regs).length = 120 := rfl
  have hpushed : (run pushGpRegs (enterHost hostRsp s)).mem x = s.mem x := by
    rw [run_pushGpRegs]
    apply Machine.pushes_mem_of_le
    · rw [hlen]
      decide
    · rw [hlen, enterHost_rsp]
      bv_omega
  have hcalled : (calledHost hostVmexitPtr returnAddress hostRsp s).mem x = s.mem x := by
    rw [calledHost, hostHvCalled_mem, run_pushGpRegs_enterHost_rsp, store64, store,
      if_neg (by bv_omega), hpushed]
  rw [vmexit, Machine.set_mem, run_hostHvEntrypoint_mem, ← calledHost, h.own _ calledHost_rsp x hx,
    hcalled]

/-- The guest cannot tell a VM exit from none. -/
theorem agree_vmexit (h : KeepsGuest own hostRsp handler) (hown : OwnsStack own hostRsp) :
    Agree own (vmexit hostVmexitPtr returnAddress hostRsp handler s) s :=
  ⟨vmexit_regs h, fun _ hx ↦ vmexit_mem h hown hx⟩

end exit

/-! ## Runs -/

/-- What the guest does between two VM exits.  It does not look at the memory of the host. -/
structure GuestCode (own : Set (BitVec 64)) where
  run : Machine → Machine
  congr : ∀ s t, Agree own s t → Agree own (run s) (run t)

/-- Code of the guest, and what `host_vmexit_ptr` points to when it exits. -/
structure GuestExit (own : Set (BitVec 64)) (hostRsp : BitVec 64) where
  code : GuestCode own
  handler : Machine → Machine
  keeps : KeepsGuest own hostRsp handler

section runs

variable {own : Set (BitVec 64)} {hostRsp : BitVec 64} (hostVmexitPtr returnAddress : BitVec 64)

/-- The guest under the hypervisor. -/
def runVirtual (exits : List (GuestExit own hostRsp)) (s : Machine) : Machine :=
  exits.foldl (fun s e ↦ vmexit hostVmexitPtr returnAddress hostRsp e.handler (e.code.run s)) s

/-- The guest alone. -/
def runNative (exits : List (GuestExit own hostRsp)) (s : Machine) : Machine :=
  exits.foldl (fun s e ↦ e.code.run s) s

/-- A run with VM exits and one without end with the same registers and the same memory of
the guest. -/
theorem agree_run (hown : OwnsStack own hostRsp) (exits : List (GuestExit own hostRsp))
    {s t : Machine} (h : Agree own s t) :
    Agree own (runVirtual hostVmexitPtr returnAddress exits s) (runNative exits t) := by
  induction exits generalizing s t with
  | nil => exact h
  | cons e exits ih => exact ih ((agree_vmexit e.keeps hown).trans (e.code.congr s t h))

end runs

/-! ## One run -/

/-- A guest that counts in `rax`, and a handler that returns. -/
def countingExit : GuestExit {x | mebibyteCore.InState x} mebibyteCore.hostStack where
  code :=
    { run := fun s ↦ s.set .rax (s.regs .rax + 1)
      congr := fun _ _ h ↦ ⟨by simp only [Machine.set, h.regs], h.mem⟩ }
  handler s := s.set .rsp (s.rsp + 8)
  keeps :=
    { returns := fun s _ ↦ s.set_regs_self .rsp (s.rsp + 8)
      saved := fun _ _ _ _ ↦ rfl
      own := fun _ _ _ _ ↦ rfl }

end Hypervi.Cpu
