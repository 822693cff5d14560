import Hypervi.X86.Stack

/-!
# `push_gp_regs` and `pop_gp_regs`

The two macros of `macros.S`.  `holds_pushGpRegs` says how the stack reads after the
first, `run_popGpRegs` that the second takes that back.
-/

namespace Hypervi.Freestanding

open X86 Memory

/-- `push_gp_regs` -/
def pushGpRegs : List Instr :=
  [ .push .rax, .push .rcx, .push .rdx, .push .rbx, .push .rbp, .push .rsi, .push .rdi,
    .push .r8, .push .r9, .push .r10, .push .r11, .push .r12, .push .r13, .push .r14, .push .r15 ]

/-- `pop_gp_regs` -/
def popGpRegs : List Instr :=
  [ .pop .r15, .pop .r14, .pop .r13, .pop .r12, .pop .r11, .pop .r10, .pop .r9, .pop .r8,
    .pop .rdi, .pop .rsi, .pop .rbp, .pop .rbx, .pop .rdx, .pop .rcx, .pop .rax ]

/-- The pushed registers from the top of the stack on. -/
def gpRegs : List Gpr :=
  [.r15, .r14, .r13, .r12, .r11, .r10, .r9, .r8, .rdi, .rsi, .rbp, .rbx, .rdx, .rcx, .rax]

theorem pushGpRegs_eq : pushGpRegs = gpRegs.reverse.map .push := rfl

theorem popGpRegs_eq : popGpRegs = gpRegs.map .pop := rfl

theorem gpRegs_nodup : gpRegs.Nodup := by decide

/-- All registers but the stack pointer. -/
theorem mem_gpRegs_iff {r : Gpr} : r ∈ gpRegs ↔ r ≠ .rsp := by cases r <;> decide

theorem rsp_notMem_gpRegs : Gpr.rsp ∉ gpRegs := fun h ↦ mem_gpRegs_iff.mp h rfl

theorem run_pushGpRegs (s : Machine) :
    run pushGpRegs s = s.pushes (gpRegs.reverse.map s.regs) := by
  rw [pushGpRegs_eq]
  exact run_push fun h ↦ rsp_notMem_gpRegs (List.mem_reverse.mp h)

section stack

variable {s : Machine} {ws : List (BitVec 64)}

theorem holds_pushGpRegs (hlen : 8 * (15 + ws.length) ≤ 2 ^ 64) (h : Holds s.mem s.rsp ws) :
    Holds (run pushGpRegs s).mem (run pushGpRegs s).rsp (gpRegs.map s.regs ++ ws) := by
  have hpushes : Holds (s.pushes (gpRegs.reverse.map s.regs)).mem
      (s.pushes (gpRegs.reverse.map s.regs)).rsp ((gpRegs.reverse.map s.regs).reverse ++ ws) :=
    h.pushes hlen
  rw [← List.map_reverse, List.reverse_reverse] at hpushes
  rw [run_pushGpRegs]
  exact hpushes

/-- `pop_gp_regs` takes a register file off the stack. -/
theorem run_popGpRegs {g : Gpr → BitVec 64} (h : Holds s.mem s.rsp (gpRegs.map g ++ ws)) :
    (∀ r, r ≠ .rsp → (run popGpRegs s).regs r = g r) ∧
    Holds (run popGpRegs s).mem (run popGpRegs s).rsp ws := by
  obtain ⟨hregs, -, htop⟩ := run_pop gpRegs_nodup rsp_notMem_gpRegs h
  rw [popGpRegs_eq]
  exact ⟨fun r hr ↦ hregs r (mem_gpRegs_iff.mpr hr), htop⟩

end stack

end Hypervi.Freestanding
