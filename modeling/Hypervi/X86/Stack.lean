import Mathlib.Tactic.Common
import Mathlib.Logic.Function.Basic
import Mathlib.Data.List.Basic
import Hypervi.Memory.Byte

/-!
# The stack of an x86-64 machine

The general registers, byte-addressed memory, and the instructions that assembly
entry points are made of.  A callee is a function on machines, from its first
instruction to the one after its `ret`; the code is straight-line, so that a program
is a list.

* `Holds m a ws` says that the words `ws` lie in memory from `a` up, which is how a
  stack whose top is at `a` reads.
* `run_push` and `run_pop` are the rules of a row of pushes and of a row of pops.
* `stores` is the trace of the words that the instructions of a program write
  themselves; what a callee writes is not in it.
* `deliver` is what the processor pushes for an exception, `iretq` what it takes back.
-/

namespace Hypervi.X86

open Memory

/-- The general registers. -/
inductive Gpr where
  | rax | rcx | rdx | rbx | rsp | rbp | rsi | rdi
  | r8 | r9 | r10 | r11 | r12 | r13 | r14 | r15
  deriving DecidableEq

structure Machine where
  regs : Gpr → BitVec 64
  mem : Mem

namespace Machine

def rsp (s : Machine) : BitVec 64 := s.regs .rsp

def set (s : Machine) (r : Gpr) (v : BitVec 64) : Machine :=
  { s with regs := Function.update s.regs r v }

def push (s : Machine) (v : BitVec 64) : Machine :=
  { s.set .rsp (s.rsp - 8) with mem := store64 s.mem (s.rsp - 8) v }

/-- Pushes in a row, the first word first. -/
def pushes (s : Machine) (vs : List (BitVec 64)) : Machine := vs.foldl push s

def pop (s : Machine) (r : Gpr) : Machine :=
  (s.set .rsp (s.rsp + 8)).set r (load64 s.mem s.rsp)

@[simp] theorem set_mem (s : Machine) (r : Gpr) (v : BitVec 64) : (s.set r v).mem = s.mem := rfl

@[simp] theorem set_regs_self (s : Machine) (r : Gpr) (v : BitVec 64) : (s.set r v).regs r = v := by
  simp only [set, Function.update_self]

theorem set_regs_of_ne (s : Machine) {r j : Gpr} (v : BitVec 64) (h : j ≠ r) :
    (s.set r v).regs j = s.regs j := by
  simp only [set, Function.update_of_ne h]

@[simp] theorem push_rsp (s : Machine) (v : BitVec 64) : (s.push v).rsp = s.rsp - 8 :=
  s.set_regs_self .rsp (s.rsp - 8)

@[simp] theorem push_mem (s : Machine) (v : BitVec 64) :
    (s.push v).mem = store64 s.mem (s.rsp - 8) v := rfl

theorem push_regs_of_ne (s : Machine) (v : BitVec 64) {r : Gpr} (h : r ≠ .rsp) :
    (s.push v).regs r = s.regs r := s.set_regs_of_ne (s.rsp - 8) h

theorem pushes_cons (s : Machine) (v : BitVec 64) (vs : List (BitVec 64)) :
    s.pushes (v :: vs) = (s.push v).pushes vs := rfl

theorem pushes_rsp (s : Machine) (vs : List (BitVec 64)) :
    (s.pushes vs).rsp = s.rsp - BitVec.ofNat 64 (8 * vs.length) := by
  induction vs generalizing s with
  | nil => exact (BitVec.sub_zero _).symm
  | cons v vs ih =>
      rw [pushes_cons, ih, push_rsp, List.length_cons, Nat.mul_succ, BitVec.ofNat_add]
      bv_omega

theorem pushes_regs_of_ne (s : Machine) (vs : List (BitVec 64)) {r : Gpr} (h : r ≠ .rsp) :
    (s.pushes vs).regs r = s.regs r := by
  induction vs generalizing s with
  | nil => rfl
  | cons v vs ih => rw [pushes_cons, ih, push_regs_of_ne s v h]

/-- A row of pushes writes between the old stack pointer and the new one. -/
theorem pushes_mem_of_le (s : Machine) (vs : List (BitVec 64)) {x : BitVec 64}
    (hlen : 8 * vs.length ≤ 2 ^ 64)
    (hx : 8 * vs.length ≤ (x - (s.rsp - BitVec.ofNat 64 (8 * vs.length))).toNat) :
    (s.pushes vs).mem x = s.mem x := by
  induction vs generalizing s with
  | nil => rfl
  | cons v vs ih =>
      rw [List.length_cons] at hlen hx
      have hrsp := s.push_rsp v
      rw [pushes_cons, ih (s.push v) (by omega) (by rw [hrsp]; bv_omega),
        push_mem, store64, store, if_neg (by bv_omega)]

theorem pop_rsp (s : Machine) {r : Gpr} (h : r ≠ .rsp) : (s.pop r).rsp = s.rsp + 8 :=
  (set_regs_of_ne _ _ h.symm).trans (s.set_regs_self .rsp (s.rsp + 8))

theorem pop_regs_self (s : Machine) (r : Gpr) : (s.pop r).regs r = load64 s.mem s.rsp :=
  set_regs_self _ r (load64 s.mem s.rsp)

theorem pop_regs_of_ne (s : Machine) {r j : Gpr} (hj : j ≠ r) (h : j ≠ .rsp) :
    (s.pop r).regs j = s.regs j :=
  (set_regs_of_ne _ _ hj).trans (s.set_regs_of_ne (s.rsp + 8) h)

end Machine

/-! ## Instructions -/

/-- `cld` clears a flag, and flags are not part of a `Machine`. -/
inductive Instr where
  | push (r : Gpr)
  | pushImm (v : BitVec 64)
  | pop (r : Gpr)
  | mov (d s : Gpr)
  | movImm (d : Gpr) (v : BitVec 64)
  | sub (d : Gpr) (n : BitVec 64)
  | add (d : Gpr) (n : BitVec 64)
  | call (returnAddress : BitVec 64) (callee : Machine → Machine)
  | cld

namespace Instr

def exec : Instr → Machine → Machine
  | .push r, s => s.push (s.regs r)
  | .pushImm v, s => s.push v
  | .pop r, s => s.pop r
  | .mov d r, s => s.set d (s.regs r)
  | .movImm d v, s => s.set d v
  | .sub d n, s => s.set d (s.regs d - n)
  | .add d n, s => s.set d (s.regs d + n)
  | .call returnAddress callee, s => callee (s.push returnAddress)
  | .cld, s => s

/-- The address of the word that an instruction writes. -/
def stores : Instr → Machine → List (BitVec 64)
  | .push _, s | .pushImm _, s | .call _ _, s => [s.rsp - 8]
  | _, _ => []

end Instr

def run : List Instr → Machine → Machine
  | [], s => s
  | i :: is, s => run is (i.exec s)

/-- The addresses of the words written by the instructions of a program. -/
def stores : List Instr → Machine → List (BitVec 64)
  | [], _ => []
  | i :: is, s => i.stores s ++ stores is (i.exec s)

theorem run_append (is js : List Instr) (s : Machine) :
    run (is ++ js) s = run js (run is s) := by
  induction is generalizing s with
  | nil => rfl
  | cons i is ih => exact ih (i.exec s)

theorem stores_append (is js : List Instr) (s : Machine) :
    stores (is ++ js) s = stores is s ++ stores js (run is s) := by
  induction is generalizing s with
  | nil => rfl
  | cons i is ih => rw [List.cons_append, stores, stores, ih, List.append_assoc]; rfl

/-! ## Words in memory -/

/-- The `i`-th word from `a` up. -/
def wordAt (m : Mem) (a : BitVec 64) (i : Nat) : BitVec 64 :=
  load64 m (a + BitVec.ofNat 64 (8 * i))

/-- The words `ws` lie in memory from `a` up. -/
def Holds (m : Mem) (a : BitVec 64) (ws : List (BitVec 64)) : Prop :=
  ∀ i w, ws[i]? = some w → wordAt m a i = w

theorem wordAt_zero (m : Mem) (a : BitVec 64) : wordAt m a 0 = load64 m a := by
  rw [wordAt, Nat.mul_zero, BitVec.add_zero]

theorem wordAt_succ (m : Mem) (a : BitVec 64) (i : Nat) :
    wordAt m a (i + 1) = wordAt m (a + 8) i := by
  rw [wordAt, wordAt, Nat.mul_succ, BitVec.ofNat_add, BitVec.add_assoc, BitVec.add_comm 8]
  rfl

namespace Holds

variable {m m' : Mem} {a : BitVec 64} {w : BitVec 64} {ws : List (BitVec 64)}

theorem nil : Holds m a [] := fun i _ h ↦ absurd h (by simp)

theorem cons_iff : Holds m a (w :: ws) ↔ load64 m a = w ∧ Holds m (a + 8) ws := by
  constructor
  · intro h
    refine ⟨(wordAt_zero m a).symm.trans (h 0 w rfl), fun i v hv ↦ ?_⟩
    exact (wordAt_succ m a i).symm.trans (h (i + 1) v hv)
  · rintro ⟨hzero, hsucc⟩ i v hv
    cases i with
    | zero =>
        obtain rfl : w = v := Option.some.inj hv
        exact (wordAt_zero m a).trans hzero
    | succ i => exact (wordAt_succ m a i).trans (hsucc i v hv)

/-- The words above the first `k`. -/
theorem drop (h : Holds m a ws) (k : Nat) : Holds m (a + BitVec.ofNat 64 (8 * k)) (ws.drop k) := by
  intro i w hw
  rw [List.getElem?_drop] at hw
  rw [← h (k + i) w hw, wordAt, wordAt, Nat.mul_add, BitVec.ofNat_add, BitVec.add_assoc]

/-- The words depend on their own bytes only. -/
theorem congr (hm : ∀ i < 8 * ws.length, m' (a + BitVec.ofNat 64 i) = m (a + BitVec.ofNat 64 i))
    (h : Holds m a ws) : Holds m' a ws := by
  intro i w hw
  obtain ⟨hi, -⟩ := List.getElem?_eq_some_iff.mp hw
  rw [← h i w hw]
  refine load_congr fun j hj ↦ ?_
  have haddr : a + BitVec.ofNat 64 (8 * i) + BitVec.ofNat 64 j =
      a + BitVec.ofNat 64 (8 * i + j) := by
    rw [BitVec.add_assoc, BitVec.ofNat_add]
  rw [haddr]
  exact hm (8 * i + j) (by omega)

/-- What is pushed lies on top of what was there. -/
theorem push {s : Machine} {v : BitVec 64} (hlen : 8 * (ws.length + 1) ≤ 2 ^ 64)
    (h : Holds s.mem s.rsp ws) : Holds (s.push v).mem (s.push v).rsp (v :: ws) := by
  rw [cons_iff, Machine.push_rsp, BitVec.sub_add_cancel]
  refine ⟨?_, ?_⟩
  · rw [Machine.push_mem, load64, store64, load_store_self (by omega)]
  · refine h.congr fun i hi ↦ if_neg ?_
    -- the pushed word ends where the old ones begin
    have haddr : s.rsp + BitVec.ofNat 64 i - (s.rsp - 8) = BitVec.ofNat 64 (i + 8) := by
      rw [BitVec.ofNat_add]
      bv_omega
    rw [haddr, BitVec.toNat_ofNat, Nat.mod_eq_of_lt (by omega)]
    omega

theorem pushes {s : Machine} {vs : List (BitVec 64)} (hlen : 8 * (vs.length + ws.length) ≤ 2 ^ 64)
    (h : Holds s.mem s.rsp ws) :
    Holds (s.pushes vs).mem (s.pushes vs).rsp (vs.reverse ++ ws) := by
  induction vs generalizing s ws with
  | nil => exact h
  | cons v vs ih =>
      rw [List.length_cons] at hlen
      rw [List.reverse_cons, List.append_assoc, List.singleton_append]
      exact ih (by rw [List.length_cons]; omega) (h.push (by omega))

end Holds

/-! ## Rows of pushes and pops -/

section rows

variable {rs : List Gpr} {ws : List (BitVec 64)} {s : Machine}

/-- A row of pushes pushes the registers as they were before it. -/
theorem run_push (hrs : .rsp ∉ rs) : run (rs.map .push) s = s.pushes (rs.map s.regs) := by
  induction rs generalizing s with
  | nil => rfl
  | cons r rs ih =>
      rw [List.mem_cons, not_or] at hrs
      have hregs : rs.map (s.push (s.regs r)).regs = rs.map s.regs :=
        List.map_congr_left fun j hj ↦ s.push_regs_of_ne _ fun hj' ↦ hrs.2 (hj' ▸ hj)
      rw [List.map_cons, List.map_cons, Machine.pushes_cons, ← hregs]
      exact ih hrs.2

/-- The words that a row of pushes writes go down from the stack pointer. -/
theorem mem_stores_push {a : BitVec 64} (rs : List Gpr) (s : Machine) :
    a ∈ stores (rs.map .push) s ↔ ∃ i < rs.length, a = s.rsp - BitVec.ofNat 64 (8 * (i + 1)) := by
  induction rs generalizing s with
  | nil => simp [stores]
  | cons r rs ih =>
      have hdown (i : Nat) : s.rsp - 8 - BitVec.ofNat 64 (8 * (i + 1)) =
          s.rsp - BitVec.ofNat 64 (8 * (i + 1 + 1)) := by
        rw [Nat.mul_succ 8 (i + 1), BitVec.ofNat_add]
        bv_omega
      have hexec : (Instr.exec (.push r) s).rsp = s.rsp - 8 := s.push_rsp (s.regs r)
      rw [List.map_cons, stores, List.mem_append, ih, hexec, List.length_cons]
      simp only [Instr.stores, List.mem_singleton, hdown]
      constructor
      · rintro (rfl | ⟨i, hi, rfl⟩)
        · exact ⟨0, Nat.succ_pos _, rfl⟩
        · exact ⟨i + 1, Nat.succ_lt_succ hi, rfl⟩
      · rintro ⟨i, hi, rfl⟩
        cases i with
        | zero => exact .inl rfl
        | succ i => exact .inr ⟨i, Nat.lt_of_succ_lt_succ hi, rfl⟩

theorem run_pop_mem (rs : List Gpr) (s : Machine) : (run (rs.map .pop) s).mem = s.mem := by
  induction rs generalizing s with
  | nil => rfl
  | cons r rs ih => exact ih (s.pop r)

theorem stores_pop (rs : List Gpr) (s : Machine) : stores (rs.map .pop) s = [] := by
  induction rs generalizing s with
  | nil => rfl
  | cons r rs ih => exact ih (s.pop r)

/-- A row of pops takes a register file off the stack. -/
theorem run_pop {g : Gpr → BitVec 64} (hnodup : rs.Nodup) (hrs : .rsp ∉ rs)
    (h : Holds s.mem s.rsp (rs.map g ++ ws)) :
    (∀ r ∈ rs, (run (rs.map .pop) s).regs r = g r) ∧
    (∀ r ∉ rs, r ≠ .rsp → (run (rs.map .pop) s).regs r = s.regs r) ∧
    Holds (run (rs.map .pop) s).mem (run (rs.map .pop) s).rsp ws := by
  induction rs generalizing s with
  | nil => exact ⟨fun r hr ↦ absurd hr List.not_mem_nil, fun _ _ _ ↦ rfl, h⟩
  | cons r rs ih =>
      obtain ⟨hr, hnodup⟩ := List.nodup_cons.mp hnodup
      rw [List.mem_cons, not_or] at hrs
      rw [List.map_cons, List.cons_append, Holds.cons_iff] at h
      have hne : r ≠ .rsp := fun hr ↦ hrs.1 hr.symm
      have hrest : Holds (s.pop r).mem (s.pop r).rsp (rs.map g ++ ws) := by
        rw [Machine.pop_rsp s hne]
        exact h.2
      obtain ⟨hmem, hother, htop⟩ := ih hnodup hrs.2 hrest
      refine ⟨fun j hj ↦ ?_, fun j hj hj' ↦ ?_, htop⟩
      · rcases List.mem_cons.mp hj with rfl | hj
        · exact (hother j hr hne).trans ((s.pop_regs_self j).trans h.1)
        · exact hmem j hj
      · rw [List.mem_cons, not_or] at hj
        exact (hother j hj.2 hj').trans (s.pop_regs_of_ne hj.1 hj')

end rows

/-! ## Exceptions -/

/-- What an exception interrupts, and what the return from it resumes. -/
structure Context where
  gpr : Gpr → BitVec 64
  rip : BitVec 64
  cs : BitVec 16
  rflags : BitVec 64
  ss : BitVec 16

/-- What the processor pushes, from the error code up. -/
def Context.frame (ctx : Context) : List (BitVec 64) :=
  [ctx.rip, ctx.cs.setWidth 64, ctx.rflags, ctx.gpr .rsp, ctx.ss.setWidth 64]

/-- Delivery of an exception on the stack whose top is `top`. -/
def deliver (ctx : Context) (top : BitVec 64) (errorCode : Option (BitVec 64)) (mem : Mem) :
    Machine :=
  (⟨Function.update ctx.gpr .rsp top, mem⟩ : Machine).pushes (ctx.frame.reverse ++ errorCode.toList)

/-- `iretq` takes `rip`, `cs`, `rflags`, `rsp` and `ss` off the stack, in this order. -/
def iretq (s : Machine) : Context where
  gpr := Function.update s.regs .rsp (wordAt s.mem s.rsp 3)
  rip := wordAt s.mem s.rsp 0
  cs := (wordAt s.mem s.rsp 1).setWidth 16
  rflags := wordAt s.mem s.rsp 2
  ss := (wordAt s.mem s.rsp 4).setWidth 16

theorem deliver_regs (ctx : Context) (top : BitVec 64) (errorCode : Option (BitVec 64)) (mem : Mem)
    {r : Gpr} (h : r ≠ .rsp) : (deliver ctx top errorCode mem).regs r = ctx.gpr r :=
  (Machine.pushes_regs_of_ne _ _ h).trans (Function.update_of_ne h top ctx.gpr)

theorem holds_deliver (ctx : Context) (top : BitVec 64) (errorCode : Option (BitVec 64))
    (mem : Mem) :
    Holds (deliver ctx top errorCode mem).mem (deliver ctx top errorCode mem).rsp
      (errorCode.toList ++ ctx.frame) := by
  have hlen : 8 * ((ctx.frame.reverse ++ errorCode.toList).length + 0) ≤ 2 ^ 64 := by
    cases errorCode <;> simp [Context.frame]
  have hpushes := Holds.nil.pushes (s := ⟨Function.update ctx.gpr .rsp top, mem⟩) hlen
  rw [List.append_nil, List.reverse_append, List.reverse_reverse] at hpushes
  cases errorCode <;> exact hpushes

end Hypervi.X86
