import Hypervi.Program
import Hypervi.X86.Stack

/-!
# Assembly routines

A routine is a list of instructions that ends with a `ret` or jumps to a block that does.
The instructions for the general registers, the stack and the flags are spelled out;
system instructions are a parameter, a `System` over a state `σ` that only they reach.
A `System` carries what each of its instructions may write, and the proof that it
writes nothing else.

* `sem` gives the instructions their meaning as a `Program.Semantics`: a jump puts the block
  of its label in place of what follows it.
* A routine that does not return ends with an `Exit`.
* Of the status flags, the arithmetic instructions compute the carry flag and the zero
  flag.
-/

namespace Hypervi.X86.Routine

open Memory

universe u v w

/-! ## Processors -/

/-- What a routine ends with in place of a return: an exception, the entry of a guest, or a
jump to an address that none of its labels has. -/
inductive Exit where
  | exception
  | vmEntry
  | astray (target : BitVec 64)
  deriving DecidableEq

/-- A processor between two instructions. -/
structure State (σ : Type u) where
  core : Machine
  rflags : BitVec 64
  rip : BitVec 64
  sys : σ

section flags

/-- The positions of `CF`, `ZF` and `IF`. -/
def carryFlag : Nat := 0
def zeroFlag : Nat := 6
def interruptFlag : Nat := 9

def setFlag (rflags : BitVec 64) (i : Nat) (b : Bool) : BitVec 64 :=
  if b then rflags ||| 1#64 <<< i else rflags &&& ~~~(1#64 <<< i)

theorem getLsbD_setFlag (rflags : BitVec 64) {i : Nat} (hi : i < 64) (b : Bool) (j : Nat) :
    (setFlag rflags i b).getLsbD j = if j = i then b else rflags.getLsbD j := by
  have hone : (1#64 <<< i).getLsbD j = decide (j = i) := by
    rw [BitVec.getLsbD_shiftLeft, BitVec.getLsbD_one]
    by_cases hj : j = i
    · simp [hj, hi]
    · simp only [hj, decide_false]
      simp only [Bool.and_eq_false_iff, decide_eq_false_iff_not, Bool.not_eq_false']
      simp only [decide_eq_true_eq]
      omega
  cases b with
  | true =>
      rw [setFlag, if_pos rfl, BitVec.getLsbD_or, hone]
      by_cases hj : j = i <;> simp [hj]
  | false =>
      rw [setFlag, if_neg Bool.false_ne_true, BitVec.getLsbD_and, BitVec.getLsbD_not, hone]
      by_cases hj : j = i
      · simp [hj]
      · by_cases hlt : j < 64
        · simp [hj, hlt]
        · simp [hj, BitVec.getLsbD_of_ge rflags j (Nat.not_lt.mp hlt)]

end flags

namespace State

variable {σ : Type u}

def zf (s : State σ) : Bool := s.rflags.getLsbD zeroFlag

def cf (s : State σ) : Bool := s.rflags.getLsbD carryFlag

end State

/-! ## Instructions -/

/-- What an instruction reads: a register, the lower half of one, a constant, or a word or
half a word of memory. -/
inductive Operand where
  | reg (r : Gpr)
  | reg32 (r : Gpr)
  | imm (v : BitVec 64)
  | word (base : Gpr)
  | dword (base : Gpr) (off : Nat)

/-- Half a word is extended with zeros. -/
def Operand.read (m : Machine) : Operand → BitVec 64
  | .reg r => m.regs r
  | .reg32 r => ((m.regs r).setWidth 32).setWidth 64
  | .imm v => v
  | .word base => load64 m.mem (m.regs base)
  | .dword base off => (load32 m.mem (m.regs base + BitVec.ofNat 64 off)).setWidth 64

inductive AluOp where
  | add | or | xor | shl | shr

/-- The result and the carry; a shift is by 1 to 63 places. -/
def AluOp.eval (a b : BitVec 64) : AluOp → BitVec 64 × Bool
  | .add => (a + b, decide (2 ^ 64 ≤ a.toNat + b.toNat))
  | .or => (a ||| b, false)
  | .xor => (a ^^^ b, false)
  | .shl => (a <<< b.toNat, a.getLsbD (64 - b.toNat))
  | .shr => (a >>> b.toNat, a.getLsbD (b.toNat - 1))

/-- Instructions with labels `L` and system instructions `ι`.  `bsf` leaves its destination
alone when its operand is zero. -/
inductive Instr (L : Type w) (ι : Type v) where
  | mov (d : Gpr) (src : Operand)
  | movLabel (d : Gpr) (l : L)
  | alu (op : AluOp) (d : Gpr) (src : Operand)
  | bsf (d : Gpr) (src : Gpr)
  | clc
  | store32 (base : Gpr) (off : Nat) (src : Gpr)
  | push (r : Gpr)
  | pop (r : Gpr)
  | pushfq
  | leave
  | system (i : ι)
  | jz (l : L)
  | jc (l : L)
  | jmp (l : L)
  | ret
  | retf

/-- The registers that a system instruction may change, and the memory: so many bytes from
where a register points. -/
structure Effects (ι : Type v) where
  clobbers : ι → List Gpr
  writes : ι → List (Gpr × Nat)

/-- The system instructions of a processor. -/
structure System {ι : Type v} (e : Effects ι) (σ : Type u) where
  exec : ι → State σ → Except Exit (State σ)
  /-- What the far return does with the selector that it takes off the stack. -/
  loadCs : BitVec 16 → σ → Except Exit σ
  regs : ∀ {i s s'}, exec i s = .ok s' → ∀ r ∉ e.clobbers i, s'.core.regs r = s.core.regs r
  mem : ∀ {i s s'}, exec i s = .ok s' →
    ∀ x, (∀ w ∈ e.writes i, w.2 ≤ (x - s.core.regs w.1).toNat) → s'.core.mem x = s.core.mem x

/-- Where the labels of a text are in memory. -/
structure Placement (L : Type w) where
  address : L → BitVec 64
  labelAt : BitVec 64 → Option L
  labelAt_address : ∀ l, labelAt (address l) = some l

/-- The blocks of a text. -/
structure Text (L : Type w) (ι : Type v) extends Placement L where
  block : L → List (Instr L ι)

section semantics

variable {L : Type w} {ι : Type v} {σ : Type u} {e : Effects ι}

/-- What an instruction that is not a jump and not a system instruction does. -/
def Instr.exec (t : Text L ι) : Instr L ι → State σ → State σ
  | .mov d src, s => { s with core := s.core.set d (src.read s.core) }
  | .movLabel d l, s => { s with core := s.core.set d (t.address l) }
  | .alu op d src, s =>
      let (value, carry) := op.eval (s.core.regs d) (src.read s.core)
      { s with
        core := s.core.set d value
        rflags := setFlag (setFlag s.rflags zeroFlag (value == 0)) carryFlag carry }
  | .bsf d src, s =>
      let value := s.core.regs src
      { s with
        core := s.core.set d (if value = 0 then s.core.regs d else value.ctz)
        rflags := setFlag s.rflags zeroFlag (value == 0) }
  | .clc, s => { s with rflags := setFlag s.rflags carryFlag false }
  | .store32 base off src, s =>
      let address := s.core.regs base + BitVec.ofNat 64 off
      { s with core := { s.core with
          mem := store 4 s.core.mem address ((s.core.regs src).setWidth 32) } }
  | .push r, s => { s with core := s.core.push (s.core.regs r) }
  | .pop r, s => { s with core := s.core.pop r }
  | .pushfq, s => { s with core := s.core.push s.rflags }
  | .leave, s => { s with core := (s.core.set .rsp (s.core.regs .rbp)).pop .rbp }
  | _, s => s

/-- The meaning of an instruction, with the instructions that follow it. -/
def sem (p : System e σ) (t : Text L ι) : Program.Semantics (Except Exit (State σ)) (Instr L ι)
  | _, _, .error exit => (.error exit, [])
  | .system i, rest, .ok s => (p.exec i s, rest)
  | .jz l, rest, .ok s => (.ok s, if s.zf then t.block l else rest)
  | .jc l, rest, .ok s => (.ok s, if s.cf then t.block l else rest)
  | .jmp l, _, .ok s => (.ok s, t.block l)
  | .ret, _, .ok s =>
      let target := load64 s.core.mem s.core.rsp
      (.ok { s with core := s.core.set .rsp (s.core.rsp + 8), rip := target }, [])
  | .retf, _, .ok s =>
      let target := load64 s.core.mem s.core.rsp
      match t.labelAt target with
      | none => (.error (.astray target), [])
      | some l =>
          match p.loadCs ((load64 s.core.mem (s.core.rsp + 8)).setWidth 16) s.sys with
          | .error exit => (.error exit, [])
          | .ok sys => (.ok { s with core := s.core.set .rsp (s.core.rsp + 16), sys := sys },
              t.block l)
  | i, rest, .ok s => (.ok (i.exec t s), rest)

/-- A routine comes to its end with the outcome `o`. -/
def Finishes (p : System e σ) (t : Text L ι) (code : List (Instr L ι)) (s : State σ)
    (o : Except Exit (State σ)) : Prop :=
  ∃ n, Program.run (sem p t) n (.ok s, code) = (o, [])

namespace Finishes

variable {p : System e σ} {t : Text L ι} {i : Instr L ι} {rest code : List (Instr L ι)}
  {s s' : State σ} {o : Except Exit (State σ)}

/-- One step before the others. -/
theorem step (hsem : sem p t i rest (.ok s) = (.ok s', code)) (h : Finishes p t code s' o) :
    Finishes p t (i :: rest) s o := by
  obtain ⟨n, hn⟩ := h
  refine ⟨n + 1, ?_⟩
  rw [Program.run_succ, Program.step, hsem, hn]

/-- What follows a step ends the same way. -/
theorem of_step (hsem : sem p t i rest (.ok s) = (.ok s', code))
    (h : Finishes p t (i :: rest) s o) : Finishes p t code s' o := by
  obtain ⟨n, hn⟩ := h
  cases n with
  | zero => cases hn
  | succ n =>
      rw [Program.run_succ, Program.step, hsem] at hn
      exact ⟨n, hn⟩

/-- A step that leaves the routine. -/
theorem exit {exit : Exit} (hsem : sem p t i rest (.ok s) = (.error exit, code)) :
    Finishes p t (i :: rest) s (.error exit) := by
  cases code with
  | nil => exact ⟨1, hsem⟩
  | cons j code => exact ⟨2, by rw [Program.run_succ, Program.step, hsem]; rfl⟩

theorem system_exit {j : ι} {exit : Exit} (hexec : p.exec j s = .error exit) :
    Finishes p t (.system j :: rest) s (.error exit) := Finishes.exit (congrArg (·, rest) hexec)

/-- A routine has one end. -/
theorem unique {o' : Except Exit (State σ)} (h : Finishes p t code s o)
    (h' : Finishes p t code s o') : o = o' := by
  obtain ⟨n, hn⟩ := h
  obtain ⟨k, hk⟩ := h'
  exact Program.eq_of_run_nil hn hk

end Finishes

end semantics

end Hypervi.X86.Routine
