import Mathlib.Data.List.Forall2
import Hypervi.X86.Routine

/-!
# The calling convention, checked

A function that is called from C keeps `rbx`, `rbp` and `r12` to `r15`, gives the stack back
as it found it, and returns to its caller.  `check` decides this for a routine, by following
what its registers and its part of the stack hold: a `Shape` says of each whether it is what
a register held on entry, the address of a label, a place in the frame, or unknown.

* A `Contract` says how many words a routine may push and which buffers its arguments point
  to; `Room` keeps the buffers apart from the frame.
* `Agrees` connects a shape with a machine, and `Agrees.exec` is the step lemma.
* `check_sound` is the rule of a whole run: a routine that passes leaves with an exit, or
  returns as the convention asks.
-/

namespace Hypervi.X86.Routine

open Memory

universe u v w

def calleeSaved : List Gpr := [.rbx, .rbp, .r12, .r13, .r14, .r15]

/-! ## Contracts -/

/-- The words that a routine may push, and the buffers that it may write: so many bytes from
where a register points on entry. -/
structure Contract where
  depth : Nat
  buffers : List (Gpr × Nat)

namespace Contract

variable (c : Contract) (m : Machine)

/-- The lowest address of the frame. -/
def bottom : BitVec 64 := m.rsp - BitVec.ofNat 64 (8 * c.depth)

def OutsideFrame (x : BitVec 64) : Prop := 8 * c.depth ≤ (x - c.bottom m).toNat

def OutsideBuffers (x : BitVec 64) : Prop := ∀ b ∈ c.buffers, b.2 ≤ (x - m.regs b.1).toNat

/-- The frame and the return address above it have room, apart from the buffers. -/
structure Room : Prop where
  depth : 8 * (c.depth + 1) ≤ 2 ^ 64
  apart : ∀ b ∈ c.buffers, Apart (m.regs b.1) b.2 (c.bottom m) (8 * (c.depth + 1))

end Contract

/-- Buffers do not reach into the frame or the return address. -/
theorem Contract.Room.outsideBuffers {c : Contract} {m : Machine} (h : c.Room m) {x : BitVec 64}
    (hx : (x - c.bottom m).toNat < 8 * (c.depth + 1)) : c.OutsideBuffers m x :=
  fun b hb ↦ Nat.not_lt.mp ((h.apart b hb).not_lt hx)

/-- What the caller of a routine may rely on. -/
structure Returned {σ : Type u} (c : Contract) (s₀ s : State σ) : Prop where
  rip : s.rip = load64 s₀.core.mem s₀.core.rsp
  rsp : s.core.rsp = s₀.core.rsp + 8
  saved : ∀ r ∈ calleeSaved, s.core.regs r = s₀.core.regs r
  mem : ∀ x, c.OutsideFrame s₀.core x → c.OutsideBuffers s₀.core x →
    s.core.mem x = s₀.core.mem x

/-! ## Shapes -/

/-- What is known of a word: it is what a register held on entry, the address of a label, or
the stack pointer after so many pushes. -/
inductive Val (L : Type w) where
  | entry (r : Gpr)
  | label (l : L)
  | frame (k : Nat)
  | unknown
  deriving DecidableEq

/-- What is known of the registers and of the words pushed, the last of them first. -/
structure Shape (L : Type w) where
  regs : Gpr → Val L
  stack : List (Val L)

namespace Shape

variable {L : Type w} {ι : Type v}

/-- On entry. -/
def start : Shape L := ⟨.entry, []⟩

def set (a : Shape L) (r : Gpr) (v : Val L) : Shape L :=
  { a with regs := Function.update a.regs r v }

def forget (a : Shape L) (rs : List Gpr) : Shape L :=
  { a with regs := fun r ↦ if r ∈ rs then .unknown else a.regs r }

/-- A write that reaches so many bytes from where a register points is inside a buffer. -/
def Granted (c : Contract) (a : Shape L) (w : Gpr × Nat) : Prop :=
  w.1 ≠ .rsp ∧ ∃ b ∈ c.buffers, a.regs w.1 = .entry b.1 ∧ w.2 ≤ b.2

instance [DecidableEq L] (c : Contract) (a : Shape L) (w : Gpr × Nat) :
    Decidable (a.Granted c w) := instDecidableAnd

def read (a : Shape L) : Operand → Val L
  | .reg .rsp => .frame a.stack.length
  | .reg r => a.regs r
  | _ => .unknown

/-- A word on top of the stack. -/
def push (c : Contract) (a : Shape L) (v : Val L) : Option (Shape L) :=
  if a.stack.length < c.depth then some { a with stack := v :: a.stack } else none

def pop (a : Shape L) (r : Gpr) : Option (Shape L) :=
  match a.stack with
  | [] => none
  | v :: stack => if r = .rsp then none else some ({ a with stack := stack }.set r v)

/-- The shape after an instruction that is not a jump; the stack pointer moves with the stack
only. -/
def exec [DecidableEq L] (e : Effects ι) (c : Contract) (a : Shape L) :
    Instr L ι → Option (Shape L)
  | .mov d src => if d = .rsp then none else some (a.set d (a.read src))
  | .movLabel d l => if d = .rsp then none else some (a.set d (.label l))
  | .alu _ d _ | .bsf d _ => if d = .rsp then none else some (a.set d .unknown)
  | .clc => some a
  | .store32 base off _ => if off < 2 ^ 32 ∧ a.Granted c (base, off + 4) then some a else none
  | .push r => if r = .rsp then none else a.push c (a.regs r)
  | .pop r => a.pop r
  | .pushfq => a.push c .unknown
  | .leave =>
      match a.regs .rbp with
      | .frame k =>
          if k ≤ a.stack.length then
            { a with stack := a.stack.drop (a.stack.length - k) }.pop .rbp
          else none
      | _ => none
  | .system i =>
      if .rsp ∉ e.clobbers i ∧ ∀ w ∈ e.writes i, a.Granted c w then some (a.forget (e.clobbers i))
      else none
  | _ => none

@[simp] theorem set_regs_self (a : Shape L) (r : Gpr) (v : Val L) : (a.set r v).regs r = v := by
  simp only [set, Function.update_self]

theorem set_regs_of_ne (a : Shape L) {r j : Gpr} (v : Val L) (h : j ≠ r) :
    (a.set r v).regs j = a.regs j := by
  simp only [set, Function.update_of_ne h]

theorem forget_regs_of_mem (a : Shape L) {rs : List Gpr} {r : Gpr} (h : r ∈ rs) :
    (a.forget rs).regs r = .unknown := if_pos h

theorem forget_regs_of_notMem (a : Shape L) {rs : List Gpr} {r : Gpr} (h : r ∉ rs) :
    (a.forget rs).regs r = a.regs r := if_neg h

/-- The frame is empty and the registers of the caller are back. -/
def Restored (a : Shape L) : Prop := a.stack = [] ∧ ∀ r ∈ calleeSaved, a.regs r = .entry r

instance [DecidableEq L] (a : Shape L) : Decidable a.Restored := instDecidableAnd

end Shape

/-- A routine keeps the convention, by what is known on entry; a number bounds the length of
its paths. -/
def check {L : Type w} {ι : Type v} [DecidableEq L] (e : Effects ι) (block : L → List (Instr L ι))
    (c : Contract) : Nat → List (Instr L ι) → Shape L → Bool
  | 0, _, _ => false
  | _, [], _ => false
  | n + 1, i :: rest, a =>
      match i with
      | .ret => a.Restored
      | .jz l | .jc l => check e block c n (block l) a && check e block c n rest a
      | .jmp l => check e block c n (block l) a
      | .retf =>
          match a.stack with
          | .label l :: _ :: stack => check e block c n (block l) { a with stack := stack }
          | _ => false
      | i => (a.exec e c i).any (check e block c n rest)

/-! ## Agreement -/

section agreement

variable {L : Type w} {ι : Type v} {σ : Type u} {e : Effects ι} {t : Text L ι} {c : Contract}
  {m₀ m m' : Machine} {a a' : Shape L}

/-- What a value says of a word. -/
def Val.Denotes (t : Text L ι) (m₀ : Machine) (word : BitVec 64) : Val L → Prop
  | .entry r => word = m₀.regs r
  | .label l => word = t.address l
  | .frame k => word = m₀.rsp - BitVec.ofNat 64 (8 * k)
  | .unknown => True

/-- The shape is right about a machine that a routine has reached. -/
structure Agrees (t : Text L ι) (c : Contract) (m₀ : Machine) (a : Shape L) (m : Machine) :
    Prop where
  rsp : m.rsp = m₀.rsp - BitVec.ofNat 64 (8 * a.stack.length)
  depth : a.stack.length ≤ c.depth
  regs : ∀ r, r ≠ .rsp → (a.regs r).Denotes t m₀ (m.regs r)
  stack : ∃ ws, Holds m.mem m.rsp ws ∧ List.Forall₂ (fun v word ↦ v.Denotes t m₀ word) a.stack ws
  mem : ∀ x, c.OutsideFrame m₀ x → c.OutsideBuffers m₀ x → m.mem x = m₀.mem x

namespace Agrees

theorem start (t : Text L ι) (c : Contract) (m₀ : Machine) : Agrees t c m₀ Shape.start m₀ where
  rsp := (BitVec.sub_zero _).symm
  depth := Nat.zero_le _
  regs _ _ := rfl
  stack := ⟨[], Holds.nil, .nil⟩
  mem _ _ _ := rfl

/-- A register other than the stack pointer is written. -/
theorem set (h : Agrees t c m₀ a m) {d : Gpr} {v : Val L} {word : BitVec 64} (hd : d ≠ .rsp)
    (hv : v.Denotes t m₀ word) : Agrees t c m₀ (a.set d v) (m.set d word) where
  rsp := (m.set_regs_of_ne word hd.symm).trans h.rsp
  depth := h.depth
  regs r hr := by
    by_cases hrd : r = d
    · rw [hrd, Shape.set_regs_self, Machine.set_regs_self]
      exact hv
    · rw [a.set_regs_of_ne v hrd, m.set_regs_of_ne word hrd]
      exact h.regs r hr
  stack := by
    have hrsp : (m.set d word).rsp = m.rsp := m.set_regs_of_ne word hd.symm
    rw [Machine.set_mem, hrsp]
    exact h.stack
  mem := h.mem

theorem read (h : Agrees t c m₀ a m) (src : Operand) :
    (a.read src).Denotes t m₀ (src.read m) := by
  cases src with
  | reg r =>
      by_cases hr : r = .rsp
      · subst hr
        exact h.rsp
      · have hread : a.read (.reg r) = a.regs r := by cases r <;> first | rfl | exact absurd rfl hr
        rw [hread]
        exact h.regs r hr
  | reg32 r => trivial
  | imm v => trivial
  | word base => trivial
  | dword base off => trivial

/-- The words on the stack are inside the frame. -/
theorem in_frame (hroom : c.Room m₀) (h : Agrees t c m₀ a m) {i : Nat}
    (hi : i < 8 * a.stack.length) :
    (m.rsp + BitVec.ofNat 64 i - c.bottom m₀).toNat < 8 * c.depth := by
  have hdepth := hroom.depth
  have hlen := h.depth
  have hsplit : m.rsp + BitVec.ofNat 64 i - c.bottom m₀ =
      BitVec.ofNat 64 (8 * (c.depth - a.stack.length) + i) := by
    rw [Contract.bottom, h.rsp]
    bv_omega
  rw [hsplit, BitVec.toNat_ofNat, Nat.mod_eq_of_lt (by omega)]
  omega

/-- The next word to be pushed is inside the frame. -/
theorem push_in_frame (hroom : c.Room m₀) (h : Agrees t c m₀ a m)
    (hlen : a.stack.length < c.depth) {x : BitVec 64} (hx : c.OutsideFrame m₀ x) :
    ¬ (x - (m.rsp - 8)).toNat < 8 := by
  have hdepth := hroom.depth
  have hsplit : m.rsp - 8 = c.bottom m₀ + BitVec.ofNat 64 (8 * (c.depth - a.stack.length - 1)) := by
    rw [Contract.bottom, h.rsp]
    bv_omega
  rw [Contract.OutsideFrame] at hx
  rw [hsplit]
  bv_omega

/-- Registers and memory that a routine owns are written. -/
theorem write (hroom : c.Room m₀) (h : Agrees t c m₀ a m) {rs : List Gpr} (hrsp : .rsp ∉ rs)
    (hregs : ∀ r ∉ rs, m'.regs r = m.regs r)
    (hmem : ∀ x, c.OutsideBuffers m₀ x → m'.mem x = m.mem x) :
    Agrees t c m₀ (a.forget rs) m' where
  rsp := (hregs .rsp hrsp).trans h.rsp
  depth := h.depth
  regs r hr := by
    by_cases hmem : r ∈ rs
    · rw [a.forget_regs_of_mem hmem]
      trivial
    · rw [a.forget_regs_of_notMem hmem, hregs r hmem]
      exact h.regs r hr
  stack := by
    obtain ⟨ws, hholds, hdenotes⟩ := h.stack
    refine ⟨ws, ?_, hdenotes⟩
    have htop : m'.rsp = m.rsp := hregs .rsp hrsp
    rw [htop]
    refine hholds.congr fun i hi ↦ hmem _ (hroom.outsideBuffers ?_)
    have hin := h.in_frame hroom (hdenotes.length_eq ▸ hi)
    omega
  mem x hframe hbuffers := (hmem x hbuffers).trans (h.mem x hframe hbuffers)

theorem push (hroom : c.Room m₀) (h : Agrees t c m₀ a m) {v : Val L} {word : BitVec 64}
    (hv : v.Denotes t m₀ word) (hpush : a.push c v = some a') :
    Agrees t c m₀ a' (m.push word) := by
  have hdepth := hroom.depth
  obtain ⟨hlen, hsome⟩ := Option.ite_none_right_eq_some.mp hpush
  obtain rfl := Option.some.inj hsome
  obtain ⟨ws, hholds, hdenotes⟩ := h.stack
  have hlength := hdenotes.length_eq
  refine ⟨?_, hlen, fun r hr ↦ ?_, ⟨word :: ws, hholds.push (by omega), .cons hv hdenotes⟩,
    fun x hframe hbuffers ↦ ?_⟩
  · rw [Machine.push_rsp, h.rsp, List.length_cons, Nat.mul_succ, BitVec.ofNat_add]
    bv_omega
  · rw [m.push_regs_of_ne word hr]
    exact h.regs r hr
  · rw [Machine.push_mem, store64, store, if_neg (h.push_in_frame hroom hlen hframe)]
    exact h.mem x hframe hbuffers

theorem pop (h : Agrees t c m₀ a m) {r : Gpr} (hpop : a.pop r = some a') :
    Agrees t c m₀ a' (m.pop r) := by
  obtain ⟨ws, hholds, hdenotes⟩ := h.stack
  rw [Shape.pop] at hpop
  cases hstack : a.stack with
  | nil => simp [hstack] at hpop
  | cons v stack =>
      simp only [hstack] at hpop
      obtain ⟨hr, hsome⟩ := Option.ite_none_left_eq_some.mp hpop
      obtain rfl := Option.some.inj hsome
      rw [hstack] at hdenotes
      cases hdenotes with
      | @cons _ word _ ws hv hrest =>
          obtain ⟨hword, hbelow⟩ := Holds.cons_iff.mp hholds
          have hset : (m.set .rsp (m.rsp + 8)).rsp = m.rsp + 8 := m.set_regs_self .rsp _
          have hpopped : Agrees t c m₀ { a with stack := stack } (m.set .rsp (m.rsp + 8)) := by
            refine ⟨?_, ?_, fun j hj ↦ ?_, ⟨ws, ?_, hrest⟩, h.mem⟩
            · have hrsp := h.rsp
              rw [hstack, List.length_cons, Nat.mul_succ, BitVec.ofNat_add] at hrsp
              rw [hset, hrsp]
              bv_omega
            · have hdepth := h.depth
              rw [hstack, List.length_cons] at hdepth
              exact Nat.le_of_succ_le hdepth
            · rw [m.set_regs_of_ne _ hj]
              exact h.regs j hj
            · rw [hset]
              exact hbelow
          exact hpopped.set hr (hword ▸ hv)

/-- The stack pointer goes back to where the frame was so many words deep. -/
theorem drop (h : Agrees t c m₀ a m) {k : Nat} (hk : k ≤ a.stack.length) {top : BitVec 64}
    (htop : top = m₀.rsp - BitVec.ofNat 64 (8 * k)) :
    Agrees t c m₀ { a with stack := a.stack.drop (a.stack.length - k) } (m.set .rsp top) := by
  obtain ⟨ws, hholds, hdenotes⟩ := h.stack
  have hset : (m.set .rsp top).rsp = top := m.set_regs_self .rsp top
  have hlength : (a.stack.drop (a.stack.length - k)).length = k := by
    rw [List.length_drop]
    omega
  refine ⟨?_, ?_, fun r hr ↦ ?_,
    ⟨_, ?_, List.forall₂_drop (a.stack.length - k) hdenotes⟩, h.mem⟩
  · rw [hset, htop, hlength]
  · rw [hlength]
    exact Nat.le_trans hk h.depth
  · rw [m.set_regs_of_ne top hr]
    exact h.regs r hr
  · have hat : top = m.rsp + BitVec.ofNat 64 (8 * (a.stack.length - k)) := by
      rw [htop, h.rsp]
      bv_omega
    rw [hset, hat]
    exact hholds.drop _

/-- What lies outside the buffers of a routine is outside what it may write. -/
theorem outside_write (h : Agrees t c m₀ a m) {w : Gpr × Nat} (hw : a.Granted c w)
    {x : BitVec 64} (hx : c.OutsideBuffers m₀ x) : w.2 ≤ (x - m.regs w.1).toNat := by
  obtain ⟨hrsp, b, hb, hentry, hle⟩ := hw
  have hbase := h.regs w.1 hrsp
  rw [hentry] at hbase
  rw [show m.regs w.1 = m₀.regs b.1 from hbase]
  exact Nat.le_trans hle (hx b hb)

/-! ## Steps -/

variable [DecidableEq L] {s s' : State σ} {i : Instr L ι}

theorem leave (h : Agrees t c m₀ a s.core) (hexec : a.exec e c (.leave : Instr L ι) = some a') :
    Agrees t c m₀ a' ((Instr.leave : Instr L ι).exec t s).core := by
  cases hrbp : a.regs .rbp with
  | frame k =>
      simp only [Shape.exec, hrbp] at hexec
      obtain ⟨hk, hpop⟩ := Option.ite_none_right_eq_some.mp hexec
      have htop := h.regs .rbp (by decide)
      rw [hrbp] at htop
      exact (h.drop hk htop).pop hpop
  | entry r => simp [Shape.exec, hrbp] at hexec
  | label l => simp [Shape.exec, hrbp] at hexec
  | unknown => simp [Shape.exec, hrbp] at hexec

theorem store32 (hroom : c.Room m₀) (h : Agrees t c m₀ a s.core) {base src : Gpr} {off : Nat}
    (hexec : a.exec e c (.store32 base off src : Instr L ι) = some a') :
    Agrees t c m₀ a' ((Instr.store32 base off src : Instr L ι).exec t s).core := by
  obtain ⟨⟨hoff, hgranted⟩, hsome⟩ := Option.ite_none_right_eq_some.mp hexec
  obtain rfl := Option.some.inj hsome
  have hnil : Gpr.rsp ∉ ([] : List Gpr) := List.not_mem_nil
  refine h.write hroom hnil (fun _ _ ↦ rfl) fun x hx ↦ if_neg ?_
  have hout := h.outside_write hgranted hx
  bv_omega

/-- An instruction that is not a jump and not a system instruction keeps the agreement. -/
theorem exec (hroom : c.Room m₀) (h : Agrees t c m₀ a s.core) (hi : ∀ j, i ≠ .system j)
    (hexec : a.exec e c i = some a') : Agrees t c m₀ a' (i.exec t s).core := by
  cases i with
  | mov d src =>
      obtain ⟨hd, hsome⟩ := Option.ite_none_left_eq_some.mp hexec
      obtain rfl := Option.some.inj hsome
      exact h.set hd (h.read src)
  | movLabel d l =>
      obtain ⟨hd, hsome⟩ := Option.ite_none_left_eq_some.mp hexec
      obtain rfl := Option.some.inj hsome
      exact h.set hd rfl
  | alu op d src =>
      obtain ⟨hd, hsome⟩ := Option.ite_none_left_eq_some.mp hexec
      obtain rfl := Option.some.inj hsome
      exact h.set hd trivial
  | bsf d src =>
      obtain ⟨hd, hsome⟩ := Option.ite_none_left_eq_some.mp hexec
      obtain rfl := Option.some.inj hsome
      exact h.set hd trivial
  | clc =>
      obtain rfl := Option.some.inj hexec
      exact h
  | store32 base off src => exact h.store32 hroom hexec
  | push r =>
      obtain ⟨hr, hpush⟩ := Option.ite_none_left_eq_some.mp hexec
      exact h.push hroom (h.regs r hr) hpush
  | pop r => exact h.pop hexec
  | pushfq => exact h.push hroom (v := .unknown) trivial hexec
  | leave => exact h.leave hexec
  | system j => exact absurd rfl (hi j)
  | jz l => cases hexec
  | jc l => cases hexec
  | jmp l => cases hexec
  | ret => cases hexec
  | retf => cases hexec

theorem system (p : System e σ) (hroom : c.Room m₀) (h : Agrees t c m₀ a s.core) {j : ι}
    (hexec : a.exec e c (.system j : Instr L ι) = some a') (hstep : p.exec j s = .ok s') :
    Agrees t c m₀ a' s'.core := by
  obtain ⟨⟨hrsp, hgranted⟩, hsome⟩ := Option.ite_none_right_eq_some.mp hexec
  obtain rfl := Option.some.inj hsome
  exact h.write hroom hrsp (p.regs hstep) fun x hx ↦
    p.mem hstep x fun w hw ↦ h.outside_write (hgranted w hw) hx

end Agrees

/-! ## Soundness -/

section soundness

variable {s₀ s : State σ}

/-- A routine comes to its end, and when it returns, it does so as the convention asks. -/
def Keeps (p : System e σ) (t : Text L ι) (c : Contract) (s₀ : State σ)
    (code : List (Instr L ι)) (s : State σ) : Prop :=
  ∃ o, Finishes p t code s o ∧ ∀ s', o = .ok s' → Returned c s₀ s'

theorem Keeps.exit {p : System e σ} {i : Instr L ι} {rest code : List (Instr L ι)} {exit : Exit}
    (hsem : sem p t i rest (.ok s) = (.error exit, code)) : Keeps p t c s₀ (i :: rest) s :=
  ⟨.error exit, Finishes.exit hsem, fun _ h ↦ nomatch h⟩

theorem Keeps.step {p : System e σ} {i : Instr L ι} {rest code : List (Instr L ι)} {s' : State σ}
    (hsem : sem p t i rest (.ok s) = (.ok s', code)) (h : Keeps p t c s₀ code s') :
    Keeps p t c s₀ (i :: rest) s := by
  obtain ⟨o, hends, hreturned⟩ := h
  exact ⟨o, hends.step hsem, hreturned⟩

/-- The return, from an empty frame. -/
theorem Agrees.ret (hroom : c.Room s₀.core) (h : Agrees t c s₀.core a s.core)
    (ha : a.Restored) (p : System e σ) (rest : List (Instr L ι)) :
    Keeps p t c s₀ (.ret :: rest) s := by
  obtain ⟨hstack, hsaved⟩ := ha
  have hdepth := hroom.depth
  have hrsp : s.core.rsp = s₀.core.rsp := by
    rw [h.rsp, hstack]
    exact BitVec.sub_zero _
  refine ⟨_, ⟨1, rfl⟩, fun s' hs' ↦ ?_⟩
  obtain rfl := Except.ok.inj hs'
  refine ⟨?_, ?_, fun r hr ↦ ?_, h.mem⟩
  · -- the return address is above the frame
    rw [hrsp]
    refine load_congr fun i hi ↦ h.mem _ ?_ (hroom.outsideBuffers ?_)
    · rw [Contract.OutsideFrame, Contract.bottom]
      bv_omega
    · rw [Contract.bottom]
      bv_omega
  · rw [← hrsp]
    exact s.core.set_regs_self .rsp _
  · have hne : r ≠ .rsp := by
      rintro rfl
      exact absurd hr (by decide)
    have hentry := h.regs r hne
    rw [hsaved r hr] at hentry
    exact (s.core.set_regs_of_ne _ hne).trans hentry

/-- The far return to a label of the text. -/
theorem Agrees.retf (h : Agrees t c s₀.core a s.core) {l : L} {v : Val L}
    {stack : List (Val L)} (hstack : a.stack = .label l :: v :: stack) (p : System e σ)
    (rest : List (Instr L ι))
    (hblock : ∀ s, Agrees t c s₀.core { a with stack := stack } s.core →
      Keeps p t c s₀ (t.block l) s) :
    Keeps p t c s₀ (.retf :: rest) s := by
  obtain ⟨ws, hholds, hdenotes⟩ := h.stack
  have hlength : a.stack.length = stack.length + 2 := by
    rw [hstack]
    rfl
  have htop : s.core.rsp + 16 = s₀.core.rsp - BitVec.ofNat 64 (8 * stack.length) := by
    rw [h.rsp, hlength]
    bv_omega
  have hdrop := h.drop (hlength ▸ Nat.le_add_right _ 2) htop
  have hrest : a.stack.drop (a.stack.length - stack.length) = stack := by
    rw [hlength, Nat.add_sub_cancel_left, hstack]
    rfl
  rw [hrest] at hdrop
  rw [hstack] at hdenotes
  cases hdenotes with
  | @cons _ target _ ws hlabel _ =>
      have htarget : load64 s.core.mem s.core.rsp = t.address l :=
        (Holds.cons_iff.mp hholds).1.trans hlabel
      have hat : t.labelAt (load64 s.core.mem s.core.rsp) = some l := by
        rw [htarget, t.labelAt_address]
      cases hcs : p.loadCs ((load64 s.core.mem (s.core.rsp + 8)).setWidth 16) s.sys with
      | error exit =>
          have hsem : sem p t .retf rest (.ok s) = (.error exit, []) := by
            simp only [sem, hat, hcs]
          exact Keeps.exit hsem
      | ok sys =>
          have hsem : sem p t .retf rest (.ok s) =
              (.ok { s with core := s.core.set .rsp (s.core.rsp + 16), sys := sys },
                t.block l) := by
            simp only [sem, hat, hcs]
          exact Keeps.step hsem (hblock _ hdrop)

/-- A routine that passes the check keeps the calling convention. -/
theorem check_sound [DecidableEq L] (p : System e σ) (hroom : c.Room s₀.core) {n : Nat}
    {code : List (Instr L ι)} (hcheck : check e t.block c n code a = true)
    (h : Agrees t c s₀.core a s.core) : Keeps p t c s₀ code s := by
  induction n generalizing code a s with
  | zero => cases hcheck
  | succ n ih =>
      cases code with
      | nil => cases hcheck
      | cons i rest =>
          have hfalls (hany : (a.exec e c i).any (check e t.block c n rest) = true)
              (hi : ∀ j, i ≠ .system j) (hsem : sem p t i rest (.ok s) = (.ok (i.exec t s), rest)) :
              Keeps p t c s₀ (i :: rest) s := by
            obtain ⟨a', hexec, hrest⟩ := (Option.any_eq_true _ _).mp hany
            exact Keeps.step hsem (ih hrest (h.exec hroom hi hexec))
          cases i
          case ret => exact h.ret hroom (of_decide_eq_true hcheck) p rest
          case jz l =>
            obtain ⟨htaken, hrest⟩ := Bool.and_eq_true_iff.mp hcheck
            refine Keeps.step rfl ?_
            split
            · exact ih htaken h
            · exact ih hrest h
          case jc l =>
            obtain ⟨htaken, hrest⟩ := Bool.and_eq_true_iff.mp hcheck
            refine Keeps.step rfl ?_
            split
            · exact ih htaken h
            · exact ih hrest h
          case jmp l => exact Keeps.step rfl (ih hcheck h)
          case retf =>
            rw [check] at hcheck
            split at hcheck
            · next hstack => exact h.retf hstack p rest fun s hs ↦ ih hcheck hs
            · cases hcheck
          case system j =>
            obtain ⟨a', hexec, hrest⟩ := (Option.any_eq_true _ _).mp hcheck
            cases hstep : p.exec j s with
            | error exit => exact Keeps.exit (congrArg (·, rest) hstep)
            | ok s' =>
                have hagrees := h.system p hroom hexec hstep
                exact Keeps.step (congrArg (·, rest) hstep) (ih hrest hagrees)
          -- the others fall through
          all_goals exact hfalls hcheck (fun _ hi ↦ nomatch hi) rfl

end soundness

end agreement

end Hypervi.X86.Routine
