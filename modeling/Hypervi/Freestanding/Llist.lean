import Mathlib.Logic.Function.Basic
import Mathlib.Logic.Relation
import Mathlib.Data.List.Nodup
import Mathlib.Data.List.Induction

/-!
# `lliste`

A list whose nodes point to the next one and to the one before.  `append` puts the new node
behind the one that it is called on, whether or not there is a next one already: that one
is then no longer pointed to, and still points back.

The nodes are those that have been added, linked in this order (`IsChain`), as long as
`append` is called on the last of them; and `consistent_iff` says that the links are as
they should be throughout a run exactly when it always is.
-/

namespace Hypervi.Freestanding

universe u

/-! ## Following a link -/

section follow

variable {P : Type u} [DecidableEq P]

/-- The loop `while (curr->link != nullptr) curr = curr->link;`.  A pointer to no node has
no link. -/
def follow (link : P → Option P) (null : P) : Nat → P → Option P
  | 0, _ => none
  | fuel + 1, curr =>
      match link curr with
      | none => none
      | some p => if p ≠ null then follow link null fuel p else some curr

/-- The loop ends at `p`. -/
def Ends (link : P → Option P) (null curr p : P) : Prop :=
  ∃ fuel, follow link null fuel curr = some p

variable {link : P → Option P} {null : P}

/-- Along a path, the loop ends where the path does. -/
theorem follow_of_path (n : Nat) (path : Nat → P)
    (h : ∀ i < n, link (path i) = some (path (i + 1)) ∧ path (i + 1) ≠ null)
    (hend : link (path n) = some null) : follow link null (n + 1) (path 0) = some (path n) := by
  induction n generalizing path with
  | zero =>
      rw [follow, hend]
      simp only [ne_eq, not_true_eq_false, if_false]
  | succ n ih =>
      obtain ⟨hlink, hne⟩ := h 0 (Nat.succ_pos n)
      rw [follow, hlink]
      simp only [if_pos hne]
      exact ih (fun i ↦ path (i + 1)) (fun i hi ↦ h (i + 1) (Nat.succ_lt_succ hi)) hend

/-- Where the loop ends and does not end at once, the link is to a node. -/
theorem Ends.isSome {curr p q : P} (h : Ends link null curr q) (hlink : link curr = some p)
    (hne : p ≠ null) : (link p).isSome := by
  obtain ⟨fuel, hfuel⟩ := h
  cases fuel with
  | zero => cases hfuel
  | succ fuel =>
      rw [follow, hlink] at hfuel
      simp only [if_pos hne] at hfuel
      cases fuel with
      | zero => cases hfuel
      | succ fuel =>
          rw [follow] at hfuel
          cases hp : link p with
          | none =>
              rw [hp] at hfuel
              cases hfuel
          | some r => rfl

end follow

/-! ## The class -/

variable {T : Type u}

/-- `lliste` -/
structure Lliste (T : Type u) where
  mPrev : BitVec 64
  mNext : BitVec 64
  mData : T

/-- The nodes in memory. -/
abbrev Nodes (T : Type u) := BitVec 64 → Option (Lliste T)

/-- `lliste(T data)` -/
def Lliste.single (data : T) : Lliste T := ⟨0, 0, data⟩

/-- `lliste(T data, lliste* prev)` -/
def Lliste.behind (data : T) (prev : BitVec 64) : Lliste T := ⟨prev, 0, data⟩

def Nodes.next (nodes : Nodes T) (p : BitVec 64) : Option (BitVec 64) := (nodes p).map (·.mNext)

def Nodes.prev (nodes : Nodes T) (p : BitVec 64) : Option (BitVec 64) := (nodes p).map (·.mPrev)

/-- `head` returns the node `e`. -/
def HeadReturns (nodes : Nodes T) (this e : BitVec 64) : Prop := Ends nodes.prev 0 this e

/-- `tail` returns the node `e`. -/
def TailReturns (nodes : Nodes T) (this e : BitVec 64) : Prop := Ends nodes.next 0 this e

/-- A call of `append` on the node at `node`, and the address that `new` returns. -/
structure Append (T : Type u) where
  node : BitVec 64
  data : T
  newEntry : BitVec 64

/-- `append` -/
def append (nodes : Nodes T) (c : Append T) : Nodes T :=
  let nodes := Function.update nodes c.newEntry (some (.behind c.data c.node))
  match nodes c.node with
  | some n => Function.update nodes c.node (some { n with mNext := c.newEntry })
  | none => nodes

/-! ## Runs -/

/-- The nodes, and the elements that have been added with their addresses, the first one
first. -/
structure Llist (T : Type u) where
  nodes : Nodes T
  added : List (BitVec 64 × T)

namespace Llist

/-- A list of one node. -/
def single (first : BitVec 64) (data : T) : Llist T where
  nodes := Function.update (fun _ ↦ none) first (some (.single data))
  added := [(first, data)]

def step (s : Llist T) (c : Append T) : Llist T where
  nodes := append s.nodes c
  added := s.added ++ [(c.newEntry, c.data)]

def run (s : Llist T) (cs : List (Append T)) : Llist T := cs.foldl step s

/-- The call is on a node of the list, and `new` returns memory in which there is none. -/
structure Legal (s : Llist T) (c : Append T) : Prop where
  node : (s.nodes c.node).isSome
  ne_null : c.newEntry ≠ 0
  fresh : s.nodes c.newEntry = none

/-- Each call is legal when it is made. -/
def LegalRun (s : Llist T) : List (Append T) → Prop
  | [] => True
  | c :: cs => s.Legal c ∧ (s.step c).LegalRun cs

/-- The call is on a node without a next one. -/
def AtEnd (s : Llist T) (c : Append T) : Prop := s.nodes.next c.node = some 0

/-- The links are as they should be. -/
structure Consistent (s : Llist T) : Prop where
  /-- Neighbours point to each other. -/
  neighbours : ∀ p a q b, s.nodes p = some a → s.nodes q = some b →
    (a.mNext = q ↔ b.mPrev = p)
  /-- From every node the two ends are found, which are the same for all; the elements are
  reached from the first, and the one added last is at the last. -/
  ends : ∃ first last,
    (∀ p, (s.nodes p).isSome → HeadReturns s.nodes p first ∧ TailReturns s.nodes p last) ∧
    (∀ x ∈ s.added, Relation.ReflTransGen (fun p q ↦ s.nodes.next p = some q) first x.1 ∧
      (s.nodes x.1).map (·.mData) = some x.2) ∧
    ∃ x, s.added.getLast? = some x ∧ x.1 = last ∧ (s.nodes last).map (·.mData) = some x.2

@[simp]
theorem step_nodes (s : Llist T) (c : Append T) : (s.step c).nodes = append s.nodes c := rfl

@[simp]
theorem step_added (s : Llist T) (c : Append T) :
    (s.step c).added = s.added ++ [(c.newEntry, c.data)] := rfl

section runs

variable {s : Llist T} {cs ds : List (Append T)} {c : Append T}

theorem run_append (s : Llist T) (cs ds : List (Append T)) :
    s.run (cs ++ ds) = (s.run cs).run ds := List.foldl_append

theorem legalRun_append :
    s.LegalRun (cs ++ ds) ↔ s.LegalRun cs ∧ (s.run cs).LegalRun ds := by
  induction cs generalizing s with
  | nil => exact ⟨fun h ↦ ⟨trivial, h⟩, fun h ↦ h.2⟩
  | cons c cs ih =>
      rw [List.cons_append, LegalRun, LegalRun, ih, and_assoc]
      rfl

/-- Each call of a legal run is legal. -/
theorem LegalRun.legal {before : List (Append T)} (h : s.LegalRun cs)
    (hpre : before ++ [c] <+: cs) : (s.run before).Legal c := by
  obtain ⟨after, rfl⟩ := hpre
  rw [List.append_assoc, legalRun_append] at h
  exact h.2.1

theorem Legal.ne (h : s.Legal c) : c.newEntry ≠ c.node := by
  intro heq
  have hsome := h.node
  rw [← heq, h.fresh] at hsome
  cases hsome

/-- What `append` makes of the nodes. -/
theorem append_apply {n : Lliste T} (hlegal : s.Legal c) (hnode : s.nodes c.node = some n)
    (p : BitVec 64) :
    append s.nodes c p =
      if p = c.node then some { n with mNext := c.newEntry }
      else if p = c.newEntry then some (.behind c.data c.node)
      else s.nodes p := by
  unfold append
  simp only [Function.update_of_ne hlegal.ne.symm, hnode]
  rw [Function.update_apply, Function.update_apply]

end runs

/-! ## The chain -/

/-- The address of the `i`-th element, null behind the last. -/
def addr (s : Llist T) (i : Nat) : BitVec 64 := ((s.added[i]?).map Prod.fst).getD 0

/-- The address of the element before the `i`-th, null before the first. -/
def addrBefore (s : Llist T) : Nat → BitVec 64
  | 0 => 0
  | i + 1 => s.addr i

/-- The nodes are the elements, linked in the order in which they have been added. -/
structure IsChain (s : Llist T) : Prop where
  nonempty : s.added ≠ []
  nodup : (s.added.map Prod.fst).Nodup
  ne_null : ∀ x ∈ s.added, x.1 ≠ 0
  node : ∀ i x, s.added[i]? = some x →
    s.nodes x.1 = some ⟨s.addrBefore i, s.addr (i + 1), x.2⟩
  only : ∀ p, (s.nodes p).isSome → ∃ (i : Nat) (x : BitVec 64 × T), s.added[i]? = some x ∧ x.1 = p

section chain

variable {s : Llist T} {c : Append T}

theorem addr_of_getElem? {i : Nat} {x : BitVec 64 × T} (h : s.added[i]? = some x) :
    s.addr i = x.1 := by
  rw [addr, h]
  rfl

/-- The new element comes behind the others. -/
theorem getElem?_step (s : Llist T) (c : Append T) (i : Nat) :
    (s.step c).added[i]? =
      if i = s.added.length then some (c.newEntry, c.data) else s.added[i]? := by
  rw [step_added]
  rcases Nat.lt_trichotomy i s.added.length with hlt | rfl | hgt
  · rw [List.getElem?_append_left hlt, if_neg (Nat.ne_of_lt hlt)]
  · rw [List.getElem?_concat_length, if_pos rfl]
  · have hlength : (s.added ++ [(c.newEntry, c.data)]).length ≤ i := by
      rw [List.length_append]
      exact hgt
    rw [if_neg (Nat.ne_of_gt hgt), List.getElem?_eq_none hlength,
      List.getElem?_eq_none (Nat.le_of_lt hgt)]

theorem addr_step (s : Llist T) (c : Append T) (i : Nat) :
    (s.step c).addr i = if i = s.added.length then c.newEntry else s.addr i := by
  rw [addr, getElem?_step]
  split
  · rfl
  · rfl

theorem addrBefore_step {i : Nat} (hi : i ≤ s.added.length) :
    (s.step c).addrBefore i = s.addrBefore i := by
  cases i with
  | zero => rfl
  | succ i =>
      rw [addrBefore, addr_step, if_neg (Nat.ne_of_lt hi)]
      rfl

theorem addr_of_le {i : Nat} (h : s.added.length ≤ i) : s.addr i = 0 := by
  rw [addr, List.getElem?_eq_none h]
  rfl

namespace IsChain

theorem addr_ne_null (h : s.IsChain) {i : Nat} (hi : i < s.added.length) : s.addr i ≠ 0 := by
  rw [addr_of_getElem? (List.getElem?_eq_getElem hi)]
  exact h.ne_null _ (List.getElem_mem hi)

/-- Different elements have different addresses. -/
theorem addr_inj (h : s.IsChain) {i j : Nat} (hi : i < s.added.length)
    (heq : s.addr i = s.addr j) : i = j := by
  have hj : j < s.added.length := by
    by_contra hnot
    rw [addr_of_le (Nat.not_lt.mp hnot)] at heq
    exact h.addr_ne_null hi heq
  refine (List.getElem?_inj (by rwa [List.length_map]) h.nodup).mp ?_
  rw [List.getElem?_map, List.getElem?_map, List.getElem?_eq_getElem hi,
    List.getElem?_eq_getElem hj, Option.map_some, Option.map_some,
    ← addr_of_getElem? (List.getElem?_eq_getElem hi),
    ← addr_of_getElem? (List.getElem?_eq_getElem hj), heq]

theorem next_addr (h : s.IsChain) {i : Nat} (hi : i < s.added.length) :
    s.nodes.next (s.addr i) = some (s.addr (i + 1)) := by
  have hget := List.getElem?_eq_getElem hi
  rw [addr_of_getElem? hget, Nodes.next, h.node i _ hget]
  rfl

theorem prev_addr (h : s.IsChain) {i : Nat} (hi : i < s.added.length) :
    s.nodes.prev (s.addr i) = some (s.addrBefore i) := by
  have hget := List.getElem?_eq_getElem hi
  rw [addr_of_getElem? hget, Nodes.prev, h.node i _ hget]
  rfl

/-- A node is an element. -/
theorem exists_addr (h : s.IsChain) {p : BitVec 64} (hp : (s.nodes p).isSome) :
    ∃ i < s.added.length, s.addr i = p := by
  obtain ⟨i, x, hx, rfl⟩ := h.only p hp
  obtain ⟨hi, -⟩ := List.getElem?_eq_some_iff.mp hx
  exact ⟨i, hi, addr_of_getElem? hx⟩

/-- `head` goes down to the first element. -/
theorem headReturns (h : s.IsChain) {i : Nat} (hi : i < s.added.length) :
    HeadReturns s.nodes (s.addr i) (s.addr 0) := by
  have hstep : ∀ j < i, s.nodes.prev (s.addr (i - j)) = some (s.addr (i - (j + 1))) ∧
      s.addr (i - (j + 1)) ≠ 0 := by
    intro j hj
    have hsub : i - j = i - (j + 1) + 1 := by omega
    refine ⟨?_, h.addr_ne_null (by omega)⟩
    rw [h.prev_addr (by omega), hsub]
    rfl
  have hend : s.nodes.prev (s.addr (i - i)) = some 0 := by
    rw [Nat.sub_self, h.prev_addr (by omega)]
    rfl
  have hpath := follow_of_path i (fun j ↦ s.addr (i - j)) hstep hend
  rw [Nat.sub_self, Nat.sub_zero] at hpath
  exact ⟨i + 1, hpath⟩

/-- `tail` goes up to the last. -/
theorem tailReturns (h : s.IsChain) {i : Nat} (hi : i < s.added.length) :
    TailReturns s.nodes (s.addr i) (s.addr (s.added.length - 1)) := by
  have hlast : i + (s.added.length - 1 - i) = s.added.length - 1 := by omega
  have hstep : ∀ j < s.added.length - 1 - i,
      s.nodes.next (s.addr (i + j)) = some (s.addr (i + (j + 1))) ∧ s.addr (i + (j + 1)) ≠ 0 :=
    fun j hj ↦ ⟨h.next_addr (by omega), h.addr_ne_null (by omega)⟩
  have hend : s.nodes.next (s.addr (i + (s.added.length - 1 - i))) = some 0 := by
    rw [h.next_addr (by omega), addr_of_le (by omega)]
  have hpath := follow_of_path (s.added.length - 1 - i) (fun j ↦ s.addr (i + j)) hstep hend
  rw [hlast, Nat.add_zero] at hpath
  exact ⟨_, hpath⟩

/-- The elements are reached from the first. -/
theorem reaches (h : s.IsChain) {i : Nat} (hi : i < s.added.length) :
    Relation.ReflTransGen (fun p q ↦ s.nodes.next p = some q) (s.addr 0) (s.addr i) := by
  induction i with
  | zero => exact Relation.ReflTransGen.refl
  | succ i ih =>
      have hi' : i < s.added.length := Nat.lt_of_succ_lt hi
      exact (ih hi').tail (h.next_addr hi')

theorem neighbours (h : s.IsChain) {p q : BitVec 64} {a b : Lliste T} (ha : s.nodes p = some a)
    (hb : s.nodes q = some b) : a.mNext = q ↔ b.mPrev = p := by
  obtain ⟨i, hi, rfl⟩ := h.exists_addr (Option.isSome_iff_exists.mpr ⟨a, ha⟩)
  obtain ⟨j, hj, rfl⟩ := h.exists_addr (Option.isSome_iff_exists.mpr ⟨b, hb⟩)
  have hnext : a.mNext = s.addr (i + 1) := by
    have hlink := h.next_addr hi
    rw [Nodes.next, ha] at hlink
    exact Option.some.inj hlink
  have hprev : b.mPrev = s.addrBefore j := by
    have hlink := h.prev_addr hj
    rw [Nodes.prev, hb] at hlink
    exact Option.some.inj hlink
  rw [hnext, hprev]
  constructor
  · intro heq
    obtain rfl := h.addr_inj hj heq.symm
    rfl
  · intro heq
    cases j with
    | zero => exact absurd heq.symm (h.addr_ne_null hi)
    | succ j => rw [h.addr_inj hi heq.symm]

/-- **The chain is consistent.** -/
theorem consistent (h : s.IsChain) : s.Consistent where
  neighbours _ _ _ _ ha hb := h.neighbours ha hb
  ends := by
    have hpos : 0 < s.added.length := List.length_pos_iff.mpr h.nonempty
    have hget : s.added[s.added.length - 1]? = some (s.added.getLast h.nonempty) := by
      rw [← List.getLast?_eq_getElem?, List.getLast?_eq_some_getLast]
    refine ⟨s.addr 0, s.addr (s.added.length - 1), fun p hp ↦ ?_, fun x hx ↦ ?_, ?_⟩
    · obtain ⟨i, hi, rfl⟩ := h.exists_addr hp
      exact ⟨h.headReturns hi, h.tailReturns hi⟩
    · obtain ⟨i, hi⟩ := List.mem_iff_getElem?.mp hx
      obtain ⟨hlt, -⟩ := List.getElem?_eq_some_iff.mp hi
      rw [h.node i x hi, ← addr_of_getElem? hi]
      exact ⟨h.reaches hlt, rfl⟩
    · refine ⟨s.added.getLast h.nonempty, List.getLast?_eq_some_getLast h.nonempty,
        (addr_of_getElem? hget).symm, ?_⟩
      rw [addr_of_getElem? hget, h.node _ _ hget]
      rfl

theorem nodes_single (first : BitVec 64) (data : T) (p : BitVec 64) :
    (Llist.single first data).nodes p = if p = first then some (.single data) else none := by
  exact Function.update_apply (fun _ ↦ none) first _ p

/-- A list of one node is a chain. -/
theorem single {first : BitVec 64} (hne : first ≠ 0) (data : T) : (single first data).IsChain where
  nonempty := List.cons_ne_nil _ _
  nodup := List.nodup_singleton _
  ne_null x hx := by
    rw [List.mem_singleton.mp hx]
    exact hne
  node i x hx := by
    cases i with
    | zero =>
        obtain rfl := Option.some.inj hx
        rw [nodes_single, if_pos rfl]
        rfl
    | succ i => cases hx
  only p hp := by
    refine ⟨0, (first, data), rfl, ?_⟩
    by_contra hne'
    rw [nodes_single, if_neg (Ne.symm hne')] at hp
    cases hp

theorem addrBefore_length (h : s.IsChain) :
    s.addrBefore s.added.length = s.addr (s.added.length - 1) := by
  obtain ⟨k, hk⟩ := Nat.exists_eq_succ_of_ne_zero (mt List.length_eq_zero_iff.mp h.nonempty)
  rw [hk]
  rfl

/-- A node without a next one is the last element. -/
theorem node_of_atEnd (h : s.IsChain) (hend : s.AtEnd c) :
    c.node = s.addr (s.added.length - 1) := by
  have hsome : (s.nodes c.node).isSome := by
    rw [← Option.isSome_map, ← Nodes.next, hend]
    rfl
  obtain ⟨i, hi, hnode⟩ := h.exists_addr hsome
  have hnull : s.addr (i + 1) = 0 := by
    rw [AtEnd, ← hnode, h.next_addr hi] at hend
    exact Option.some.inj hend
  have hlast : s.added.length ≤ i + 1 := by
    by_contra hlt
    exact h.addr_ne_null (Nat.not_le.mp hlt) hnull
  rw [← hnode, show s.added.length - 1 = i by omega]

theorem ne_newEntry (h : s.IsChain) (hlegal : s.Legal c) {x : BitVec 64 × T}
    (hx : x ∈ s.added) : x.1 ≠ c.newEntry := by
  intro heq
  obtain ⟨i, hi⟩ := List.mem_iff_getElem?.mp hx
  have hnode := h.node i x hi
  rw [heq, hlegal.fresh] at hnode
  cases hnode

/-- `append` on the last node links it to the new one, and leaves the other nodes as they
are. -/
theorem node_step (h : s.IsChain) (hlegal : s.Legal c) (hend : s.AtEnd c) {i : Nat}
    {x : BitVec 64 × T} (hx : s.added[i]? = some x) :
    (s.step c).nodes x.1 =
      some ⟨(s.step c).addrBefore i, (s.step c).addr (i + 1), x.2⟩ := by
  have hlast := h.node_of_atEnd hend
  have hnode := h.node i x hx
  obtain ⟨n, hn⟩ := Option.isSome_iff_exists.mp hlegal.node
  obtain ⟨hlt, -⟩ := List.getElem?_eq_some_iff.mp hx
  rw [step_nodes, append_apply hlegal hn, addrBefore_step (Nat.le_of_lt hlt), addr_step]
  by_cases hi : i + 1 = s.added.length
  · have heq : x.1 = c.node := by
      rw [hlast, ← hi, Nat.add_sub_cancel, addr_of_getElem? hx]
    rw [heq, hn] at hnode
    rw [if_pos heq, if_pos hi, Option.some.inj hnode]
  · have hne : x.1 ≠ c.node := by
      rw [hlast, ← addr_of_getElem? hx]
      intro heq
      have hindex := h.addr_inj hlt heq
      omega
    rw [if_neg hne, if_neg (h.ne_newEntry hlegal (List.mem_of_getElem? hx)), if_neg hi, hnode]

/-- The new node comes behind the last. -/
theorem newEntry_step (h : s.IsChain) (hlegal : s.Legal c) (hend : s.AtEnd c) :
    (s.step c).nodes c.newEntry =
      some ⟨(s.step c).addrBefore s.added.length, (s.step c).addr (s.added.length + 1),
        c.data⟩ := by
  obtain ⟨n, hn⟩ := Option.isSome_iff_exists.mp hlegal.node
  have hback : (s.step c).addrBefore s.added.length = c.node := by
    rw [addrBefore_step (Nat.le_refl _), h.node_of_atEnd hend]
    exact h.addrBefore_length
  have hnull : (s.step c).addr (s.added.length + 1) = 0 :=
    addr_of_le (Nat.le_of_eq List.length_append)
  rw [step_nodes, append_apply hlegal hn, if_neg hlegal.ne, if_pos rfl, hback, hnull]
  rfl

/-- There is no other new node. -/
theorem isSome_of_step (hlegal : s.Legal c) {p : BitVec 64} (hne : p ≠ c.newEntry)
    (hp : ((s.step c).nodes p).isSome) : (s.nodes p).isSome := by
  obtain ⟨n, hn⟩ := Option.isSome_iff_exists.mp hlegal.node
  by_cases heq : p = c.node
  · rw [heq]
    exact hlegal.node
  · rwa [step_nodes, append_apply hlegal hn, if_neg heq, if_neg hne] at hp

/-- `append` on the last node adds an element. -/
theorem step (h : s.IsChain) (hlegal : s.Legal c) (hend : s.AtEnd c) : (s.step c).IsChain where
  nonempty := List.append_ne_nil_of_left_ne_nil h.nonempty _
  nodup := by
    rw [step_added, List.map_append, List.nodup_append]
    refine ⟨h.nodup, List.nodup_singleton _, fun p hp q hq ↦ ?_⟩
    obtain ⟨x, hx, rfl⟩ := List.mem_map.mp hp
    rw [List.mem_singleton.mp hq]
    exact h.ne_newEntry hlegal hx
  ne_null x hx := by
    rcases List.mem_append.mp hx with hx | hx
    · exact h.ne_null x hx
    · rw [List.mem_singleton.mp hx]
      exact hlegal.ne_null
  node i x hx := by
    rw [getElem?_step] at hx
    split at hx
    case isTrue hi =>
      subst hi
      obtain rfl := Option.some.inj hx
      exact h.newEntry_step hlegal hend
    case isFalse => exact h.node_step hlegal hend hx
  only p hp := by
    by_cases hnew : p = c.newEntry
    · refine ⟨s.added.length, (c.newEntry, c.data), ?_, hnew.symm⟩
      rw [getElem?_step, if_pos rfl]
    · obtain ⟨i, x, hx, rfl⟩ := h.only p (isSome_of_step hlegal hnew hp)
      obtain ⟨hlt, -⟩ := List.getElem?_eq_some_iff.mp hx
      refine ⟨i, x, ?_, rfl⟩
      rw [getElem?_step, if_neg (Nat.ne_of_lt hlt), hx]

end IsChain

end chain

section consistency

variable {s : Llist T} {c : Append T} {first : BitVec 64} {data : T} {calls : List (Append T)}

/-- Calls at the end keep the chain. -/
theorem isChain_run (hfirst : first ≠ 0) (hlegal : (single first data).LegalRun calls)
    (hend : ∀ before c, before ++ [c] <+: calls → ((single first data).run before).AtEnd c) :
    ((single first data).run calls).IsChain := by
  induction calls using List.reverseRecOn with
  | nil => exact IsChain.single hfirst data
  | append_singleton before c ih =>
      have hpre : before <+: before ++ [c] := List.prefix_append _ _
      have hbefore := ih (legalRun_append.mp hlegal).1
        (fun before' c' h ↦ hend before' c' (h.trans hpre))
      rw [run_append]
      exact hbefore.step (hlegal.legal List.prefix_rfl) (hend before c List.prefix_rfl)

/-- The node behind the one that `append` is called on would still point back to it. -/
theorem Consistent.atEnd (h : s.Consistent) (hlegal : s.Legal c)
    (hstep : (s.step c).Consistent) : s.AtEnd c := by
  obtain ⟨a, ha⟩ := Option.isSome_iff_exists.mp hlegal.node
  have hnext : s.nodes.next c.node = some a.mNext := by
    rw [Nodes.next, ha]
    rfl
  have hnodes := append_apply hlegal ha
  rw [AtEnd, hnext]
  by_contra hnot
  have hne : a.mNext ≠ 0 := fun hnull ↦ hnot (congrArg some hnull)
  obtain ⟨b, hb⟩ : ∃ b, s.nodes a.mNext = some b := by
    obtain ⟨_, _, hends, -⟩ := h.ends
    have hsome := (hends c.node hlegal.node).2.isSome hnext hne
    rwa [Nodes.next, Option.isSome_map, Option.isSome_iff_exists] at hsome
  have hback : b.mPrev = c.node := (h.neighbours _ _ _ _ ha hb).mp rfl
  have hfresh : a.mNext ≠ c.newEntry := by
    intro heq
    rw [heq, hlegal.fresh] at hb
    cases hb
  -- It is the node itself if that one is its own next, which need not be excluded.
  obtain ⟨b', hb', hback'⟩ : ∃ b', append s.nodes c a.mNext = some b' ∧ b'.mPrev = c.node := by
    rw [hnodes]
    by_cases hself : a.mNext = c.node
    · rw [hself, ha] at hb
      rw [← Option.some.inj hb] at hback
      exact ⟨_, if_pos hself, hback⟩
    · rw [if_neg hself, if_neg hfresh]
      exact ⟨b, hb, hback⟩
  have hnode' : append s.nodes c c.node = some { a with mNext := c.newEntry } := by
    rw [hnodes, if_pos rfl]
  exact hfresh ((hstep.neighbours _ _ _ _ hnode' hb').mpr hback').symm

/-- **The links stay as they should be throughout a run exactly when `append` is always
called on a node without a next one.** -/
theorem consistent_iff (first : BitVec 64) (data : T) (hfirst : first ≠ 0)
    (calls : List (Append T)) (hlegal : (single first data).LegalRun calls) :
    (∀ before, before <+: calls → ((single first data).run before).Consistent) ↔
      ∀ before c, before ++ [c] <+: calls → ((single first data).run before).AtEnd c := by
  constructor
  · intro h before c hpre
    have hstep := h _ hpre
    rw [run_append] at hstep
    exact (h before ((List.prefix_append _ _).trans hpre)).atEnd (hlegal.legal hpre) hstep
  · intro h before hpre
    obtain ⟨after, rfl⟩ := hpre
    have hchain := isChain_run hfirst (legalRun_append.mp hlegal).1
      (fun before' c h' ↦ h before' c (h'.trans (List.prefix_append _ _)))
    exact hchain.consistent

/-- An element is appended to the only node, and another one to its node. -/
theorem consistent_iff_lastNode :
    ((single 1 7 : Llist Nat).run [⟨1, 8, 2⟩, ⟨2, 9, 3⟩]).Consistent := by
  have hlegal : (single 1 7 : Llist Nat).LegalRun [⟨1, 8, 2⟩, ⟨2, 9, 3⟩] :=
    ⟨⟨rfl, by decide, rfl⟩, ⟨rfl, by decide, rfl⟩, trivial⟩
  refine (consistent_iff 1 7 (by decide) [⟨1, 8, 2⟩, ⟨2, 9, 3⟩] hlegal).mpr
    (fun before c hpre ↦ ?_) _ List.prefix_rfl
  obtain ⟨after, hafter⟩ := hpre
  match before with
  | [] =>
      obtain ⟨rfl, -⟩ := List.cons.inj hafter
      rfl
  | [b] =>
      obtain ⟨rfl, hrest⟩ := List.cons.inj hafter
      obtain ⟨rfl, -⟩ := List.cons.inj hrest
      rfl
  | b :: b' :: before =>
      have hlength := congrArg List.length hafter
      simp only [List.length_append, List.length_cons, List.length_nil] at hlength
      omega

/-- Two elements are appended to the first node, and the second takes the place of the first
behind it. -/
theorem not_consistent_firstNode :
    (single 1 7 : Llist Nat).LegalRun [⟨1, 8, 2⟩, ⟨1, 9, 3⟩] ∧
      ¬ ((single 1 7 : Llist Nat).run [⟨1, 8, 2⟩, ⟨1, 9, 3⟩]).Consistent := by
  refine ⟨⟨⟨rfl, by decide, rfl⟩, ⟨rfl, by decide, rfl⟩, trivial⟩, fun h ↦ ?_⟩
  have hnext := (h.neighbours 1 ⟨0, 3, 7⟩ 2 ⟨1, 0, 8⟩ rfl rfl).mpr rfl
  exact absurd hnext (by decide)

end consistency

end Llist

end Hypervi.Freestanding
