import Hypervi.Control
import Hypervi.Freestanding.Libc
import Mathlib.Algebra.GroupWithZero.Nat
import Mathlib.Data.List.Induction
import Mathlib.Logic.Function.Basic

/-!
# The console of the loader

`efi_console_write` keeps a cursor across messages.  Characters move it along a line, which
the source counts in `current_row`, and newlines to the next, which it counts in
`current_column`.  Only the second is ever compared with its bound, and the console starts
over when it is reached.

The row is the width of the line written so far (`AfterText.row`), so that the writes stay
inside exactly as long as no character is stored behind the first 120 of a line
(`writeAll_inside_iff`).
-/

namespace Hypervi.Loader

open Freestanding

/-! ## The console -/

/-- `efi_console_ctx`, less the size of a character. -/
structure EfiConsoleCtx where
  rows : BitVec 64
  columns : BitVec 64
  currentRow : BitVec 64
  currentColumn : BitVec 64
  buffer : BitVec 64 → BitVec 8
  bufferSize : BitVec 64

/-- A place on the screen. -/
structure Cursor where
  row : BitVec 64
  column : BitVec 64
deriving DecidableEq, Repr

/-- The context, and a record of what has been done with it: the indices that
`efi_console_setcell` wrote, and the cursor at each character that was stored. -/
structure Console where
  ctx : EfiConsoleCtx
  written : List (BitVec 64)
  stored : List Cursor

/-- The assignments to `current_row` and `current_column`. -/
def Console.moveTo (c : Console) (row column : BitVec 64) : Console :=
  { c with ctx := { c.ctx with currentRow := row, currentColumn := column } }

@[simp] theorem Console.currentRow_moveTo (c : Console) (row column : BitVec 64) :
    (c.moveTo row column).ctx.currentRow = row := rfl

/-- `efi_console_init`.  `_stosb` fills the buffer with `al`. -/
def efiConsoleInit (memory : BitVec 64 → BitVec 8) (al : BitVec 8) : Console :=
  let rows := 120
  let columns := 70
  let bufferSize := rows * columns * 1 * 2
  { ctx :=
      { rows := rows
        columns := columns
        currentRow := 0
        currentColumn := 0
        buffer := fun i ↦ if i < bufferSize then al else memory i
        bufferSize := bufferSize }
    written := []
    stored := [] }

/-- `efi_console_setcell` -/
def efiConsoleSetcell (x y : BitVec 64) (character attr : BitVec 8) (c : Console) :
    Console :=
  let idx := y * c.ctx.rows + x
  let buffer := Function.update c.ctx.buffer idx character
  { c with
    ctx := { c.ctx with buffer := Function.update buffer (idx + 1) attr }
    written := idx :: (idx + 1) :: c.written }

/-- `efi_console_fill` -/
def efiConsoleFill (character attr : BitVec 8) (c : Console) : Console :=
  forRange c.ctx.columns.toNat (fun y c ↦
    forRange c.ctx.rows.toNat (fun x c ↦
      efiConsoleSetcell (BitVec.ofNat 64 x) (BitVec.ofNat 64 y) character attr c) c) c

def newline : BitVec 8 := 0x0A

def tab : BitVec 8 := 0x09

/-- The cursor goes back to the start when the last column is full. -/
def startOver (c : Console) : Console :=
  if c.ctx.columns ≤ c.ctx.currentColumn then efiConsoleFill 0x20 0 (c.moveTo 0 0) else c

/-- The `switch` of `efi_console_write`. -/
def putChar (currChar : BitVec 8) (c : Console) : Console :=
  let row := c.ctx.currentRow
  let column := c.ctx.currentColumn
  if currChar = newline then
    c.moveTo 0 (column + 1)
  else if currChar = tab then
    c.moveTo (row + 4) column
  else
    let c := { c with stored := ⟨row, column⟩ :: c.stored }
    (efiConsoleSetcell row column currChar 0 c).moveTo (row + 1) column

/-- One character. -/
def writeChar (c : Console) (currChar : BitVec 8) : Console := putChar currChar (startOver c)

/-- `efi_console_write` -/
def efiConsoleWrite (c : Console) (message : CString) : Console :=
  message.chars.foldl writeChar c

/-- Any number of messages. -/
def writeAll (c : Console) (messages : List CString) : Console :=
  messages.foldl efiConsoleWrite c

namespace Console

/-- No write was outside the buffer, and no character was stored outside the screen. -/
structure Inside (c : Console) : Prop where
  indices : ∀ idx ∈ c.written, idx < c.ctx.bufferSize
  cursor : ∀ p ∈ c.stored, p.row < c.ctx.rows ∧ p.column < c.ctx.columns

end Console

/-! ## The text -/

/-- The characters of the messages. -/
def text (messages : List CString) : List (BitVec 8) := messages.flatMap CString.chars

/-- The width of a line after one more character. -/
def widen (width : Nat) (c : BitVec 8) : Nat :=
  if c = newline then 0 else if c = tab then width + 4 else width + 1

/-- The width of the last line of a text. -/
def lineWidth (cs : List (BitVec 8)) : Nat := cs.foldl widen 0

/-- Each character of the text other than a newline or a tab is on a line of which less
than 120 is taken, counted in 64 bits. -/
def Fits (cs : List (BitVec 8)) : Prop :=
  ∀ before c after, cs = before ++ c :: after → c ≠ newline → c ≠ tab →
    lineWidth before % 2 ^ 64 < 120

theorem writeAll_eq (c : Console) (messages : List CString) :
    writeAll c messages = (text messages).foldl writeChar c :=
  (List.foldl_flatMap).symm

theorem lineWidth_concat (cs : List (BitVec 8)) (c : BitVec 8) :
    lineWidth (cs ++ [c]) = widen (lineWidth cs) c := by
  rw [lineWidth, List.foldl_append]
  rfl

theorem fits_nil : Fits [] := by
  intro before c after h
  exact absurd h.symm (List.append_ne_nil_of_right_ne_nil _ (List.cons_ne_nil _ _))

theorem fits_concat {cs : List (BitVec 8)} {c : BitVec 8} :
    Fits (cs ++ [c]) ↔
      Fits cs ∧ (c ≠ newline → c ≠ tab → lineWidth cs % 2 ^ 64 < 120) := by
  constructor
  · intro h
    refine ⟨?_, h cs c [] rfl⟩
    rintro before d after rfl
    apply h before d (after ++ [c])
    rw [List.append_assoc, List.cons_append]
  · rintro ⟨hcs, hlast⟩ before d after heq
    rcases List.eq_nil_or_concat after with rfl | ⟨after', d', rfl⟩
    · obtain ⟨rfl, hcd⟩ := List.append_inj' heq rfl
      obtain rfl := List.singleton_inj.mp hcd
      exact hlast
    · rw [List.concat_eq_append, ← List.cons_append, ← List.append_assoc] at heq
      obtain ⟨rfl, -⟩ := List.append_inj' heq rfl
      exact hcs before d after' rfl

/-! ## The writes -/

/-- A cell of the screen is in the buffer. -/
theorem cell_lt {x y : BitVec 64} (hx : x < 120) (hy : y < 70) :
    y * 120 + x < 16800 ∧ y * 120 + x + 1 < 16800 := by
  have hsize : (16800 : BitVec 64).toNat = 16800 := rfl
  have hrows : (120 : BitVec 64).toNat = 120 := rfl
  have hcolumns : (70 : BitVec 64).toNat = 70 := rfl
  have hone : (1 : BitVec 64).toNat = 1 := rfl
  rw [BitVec.lt_def, hrows] at hx
  rw [BitVec.lt_def, hcolumns] at hy
  have hidx : (y * 120 + x).toNat = y.toNat * 120 + x.toNat := by
    rw [BitVec.toNat_add, BitVec.toNat_mul, hrows, Nat.mod_eq_of_lt (a := y.toNat * 120),
      Nat.mod_eq_of_lt]
    all_goals omega
  constructor
  · rw [BitVec.lt_def, hidx, hsize]
    omega
  · rw [BitVec.lt_def, BitVec.toNat_add, hidx, hsize, hone, Nat.mod_eq_of_lt (by omega)]
    omega

/-- Only the contents of the buffer change, by writes inside it. -/
structure Filled (c c' : Console) : Prop where
  rows : c'.ctx.rows = c.ctx.rows
  columns : c'.ctx.columns = c.ctx.columns
  currentRow : c'.ctx.currentRow = c.ctx.currentRow
  currentColumn : c'.ctx.currentColumn = c.ctx.currentColumn
  bufferSize : c'.ctx.bufferSize = c.ctx.bufferSize
  stored : c'.stored = c.stored
  written : ∀ idx ∈ c'.written, idx ∈ c.written ∨ idx < 16800

namespace Filled

theorem refl (c : Console) : Filled c c := ⟨rfl, rfl, rfl, rfl, rfl, rfl, fun _ h ↦ .inl h⟩

theorem setcell {c c' : Console} (h : Filled c c') (hrows : c.ctx.rows = 120)
    {x y : BitVec 64} (hx : x < 120) (hy : y < 70) (character attr : BitVec 8) :
    Filled c (efiConsoleSetcell x y character attr c') := by
  obtain ⟨hidx, hidx'⟩ := cell_lt hx hy
  refine ⟨h.rows, h.columns, h.currentRow, h.currentColumn, h.bufferSize, h.stored, ?_⟩
  intro idx hmem
  rw [efiConsoleSetcell, h.rows, hrows] at hmem
  rcases List.mem_cons.mp hmem with rfl | hmem
  · exact .inr hidx
  · rcases List.mem_cons.mp hmem with rfl | hmem
    · exact .inr hidx'
    · exact h.written idx hmem

end Filled

theorem ofNat_lt {n k : Nat} (h : n < k) (hk : k < 2 ^ 64) :
    BitVec.ofNat 64 n < BitVec.ofNat 64 k := by
  rw [BitVec.lt_def, BitVec.toNat_ofNat, BitVec.toNat_ofNat, Nat.mod_eq_of_lt hk,
    Nat.mod_eq_of_lt (Nat.lt_trans h hk)]
  exact h

theorem filled_efiConsoleFill {c : Console} (hrows : c.ctx.rows = 120)
    (hcolumns : c.ctx.columns = 70) (character attr : BitVec 8) :
    Filled c (efiConsoleFill character attr c) := by
  unfold efiConsoleFill
  refine forRange_induction (P := fun _ c' ↦ Filled c c') (Filled.refl c) ?_
  intro y hy c₁ h₁
  rw [hcolumns] at hy
  refine forRange_induction (P := fun _ c' ↦ Filled c c') h₁ ?_
  intro x hx c₂ h₂
  rw [h₁.rows, hrows] at hx
  exact h₂.setcell hrows (ofNat_lt hx (by decide)) (ofNat_lt hy (by decide)) _ _

/-! ## The invariant -/

/-- The console after the characters `cs`: the row is the width of the last line, and the
characters have been stored in rows of the screen exactly when the text fits. -/
structure AfterText (cs : List (BitVec 8)) (c : Console) : Prop where
  rows : c.ctx.rows = 120
  columns : c.ctx.columns = 70
  bufferSize : c.ctx.bufferSize = 16800
  row : c.ctx.currentRow = BitVec.ofNat 64 (lineWidth cs)
  column_le : c.ctx.currentColumn ≤ 70
  full : c.ctx.currentColumn = 70 → lineWidth cs = 0
  stored_column : ∀ p ∈ c.stored, p.column < 70
  stored_row : (∀ p ∈ c.stored, p.row < 120) ↔ Fits cs
  written : Fits cs → ∀ idx ∈ c.written, idx < 16800

namespace AfterText

variable {cs : List (BitVec 8)} {c : Console}

theorem init (memory : BitVec 64 → BitVec 8) (al : BitVec 8) :
    AfterText [] (efiConsoleInit memory al) where
  rows := rfl
  columns := rfl
  bufferSize := rfl
  row := rfl
  column_le := Nat.zero_le 70
  full := fun _ ↦ rfl
  stored_column := fun _ h ↦ absurd h List.not_mem_nil
  stored_row := iff_of_true (fun _ h ↦ absurd h List.not_mem_nil) fits_nil
  written := fun _ _ h ↦ absurd h List.not_mem_nil

/-- Starting over changes neither the width of the line nor what has been stored. -/
theorem startOver (h : AfterText cs c) :
    AfterText cs (startOver c) ∧ (startOver c).ctx.currentColumn < 70 := by
  rw [Loader.startOver, h.columns]
  split
  · rename_i hfull
    have hwidth := h.full (BitVec.le_antisymm h.column_le hfull)
    have hfilled := filled_efiConsoleFill (c := c.moveTo 0 0) h.rows h.columns 0x20 0
    generalize efiConsoleFill 0x20 0 _ = c' at hfilled ⊢
    have hcolumn : c'.ctx.currentColumn = 0 := hfilled.currentColumn
    refine ⟨?_, by rw [hcolumn]; decide⟩
    exact
      { rows := hfilled.rows.trans h.rows
        columns := hfilled.columns.trans h.columns
        bufferSize := hfilled.bufferSize.trans h.bufferSize
        row := by rw [hfilled.currentRow, hwidth]; rfl
        column_le := by rw [hcolumn]; decide
        full := fun _ ↦ hwidth
        stored_column := by rw [hfilled.stored]; exact h.stored_column
        stored_row := by rw [hfilled.stored]; exact h.stored_row
        written := fun hfits idx hmem ↦ (hfilled.written idx hmem).elim (h.written hfits idx) id }
  · rename_i hfree
    exact ⟨h, BitVec.not_le.mp hfree⟩

/-- A newline or a tab stores nothing. -/
theorem fits_concat_of_unstored {d : BitVec 8} (hd : d = newline ∨ d = tab) :
    Fits (cs ++ [d]) ↔ Fits cs := by
  rw [fits_concat]
  apply and_iff_left
  intro hnewline htab
  exact absurd hd (not_or.mpr ⟨hnewline, htab⟩)

/-- A newline starts the next line. -/
theorem startLine (h : AfterText cs c) (hcolumn : c.ctx.currentColumn < 70) :
    AfterText (cs ++ [newline]) (c.moveTo 0 (c.ctx.currentColumn + 1)) := by
  have hfits : Fits (cs ++ [newline]) ↔ Fits cs := fits_concat_of_unstored (.inl rfl)
  have hwidth : lineWidth (cs ++ [newline]) = 0 := by
    rw [lineWidth_concat, widen, if_pos rfl]
  have hle : c.ctx.currentColumn + 1 ≤ 70 := by
    have hmax : (70 : BitVec 64).toNat = 70 := rfl
    have hone : (1 : BitVec 64).toNat = 1 := rfl
    rw [BitVec.lt_def, hmax] at hcolumn
    rw [BitVec.le_def, BitVec.toNat_add, hmax, hone, Nat.mod_eq_of_lt (by omega)]
    exact hcolumn
  exact
    { h with
      row := by rw [Console.currentRow_moveTo, hwidth]; rfl
      column_le := hle
      full := fun _ ↦ hwidth
      stored_row := h.stored_row.trans hfits.symm
      written := fun hfits' ↦ h.written (hfits.mp hfits') }

theorem ne_seventy (hcolumn : c.ctx.currentColumn < 70) : c.ctx.currentColumn ≠ 70 :=
  BitVec.ne_of_lt hcolumn

/-- A tab moves on by four. -/
theorem skipTab (h : AfterText cs c) (hcolumn : c.ctx.currentColumn < 70) :
    AfterText (cs ++ [tab]) (c.moveTo (c.ctx.currentRow + 4) c.ctx.currentColumn) := by
  have hfits : Fits (cs ++ [tab]) ↔ Fits cs := fits_concat_of_unstored (.inr rfl)
  have hwidth : lineWidth (cs ++ [tab]) = lineWidth cs + 4 := by
    rw [lineWidth_concat, widen, if_neg (by decide), if_pos rfl]
  exact
    { h with
      row := by
        rw [Console.currentRow_moveTo, hwidth, BitVec.ofNat_add, ← h.row]
        rfl
      full := fun heq ↦ absurd heq (ne_seventy hcolumn)
      stored_row := h.stored_row.trans hfits.symm
      written := fun hfits' ↦ h.written (hfits.mp hfits') }

/-- Any other character is stored; it is on the screen when the row is. -/
theorem storeChar (h : AfterText cs c) (hcolumn : c.ctx.currentColumn < 70) {d : BitVec 8}
    (hnewline : d ≠ newline) (htab : d ≠ tab) :
    AfterText (cs ++ [d])
      ((efiConsoleSetcell c.ctx.currentRow c.ctx.currentColumn d 0
        { c with stored := ⟨c.ctx.currentRow, c.ctx.currentColumn⟩ :: c.stored }).moveTo
          (c.ctx.currentRow + 1) c.ctx.currentColumn) := by
  have hwidth : lineWidth (cs ++ [d]) = lineWidth cs + 1 := by
    rw [lineWidth_concat, widen, if_neg hnewline, if_neg htab]
  have hrow : c.ctx.currentRow < 120 ↔ lineWidth cs % 2 ^ 64 < 120 := by
    rw [h.row, BitVec.lt_def, BitVec.toNat_ofNat]
    rfl
  have hfits : Fits (cs ++ [d]) ↔ Fits cs ∧ c.ctx.currentRow < 120 := by
    rw [fits_concat, hrow]
    exact and_congr_right fun _ ↦ ⟨fun hlt ↦ hlt hnewline htab, fun hlt _ _ ↦ hlt⟩
  exact
    { rows := h.rows
      columns := h.columns
      bufferSize := h.bufferSize
      row := by
        rw [Console.currentRow_moveTo, hwidth, BitVec.ofNat_add, ← h.row]
        rfl
      column_le := h.column_le
      full := fun heq ↦ absurd heq (ne_seventy hcolumn)
      stored_column := by
        intro p hp
        rcases List.mem_cons.mp hp with rfl | hp
        · exact hcolumn
        · exact h.stored_column p hp
      stored_row := by
        rw [hfits, ← h.stored_row, and_comm]
        exact List.forall_mem_cons
      written := by
        intro hfits' idx hmem
        obtain ⟨hbefore, hlt⟩ := hfits.mp hfits'
        exact (((Filled.refl c).setcell h.rows hlt hcolumn d 0).written idx hmem).elim
          (h.written hbefore idx) id }

theorem putChar (h : AfterText cs c) (hcolumn : c.ctx.currentColumn < 70) (d : BitVec 8) :
    AfterText (cs ++ [d]) (putChar d c) := by
  rw [Loader.putChar]
  split
  · rename_i hd
    subst hd
    exact h.startLine hcolumn
  · rename_i hnewline
    split
    · rename_i hd
      subst hd
      exact h.skipTab hcolumn
    · rename_i htab
      exact h.storeChar hcolumn hnewline htab

theorem run (memory : BitVec 64 → BitVec 8) (al : BitVec 8) (cs : List (BitVec 8)) :
    AfterText cs (cs.foldl writeChar (efiConsoleInit memory al)) := by
  induction cs using List.reverseRecOn with
  | nil => exact init memory al
  | append_singleton cs d ih =>
      rw [List.foldl_append]
      obtain ⟨hstart, hcolumn⟩ := ih.startOver
      exact hstart.putChar hcolumn d

theorem inside_iff (h : AfterText cs c) : c.Inside ↔ Fits cs := by
  constructor
  · intro hinside
    rw [← h.stored_row]
    intro p hp
    rw [← h.rows]
    exact (hinside.cursor p hp).1
  · intro hfits
    constructor
    · rw [h.bufferSize]
      exact h.written hfits
    · intro p hp
      rw [h.rows, h.columns]
      exact ⟨h.stored_row.mpr hfits p hp, h.stored_column p hp⟩

end AfterText

/-- Any number of messages stay inside the buffer and the screen exactly when their text
fits: a newline comes before a character would be stored on a line of 120. -/
theorem writeAll_inside_iff (memory : BitVec 64 → BitVec 8) (al : BitVec 8)
    (messages : List CString) :
    (writeAll (efiConsoleInit memory al) messages).Inside ↔ Fits (text messages) := by
  rw [writeAll_eq]
  exact (AfterText.run memory al (text messages)).inside_iff

/-- A line of 121 characters. -/
def longLine : CString where
  chars := List.replicate 121 0x41
  ne_nul := by
    intro c hc
    rw [List.eq_of_mem_replicate hc]
    decide

theorem longLine_outside : ¬ (writeAll (efiConsoleInit (fun _ ↦ 0) 0) [longLine]).Inside := by
  intro h
  -- the last character, in row 120
  have hstored : (⟨120, 0⟩ : Cursor) ∈
      (writeAll (efiConsoleInit (fun _ ↦ 0) 0) [longLine]).stored := by decide +kernel
  exact absurd (h.cursor _ hstored).1 (by decide +kernel)

end Hypervi.Loader
