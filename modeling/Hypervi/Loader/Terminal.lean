import Hypervi.Loader.Cells

/-!
# The console as a terminal

A terminal has seventy lines of 120 cells and a place at which it writes.  When it writes and
its lines are full, it turns to an empty page.

On text that keeps to the lines the console shows what a terminal would, but for the cell
behind each character, where the attribute of the character is (`Follows.run`).  Attributes
are written ahead of the text, so that each character of the last page is still shown in its
cell at the end, whatever is written after it (`drawnCharacter_writeAll`).
-/

namespace Hypervi.Loader

open Freestanding

/-! ## Terminals -/

/-- A terminal.  The cells are numbered line by line. -/
structure Terminal where
  /-- What cells have that nothing has been written to. -/
  background : BitVec 8
  line : Nat
  width : Nat
  cells : Nat → Option (BitVec 8)

namespace Terminal

/-- An empty page. -/
def blank (background : BitVec 8) : Terminal := ⟨background, 0, 0, fun _ ↦ none⟩

/-- The number of the cell at which a terminal writes. -/
def place (t : Terminal) : Nat := 120 * t.line + t.width

/-- The next page, when the lines are full. -/
def turnPage (t : Terminal) : Terminal := if t.line = 70 then blank 0x20 else t

/-- One character on a page with a free line. -/
def put (t : Terminal) (c : BitVec 8) : Terminal :=
  if c = newline then { t with line := t.line + 1, width := 0 }
  else if c = tab then { t with width := t.width + 4 }
  else { t with cells := Function.update t.cells t.place (some c), width := t.width + 1 }

/-- One character. -/
def write (t : Terminal) (c : BitVec 8) : Terminal := t.turnPage.put c

/-- What a console shows in a cell: the character, the attribute of the one before, or the
background. -/
def shown (t : Terminal) (k : Nat) : BitVec 8 :=
  match t.cells k with
  | some c => c
  | none => if k ≠ 0 ∧ (t.cells (k - 1)).isSome then 0 else t.background

theorem shown_of_cells {t : Terminal} {k : Nat} {c : BitVec 8} (h : t.cells k = some c) :
    t.shown k = c := by
  rw [shown, h]

/-- A terminal in use: the line is one of the page, and the cells from the place of writing
on, or from the end of the line on, are empty. -/
structure Valid (t : Terminal) : Prop where
  line_le : t.line ≤ 70
  full : t.line = 70 → t.width = 0
  free : ∀ k, 120 * t.line + min t.width 120 ≤ k → t.cells k = none

theorem valid_blank (background : BitVec 8) : (blank background).Valid :=
  ⟨Nat.zero_le _, fun _ ↦ rfl, fun _ _ ↦ rfl⟩

theorem Valid.turnPage {t : Terminal} (h : t.Valid) : t.turnPage.Valid ∧ t.turnPage.line < 70 := by
  rw [Terminal.turnPage]
  split
  · exact ⟨valid_blank 0x20, by decide⟩
  · rename_i hline
    exact ⟨h, Nat.lt_of_le_of_ne h.line_le hline⟩

theorem turnPage_width {t : Terminal} (h : t.Valid) : t.turnPage.width = t.width := by
  rw [Terminal.turnPage]
  split
  · rename_i hline
    exact (h.full hline).symm
  · rfl

section put

variable {t : Terminal} {c : BitVec 8}

theorem put_newline : t.put newline = { t with line := t.line + 1, width := 0 } := if_pos rfl

theorem put_tab : t.put tab = { t with width := t.width + 4 } := if_neg (by decide)

theorem put_of_ne (hnewline : c ≠ newline) (htab : c ≠ tab) :
    t.put c =
      { t with cells := Function.update t.cells t.place (some c), width := t.width + 1 } := by
  rw [put, if_neg hnewline, if_neg htab]

theorem Valid.put (h : t.Valid) (hline : t.line < 70)
    (hfits : c ≠ newline → c ≠ tab → t.width < 120) : (t.put c).Valid := by
  by_cases hnewline : c = newline
  · subst hnewline
    rw [put_newline]
    exact ⟨hline, fun _ ↦ rfl, fun k hk ↦ h.free k (by simp only [] at hk; omega)⟩
  · by_cases htab : c = tab
    · subst htab
      rw [put_tab]
      exact ⟨h.line_le, fun hfull ↦ absurd hfull (Nat.ne_of_lt hline),
        fun k hk ↦ h.free k (by simp only [] at hk; omega)⟩
    · rw [put_of_ne hnewline htab]
      have hwidth := hfits hnewline htab
      refine ⟨h.line_le, fun hfull ↦ absurd hfull (Nat.ne_of_lt hline), fun k hk ↦ ?_⟩
      have hk : 120 * t.line + min (t.width + 1) 120 ≤ k := hk
      have hne : k ≠ t.place := by
        rw [place]
        omega
      exact (Function.update_of_ne hne _ _).trans (h.free k (by omega))

end put

end Terminal

/-! ## The console -/

theorem ofNat_inj {j k : Nat} (hj : j ≤ 8400) (hk : k ≤ 8400) :
    BitVec.ofNat 64 j = BitVec.ofNat 64 k ↔ j = k := by
  constructor
  · intro h
    have htoNat := congrArg BitVec.toNat h
    rwa [BitVec.toNat_ofNat, BitVec.toNat_ofNat, Nat.mod_eq_of_lt (by omega),
      Nat.mod_eq_of_lt (by omega)] at htoNat
  · rintro rfl
    rfl

/-- The buffer after a cell is set, by the numbers of the cells. -/
theorem buffer_efiConsoleSetcell {c : Console} (hrows : c.ctx.rows = 120) {x y : Nat}
    (hx : x < 120) (hy : y < 70) (character attr : BitVec 8) {k : Nat} (hk : k < 8400) :
    (efiConsoleSetcell (BitVec.ofNat 64 x) (BitVec.ofNat 64 y) character attr c).ctx.buffer
        (BitVec.ofNat 64 k) =
      if k = 120 * y + x + 1 then attr
      else if k = 120 * y + x then character
      else c.ctx.buffer (BitVec.ofNat 64 k) := by
  have hidx : BitVec.ofNat 64 y * c.ctx.rows + BitVec.ofNat 64 x =
      BitVec.ofNat 64 (120 * y + x) := by
    rw [hrows, BitVec.mul_comm, BitVec.ofNat_add, BitVec.ofNat_mul]
    rfl
  have hnext : BitVec.ofNat 64 (120 * y + x) + 1 = BitVec.ofNat 64 (120 * y + x + 1) :=
    (BitVec.ofNat_add _ 1).symm
  simp only [efiConsoleSetcell, hidx, hnext, Function.update_apply,
    ofNat_inj (Nat.le_of_lt hk) (show 120 * y + x + 1 ≤ 8400 by omega),
    ofNat_inj (Nat.le_of_lt hk) (show 120 * y + x ≤ 8400 by omega)]

/-- A console whose first cells have been filled. -/
structure FilledTo (n : Nat) (character : BitVec 8) (c : Console) : Prop where
  rows : c.ctx.rows = 120
  buffer : ∀ k < n, c.ctx.buffer (BitVec.ofNat 64 k) = character

theorem FilledTo.setcell {c : Console} {character : BitVec 8} {x y : Nat}
    (h : FilledTo (120 * y + x) character c) (hx : x < 120) (hy : y < 70) (attr : BitVec 8) :
    FilledTo (120 * y + (x + 1)) character
      (efiConsoleSetcell (BitVec.ofNat 64 x) (BitVec.ofNat 64 y) character attr c) where
  rows := h.rows
  buffer := by
    intro k hk
    rw [buffer_efiConsoleSetcell h.rows hx hy character attr (by omega), if_neg (by omega)]
    split
    · rfl
    · exact h.buffer k (by omega)

/-- `efi_console_fill` leaves the character in all cells. -/
theorem filledTo_efiConsoleFill {c : Console} (hrows : c.ctx.rows = 120)
    (hcolumns : c.ctx.columns = 70) (character attr : BitVec 8) :
    FilledTo 8400 character (efiConsoleFill character attr c) := by
  have hcols : c.ctx.columns.toNat = 70 := by rw [hcolumns]; rfl
  have hfill : FilledTo (120 * c.ctx.columns.toNat) character
      (efiConsoleFill character attr c) := by
    unfold efiConsoleFill
    refine forRange_induction (P := fun y c' ↦ FilledTo (120 * y) character c')
      ⟨hrows, fun k hk ↦ absurd hk (Nat.not_lt_zero k)⟩ ?_
    intro y hy c₁ h₁
    have hrow : c₁.ctx.rows.toNat = 120 := by rw [h₁.rows]; rfl
    have hline : FilledTo (120 * y + c₁.ctx.rows.toNat) character
        (forRange c₁.ctx.rows.toNat (fun x c ↦
          efiConsoleSetcell (BitVec.ofNat 64 x) (BitVec.ofNat 64 y) character attr c) c₁) :=
      forRange_induction (P := fun x c' ↦ FilledTo (120 * y + x) character c') h₁
        fun x hx c₂ h₂ ↦ h₂.setcell (by omega) (by omega) attr
    rw [hrow] at hline
    rw [hrow, Nat.mul_succ]
    exact hline
  rw [hcols] at hfill
  exact hfill

/-- The console and the terminal write at the same place, and the console shows the cells of
the terminal. -/
structure Follows (t : Terminal) (c : Console) : Prop where
  valid : t.Valid
  rows : c.ctx.rows = 120
  columns : c.ctx.columns = 70
  row : c.ctx.currentRow = BitVec.ofNat 64 t.width
  column : c.ctx.currentColumn = BitVec.ofNat 64 t.line
  buffer : ∀ k < 8400, c.ctx.buffer (BitVec.ofNat 64 k) = t.shown k

namespace Follows

variable {t : Terminal} {c : Console} {d : BitVec 8}

theorem init (memory : BitVec 64 → BitVec 8) (al : BitVec 8) :
    Follows (.blank al) (efiConsoleInit memory al) where
  valid := Terminal.valid_blank al
  rows := rfl
  columns := rfl
  row := rfl
  column := rfl
  buffer := by
    intro k hk
    have hlt : BitVec.ofNat 64 k < 120 * 70 * 1 * 2 := by
      rw [BitVec.lt_def, BitVec.toNat_ofNat, Nat.mod_eq_of_lt (by omega)]
      exact Nat.lt_trans hk (by decide)
    have hshown : (Terminal.blank al).shown k = al := by
      simp [Terminal.shown, Terminal.blank]
    rw [hshown]
    exact if_pos hlt

theorem startOver (h : Follows t c) : Follows t.turnPage (startOver c) := by
  have hcolumn : c.ctx.currentColumn.toNat = t.line := by
    rw [h.column, BitVec.toNat_ofNat, Nat.mod_eq_of_lt (Nat.lt_of_le_of_lt h.valid.line_le
      (by decide))]
  have hfull : c.ctx.columns ≤ c.ctx.currentColumn ↔ t.line = 70 := by
    have hmax : (70 : BitVec 64).toNat = 70 := rfl
    have hle := h.valid.line_le
    rw [h.columns, BitVec.le_def, hcolumn, hmax]
    omega
  rw [Loader.startOver, Terminal.turnPage]
  by_cases hline : t.line = 70
  · rw [if_pos hline, if_pos (hfull.mpr hline)]
    have hfilled := filled_efiConsoleFill (c := c.moveTo 0 0) h.rows h.columns 0x20 0
    exact
      { valid := Terminal.valid_blank 0x20
        rows := hfilled.rows.trans h.rows
        columns := hfilled.columns.trans h.columns
        row := hfilled.currentRow
        column := hfilled.currentColumn
        buffer := fun k hk ↦ by
          rw [(filledTo_efiConsoleFill (c := c.moveTo 0 0) h.rows h.columns 0x20 0).buffer k hk]
          simp [Terminal.shown, Terminal.blank] }
  · rw [if_neg hline, if_neg fun hle ↦ hline (hfull.mp hle)]
    exact h

/-- What the cells show after a character is put. -/
theorem shown_put (h : t.Valid) (hnewline : d ≠ newline) (htab : d ≠ tab)
    (hwidth : t.width < 120) (k : Nat) :
    (t.put d).shown k =
      if k = t.place + 1 then 0 else if k = t.place then d else t.shown k := by
  have hcells : (t.put d).cells = Function.update t.cells t.place (some d) := by
    rw [Terminal.put_of_ne hnewline htab]
  have hbackground : (t.put d).background = t.background := by
    rw [Terminal.put_of_ne hnewline htab]
  by_cases hself : k = t.place
  · subst hself
    rw [if_neg (by omega), if_pos rfl]
    exact Terminal.shown_of_cells (hcells ▸ Function.update_self _ _ _)
  · by_cases hnext : k = t.place + 1
    · -- nothing has been written behind the place yet
      have hfree : t.cells (t.place + 1) = none :=
        h.free _ (by rw [Terminal.place]; omega)
      subst hnext
      rw [if_pos rfl, Terminal.shown, hcells, Function.update_of_ne (by omega), hfree]
      simp [Function.update_self]
    · have hprev : k ≠ 0 → k - 1 ≠ t.place := fun _ ↦ by omega
      rw [if_neg hnext, if_neg hself, Terminal.shown, Terminal.shown, hcells, hbackground,
        Function.update_of_ne hself]
      by_cases hzero : k = 0
      · subst hzero
        rfl
      · rw [Function.update_of_ne (hprev hzero)]

theorem putChar (h : Follows t c) (hline : t.line < 70)
    (hfits : d ≠ newline → d ≠ tab → t.width < 120) : Follows (t.put d) (putChar d c) := by
  have hvalid := h.valid.put hline hfits
  rw [Loader.putChar]
  by_cases hnewline : d = newline
  · subst hnewline
    rw [if_pos rfl]
    rw [Terminal.put_newline] at hvalid ⊢
    exact ⟨hvalid, h.rows, h.columns, rfl,
      (congrArg (· + 1) h.column).trans (BitVec.ofNat_add _ 1).symm, h.buffer⟩
  · by_cases htab : d = tab
    · subst htab
      rw [if_neg hnewline, if_pos rfl]
      rw [Terminal.put_tab] at hvalid ⊢
      exact ⟨hvalid, h.rows, h.columns,
        (congrArg (· + 4) h.row).trans (BitVec.ofNat_add _ 4).symm, h.column, h.buffer⟩
    · rw [if_neg hnewline, if_neg htab]
      have hwidth := hfits hnewline htab
      have hplace : t.place = 120 * t.line + t.width := rfl
      refine ⟨hvalid, h.rows, h.columns, ?_, ?_, fun k hk ↦ ?_⟩
      · rw [Terminal.put_of_ne hnewline htab]
        exact (congrArg (· + 1) h.row).trans (BitVec.ofNat_add _ 1).symm
      · rw [Terminal.put_of_ne hnewline htab]
        exact h.column
      · rw [shown_put h.valid hnewline htab hwidth, h.row, h.column]
        have hbuffer := buffer_efiConsoleSetcell (c :=
          { c with stored := ⟨BitVec.ofNat 64 t.width, BitVec.ofNat 64 t.line⟩ :: c.stored })
          h.rows hwidth hline d 0 hk
        rw [← hplace] at hbuffer
        refine hbuffer.trans ?_
        rw [← h.buffer k hk]

/-- One character. -/
theorem write (h : Follows t c) (hfits : d ≠ newline → d ≠ tab → t.width < 120) :
    Follows (t.write d) (writeChar c d) := by
  refine h.startOver.putChar h.valid.turnPage.2 ?_
  rw [Terminal.turnPage_width h.valid]
  exact hfits

end Follows

/-! ## Text -/

/-- Each character of the text other than a newline or a tab is on a line of which less than
120 is taken. -/
def KeepsToLines (cs : List (BitVec 8)) : Prop :=
  ∀ before c after, cs = before ++ c :: after → c ≠ newline → c ≠ tab → lineWidth before < 120

/-- The number of newlines. -/
def newlines (cs : List (BitVec 8)) : Nat := cs.count newline

/-- The page of the last character: a newline is the end of the page that it fills. -/
def page (cs : List (BitVec 8)) : Nat := newlines cs.dropLast / 70

theorem keepsToLines_of_concat {cs : List (BitVec 8)} {c : BitVec 8}
    (h : KeepsToLines (cs ++ [c])) :
    KeepsToLines cs ∧ (c ≠ newline → c ≠ tab → lineWidth cs < 120) := by
  refine ⟨?_, h cs c [] rfl⟩
  rintro before d after rfl
  apply h before d (after ++ [c])
  rw [List.append_assoc, List.cons_append]

theorem newlines_concat (cs : List (BitVec 8)) (c : BitVec 8) :
    newlines (cs ++ [c]) = newlines cs + if c = newline then 1 else 0 := by
  rw [newlines, List.count_append, List.count_singleton, newlines]
  simp only [beq_iff_eq]

theorem page_concat (cs : List (BitVec 8)) (c : BitVec 8) :
    page (cs ++ [c]) = newlines cs / 70 := by
  rw [page, List.dropLast_concat]

/-- A text that others follow has no newline more than the text less its last character. -/
theorem newlines_le_dropLast (before after : List (BitVec 8)) (c : BitVec 8) :
    newlines before ≤ newlines (before ++ c :: after).dropLast := by
  rw [List.dropLast_append_of_ne_nil (List.cons_ne_nil c after), newlines, newlines,
    List.count_append]
  exact Nat.le_add_right _ _

/-- The terminal after the text `cs`. -/
structure Printed (cs : List (BitVec 8)) (t : Terminal) : Prop where
  width : t.width = lineWidth cs
  line : t.line + 70 * page cs = newlines cs
  cells : ∀ before c after, cs = before ++ c :: after → c ≠ newline → c ≠ tab →
    newlines before / 70 = page cs →
      t.cells (120 * (newlines before % 70) + lineWidth before) = some c

namespace Printed

variable {cs : List (BitVec 8)} {t : Terminal}

theorem nil (background : BitVec 8) : Printed [] (.blank background) where
  width := rfl
  line := rfl
  cells := by
    intro before c after h
    exact absurd h.symm (List.append_ne_nil_of_right_ne_nil _ (List.cons_ne_nil _ _))

/-- The terminal with a free line, and what it shows on the page of the next character. -/
theorem turnPage (h : Printed cs t) (hvalid : t.Valid) :
    t.turnPage.line = newlines cs % 70 ∧
    ∀ before c after, cs = before ++ c :: after → c ≠ newline → c ≠ tab →
      newlines before / 70 = newlines cs / 70 →
        t.turnPage.cells (120 * (newlines before % 70) + lineWidth before) = some c := by
  have hline := h.line
  have hle := hvalid.line_le
  rw [Terminal.turnPage]
  split
  · rename_i hfull
    refine ⟨?_, ?_⟩
    · change 0 = _
      omega
    · -- the text so far is on the pages before
      rintro before c after rfl - - hpage
      have hbefore := newlines_le_dropLast before after c
      rw [page] at hline
      omega
  · rename_i hfree
    refine ⟨by omega, fun before c after hcs hnewline htab hpage ↦ ?_⟩
    exact h.cells before c after hcs hnewline htab (by omega)

/-- The last character is the new one, or it is one of the text before. -/
theorem eq_or_of_concat {before after : List (BitVec 8)} {c d : BitVec 8}
    (h : cs ++ [d] = before ++ c :: after) :
    (before = cs ∧ c = d) ∨ ∃ rest, cs = before ++ c :: rest := by
  rcases List.eq_nil_or_concat after with rfl | ⟨rest, e, rfl⟩
  · obtain ⟨hbefore, hlast⟩ := List.append_inj' h rfl
    exact .inl ⟨hbefore.symm, (List.singleton_inj.mp hlast).symm⟩
  · rw [List.concat_eq_append, ← List.cons_append, ← List.append_assoc] at h
    exact .inr ⟨rest, (List.append_inj' h rfl).1⟩

theorem write (h : Printed cs t) (hvalid : t.Valid) {d : BitVec 8}
    (hkeeps : KeepsToLines (cs ++ [d])) : Printed (cs ++ [d]) (t.write d) := by
  obtain ⟨hline, hcells⟩ := h.turnPage hvalid
  obtain ⟨hbefore, hwidth⟩ := keepsToLines_of_concat hkeeps
  have hturned : t.turnPage.width = lineWidth cs := (Terminal.turnPage_width hvalid).trans h.width
  have hplace : t.turnPage.place = 120 * (newlines cs % 70) + lineWidth cs := by
    rw [Terminal.place, hline, hturned]
  rw [Terminal.write]
  by_cases hnewline : d = newline
  · subst hnewline
    rw [Terminal.put_newline]
    refine ⟨?_, ?_, ?_⟩
    · rw [lineWidth_concat, widen, if_pos rfl]
    · rw [page_concat, newlines_concat, if_pos rfl]
      simp only [hline]
      omega
    · intro before c after hcs hc htab hpage
      rw [page_concat] at hpage
      obtain ⟨-, rfl⟩ | ⟨rest, hcs⟩ := eq_or_of_concat hcs
      · exact absurd rfl hc
      · exact hcells before c rest hcs hc htab hpage
  · by_cases htab : d = tab
    · subst htab
      rw [Terminal.put_tab]
      refine ⟨?_, ?_, ?_⟩
      · rw [lineWidth_concat, widen, if_neg hnewline, if_pos rfl]
        exact congrArg (· + 4) hturned
      · rw [page_concat, newlines_concat, if_neg hnewline]
        simp only [hline]
        omega
      · intro before c after hcs hc htab hpage
        rw [page_concat] at hpage
        obtain ⟨-, rfl⟩ | ⟨rest, hcs⟩ := eq_or_of_concat hcs
        · exact absurd rfl htab
        · exact hcells before c rest hcs hc htab hpage
    · rw [Terminal.put_of_ne hnewline htab]
      refine ⟨?_, ?_, ?_⟩
      · rw [lineWidth_concat, widen, if_neg hnewline, if_neg htab]
        exact congrArg (· + 1) hturned
      · rw [page_concat, newlines_concat, if_neg hnewline]
        simp only [hline]
        omega
      · intro before c after hcs hc htab hpage
        rw [page_concat] at hpage
        obtain ⟨rfl, rfl⟩ | ⟨rest, hcs⟩ := eq_or_of_concat hcs
        · rw [hplace]
          exact Function.update_self _ _ _
        · -- the place was free, and the character is not
          have hcell := hcells before c rest hcs hc htab hpage
          refine (Function.update_of_ne ?_ _ _).trans hcell
          intro heq
          have hfree := hvalid.turnPage.1.free t.turnPage.place
            (by rw [Terminal.place]; omega)
          rw [heq, hfree] at hcell
          exact absurd hcell (by simp)

end Printed

/-- The console follows the terminal on every text that keeps to the lines. -/
theorem Follows.run (memory : BitVec 64 → BitVec 8) (al : BitVec 8) {cs : List (BitVec 8)}
    (h : KeepsToLines cs) :
    Follows (cs.foldl .write (.blank al)) (cs.foldl writeChar (efiConsoleInit memory al)) ∧
      Printed cs (cs.foldl .write (.blank al)) := by
  induction cs using List.reverseRecOn with
  | nil => exact ⟨.init memory al, .nil al⟩
  | append_singleton cs d ih =>
      obtain ⟨hbefore, hwidth⟩ := keepsToLines_of_concat h
      obtain ⟨hfollows, hprinted⟩ := ih hbefore
      rw [List.foldl_append, List.foldl_append]
      refine ⟨hfollows.write ?_, hprinted.write hfollows.valid h⟩
      rw [hprinted.width]
      exact hwidth

/-- A console that follows a terminal shows what the terminal shows. -/
theorem Follows.drawnCharacter_eq {t : Terminal} {c : Console} (h : Follows t c) {x y : Nat}
    (hx : x < 120) (hy : y < 70) :
    drawnCharacter c ⟨BitVec.ofNat 64 x, BitVec.ofNat 64 y⟩ = t.shown (120 * y + x) := by
  rw [← h.buffer _ (show 120 * y + x < 8400 by omega), drawnCharacter, cellIndex, h.rows,
    BitVec.mul_comm, BitVec.ofNat_add, BitVec.ofNat_mul]
  rfl

/-- **The console is a terminal.**  On messages that keep to the lines, each cell of the
screen shows what the terminal shows. -/
theorem drawnCharacter_eq_shown (memory : BitVec 64 → BitVec 8) (al : BitVec 8)
    (messages : List CString) (h : KeepsToLines (text messages)) {x y : Nat} (hx : x < 120)
    (hy : y < 70) :
    drawnCharacter (writeAll (efiConsoleInit memory al) messages)
        ⟨BitVec.ofNat 64 x, BitVec.ofNat 64 y⟩ =
      ((text messages).foldl Terminal.write (.blank al)).shown (120 * y + x) := by
  obtain ⟨hfollows, -⟩ := Follows.run memory al h
  rw [writeAll_eq]
  exact hfollows.drawnCharacter_eq hx hy

/-- Each character of the last page is shown in the line that the newlines before it say, as far
along as the line was wide. -/
theorem drawnCharacter_writeAll (memory : BitVec 64 → BitVec 8) (al : BitVec 8)
    (messages : List CString) (h : KeepsToLines (text messages))
    {before after : List (BitVec 8)} {c : BitVec 8} (htext : text messages = before ++ c :: after)
    (hnewline : c ≠ newline) (htab : c ≠ tab)
    (hpage : newlines before / 70 = page (text messages)) :
    drawnCharacter (writeAll (efiConsoleInit memory al) messages)
      ⟨BitVec.ofNat 64 (lineWidth before), BitVec.ofNat 64 (newlines before % 70)⟩ = c := by
  obtain ⟨hfollows, hprinted⟩ := Follows.run memory al h
  rw [writeAll_eq, hfollows.drawnCharacter_eq (h before c after htext hnewline htab)
    (Nat.mod_lt _ (by decide))]
  exact Terminal.shown_of_cells (hprinted.cells before c after htext hnewline htab hpage)

/-- A tab is the widest character. -/
theorem lineWidth_le (cs : List (BitVec 8)) : lineWidth cs ≤ 4 * cs.length := by
  induction cs using List.reverseRecOn with
  | nil => exact Nat.le_refl 0
  | append_singleton cs c ih =>
      have hwiden : widen (lineWidth cs) c ≤ lineWidth cs + 4 := by
        rw [widen]
        split
        · exact Nat.zero_le _
        · split <;> omega
      rw [lineWidth_concat, List.length_append, List.length_singleton]
      omega

theorem keepsToLines_of_length {cs : List (BitVec 8)} (h : cs.length ≤ 30) : KeepsToLines cs := by
  rintro before c after rfl - -
  have hwidth := lineWidth_le before
  rw [List.length_append, List.length_cons] at h
  omega

/-- Two messages, of which the second starts with a newline. -/
def twoLines : List CString :=
  [.ofChars "entries: ".toList rfl, .ofChars "\n7".toList rfl]

/-- The cell behind the text has the attribute of the last character, not the background. -/
theorem drawnCharacter_eq_shown_twoLines :
    drawnCharacter (writeAll (efiConsoleInit (fun _ ↦ 0) 0x20) twoLines)
        ⟨BitVec.ofNat 64 1, BitVec.ofNat 64 1⟩ =
      ((text twoLines).foldl Terminal.write (.blank 0x20)).shown (120 * 1 + 1) :=
  drawnCharacter_eq_shown (fun _ ↦ 0) 0x20 twoLines (keepsToLines_of_length (by decide))
    (by decide) (by decide)

end Hypervi.Loader
