import Hypervi.Loader.Console

/-!
# The cells of the console

The buffer has room for a character and an attribute of each cell, but the cells are
numbered in steps of one: `efi_console_setcell` puts the attribute where the character of
the next cell is, the first of the next line for the last of a line, and
`efi_console_draw` reads it as one.

So a cell is set alone exactly when it is the last one or the attribute is the character
that the next cell has anyway (`setsOnly_iff`).
-/

namespace Hypervi.Loader

/-! ## `efi_console_draw` -/

/-- `y * ctx.rows + x` -/
def cellIndex (c : Console) (p : Cursor) : BitVec 64 := p.column * c.ctx.rows + p.row

/-- The character that `efi_console_draw` reads for a cell. -/
def drawnCharacter (c : Console) (p : Cursor) : BitVec 8 := c.ctx.buffer (cellIndex c p)

/-- The cells that `efi_console_draw` draws, in order, with their characters. -/
def efiConsoleDraw (c : Console) : List (Cursor × BitVec 8) :=
  (List.range c.ctx.columns.toNat).flatMap fun y ↦
    (List.range c.ctx.rows.toNat).map fun x ↦
      let p : Cursor := ⟨BitVec.ofNat 64 x, BitVec.ofNat 64 y⟩
      (p, drawnCharacter c p)

/-- The cell is on the screen. -/
structure OnScreen (c : Console) (p : Cursor) : Prop where
  row : p.row < c.ctx.rows
  column : p.column < c.ctx.columns

/-- Each cell of the screen is drawn, with its character. -/
theorem mem_efiConsoleDraw_iff {c : Console} {p : Cursor} {d : BitVec 8} :
    (p, d) ∈ efiConsoleDraw c ↔ OnScreen c p ∧ d = drawnCharacter c p := by
  simp only [efiConsoleDraw, List.mem_flatMap, List.mem_map, List.mem_range, Prod.mk.injEq]
  constructor
  · rintro ⟨y, hy, x, hx, rfl, rfl⟩
    have hrows := c.ctx.rows.isLt
    have hcolumns := c.ctx.columns.isLt
    refine ⟨⟨?_, ?_⟩, rfl⟩
    · rw [BitVec.lt_def, BitVec.toNat_ofNat, Nat.mod_eq_of_lt (Nat.lt_trans hx hrows)]
      exact hx
    · rw [BitVec.lt_def, BitVec.toNat_ofNat, Nat.mod_eq_of_lt (Nat.lt_trans hy hcolumns)]
      exact hy
  · rintro ⟨⟨hrow, hcolumn⟩, rfl⟩
    refine ⟨p.column.toNat, hcolumn, p.row.toNat, hrow, ?_, ?_⟩
    · rw [BitVec.ofNat_toNat, BitVec.ofNat_toNat, BitVec.setWidth_eq, BitVec.setWidth_eq]
    · rw [BitVec.ofNat_toNat, BitVec.ofNat_toNat, BitVec.setWidth_eq, BitVec.setWidth_eq]

/-! ## Setting one cell -/

/-- The cell has the character, and every other cell of the screen has the one it had. -/
structure SetsOnly (c c' : Console) (p : Cursor) (character : BitVec 8) : Prop where
  cell : drawnCharacter c' p = character
  others : ∀ q, OnScreen c q → q ≠ p → drawnCharacter c' q = drawnCharacter c q

/-- The cell is in the last row of the last column. -/
structure IsLastCell (c : Console) (p : Cursor) : Prop where
  row : p.row + 1 = c.ctx.rows
  column : p.column + 1 = c.ctx.columns

/-- The cell that `efi_console_draw` draws next. -/
def nextCell (c : Console) (p : Cursor) : Cursor :=
  if p.row + 1 = c.ctx.rows then ⟨0, p.column + 1⟩ else ⟨p.row + 1, p.column⟩

section cells

variable {c : Console} {p q : Cursor}

/-- The number of a cell, which does not wrap. -/
theorem toNat_cellIndex (hsize : c.ctx.rows.toNat * c.ctx.columns.toNat < 2 ^ 64)
    (hp : OnScreen c p) :
    (cellIndex c p).toNat = c.ctx.rows.toNat * p.column.toNat + p.row.toNat ∧
      (cellIndex c p).toNat < c.ctx.rows.toNat * c.ctx.columns.toNat := by
  have hrow : p.row.toNat < c.ctx.rows.toNat := hp.row
  have hcolumn : p.column.toNat + 1 ≤ c.ctx.columns.toNat := hp.column
  have hlines := Nat.mul_le_mul_left c.ctx.rows.toNat hcolumn
  rw [Nat.mul_succ] at hlines
  have hidx : (cellIndex c p).toNat = c.ctx.rows.toNat * p.column.toNat + p.row.toNat := by
    rw [cellIndex, BitVec.toNat_add, BitVec.toNat_mul, Nat.mul_comm p.column.toNat,
      Nat.mod_eq_of_lt (a := _ * _), Nat.mod_eq_of_lt]
    all_goals omega
  exact ⟨hidx, by omega⟩

/-- The number tells the cell. -/
theorem eq_of_cellIndex (hsize : c.ctx.rows.toNat * c.ctx.columns.toNat < 2 ^ 64)
    (hp : OnScreen c p) (hq : OnScreen c q) (heq : cellIndex c p = cellIndex c q) : p = q := by
  have hnum := congrArg BitVec.toNat heq
  rw [(toNat_cellIndex hsize hp).1, (toNat_cellIndex hsize hq).1] at hnum
  have hprow : p.row.toNat < c.ctx.rows.toNat := hp.row
  have hqrow : q.row.toNat < c.ctx.rows.toNat := hq.row
  have hpos := Nat.lt_of_le_of_lt (Nat.zero_le _) hprow
  have hrow : p.row.toNat = q.row.toNat := by
    have hmod := congrArg (· % c.ctx.rows.toNat) hnum
    simpa only [Nat.mul_add_mod, Nat.mod_eq_of_lt hprow, Nat.mod_eq_of_lt hqrow] using hmod
  have hcolumn : p.column.toNat = q.column.toNat := by
    rw [hrow, Nat.add_right_cancel_iff] at hnum
    exact Nat.eq_of_mul_eq_mul_left hpos hnum
  obtain ⟨prow, pcolumn⟩ := p
  obtain ⟨qrow, qcolumn⟩ := q
  rw [Cursor.mk.injEq]
  exact ⟨BitVec.eq_of_toNat_eq hrow, BitVec.eq_of_toNat_eq hcolumn⟩

/-- The next cell is on the screen, unless the cell is the last one, and has the next
number. -/
theorem nextCell_spec (hp : OnScreen c p) (hlast : ¬ IsLastCell c p) :
    OnScreen c (nextCell c p) ∧ cellIndex c (nextCell c p) = cellIndex c p + 1 := by
  obtain ⟨hrow, hcolumn⟩ := hp
  have hrow' : p.row.toNat < c.ctx.rows.toNat := hrow
  have hcolumn' : p.column.toNat < c.ctx.columns.toNat := hcolumn
  have hone : (1 : BitVec 64).toNat = 1 := rfl
  have hrows := c.ctx.rows.isLt
  have hcolumns := c.ctx.columns.isLt
  have hsuccRow : (p.row + 1).toNat = p.row.toNat + 1 := by
    rw [BitVec.toNat_add, hone, Nat.mod_eq_of_lt (by omega)]
  have hsuccColumn : (p.column + 1).toNat = p.column.toNat + 1 := by
    rw [BitVec.toNat_add, hone, Nat.mod_eq_of_lt (by omega)]
  unfold nextCell
  by_cases hend : p.row + 1 = c.ctx.rows
  · rw [if_pos hend]
    have hne : p.column + 1 ≠ c.ctx.columns := fun heq ↦ hlast ⟨hend, heq⟩
    have hne' : (p.column + 1).toNat ≠ c.ctx.columns.toNat :=
      fun heq ↦ hne (BitVec.eq_of_toNat_eq heq)
    refine ⟨⟨?_, ?_⟩, ?_⟩
    · change 0 < c.ctx.rows.toNat
      omega
    · change (p.column + 1).toNat < c.ctx.columns.toNat
      omega
    · simp only [cellIndex, ← hend]
      calc (p.column + 1) * (p.row + 1) + 0
        _ = p.column * (p.row + 1) + 1 * (p.row + 1) := (BitVec.add_zero _).trans BitVec.add_mul
        _ = p.column * (p.row + 1) + (p.row + 1) := congrArg _ (BitVec.one_mul _)
        _ = p.column * (p.row + 1) + p.row + 1 := (BitVec.add_assoc _ _ _).symm
  · rw [if_neg hend]
    have hne' : (p.row + 1).toNat ≠ c.ctx.rows.toNat :=
      fun heq ↦ hend (BitVec.eq_of_toNat_eq heq)
    refine ⟨⟨?_, hcolumn⟩, ?_⟩
    · change (p.row + 1).toNat < c.ctx.rows.toNat
      omega
    · simp only [cellIndex, BitVec.add_assoc]

/-- Behind the last cell there is none. -/
theorem not_cellIndex_of_isLastCell (hsize : c.ctx.rows.toNat * c.ctx.columns.toNat < 2 ^ 64)
    (hp : OnScreen c p) (hlast : IsLastCell c p) (hq : OnScreen c q) :
    cellIndex c q ≠ cellIndex c p + 1 := by
  intro heq
  obtain ⟨hidx, hlt⟩ := toNat_cellIndex hsize hp
  have hnext := (toNat_cellIndex hsize hq).2
  have hone : (1 : BitVec 64).toNat = 1 := rfl
  have hrow' : p.row.toNat < c.ctx.rows.toNat := hp.row
  have hcolumn' : p.column.toNat < c.ctx.columns.toNat := hp.column
  have hrows : c.ctx.rows.toNat = p.row.toNat + 1 := by
    rw [← hlast.row, BitVec.toNat_add, hone, Nat.mod_eq_of_lt (by omega)]
  have hcolumns : c.ctx.columns.toNat = p.column.toNat + 1 := by
    rw [← hlast.column, BitVec.toNat_add, hone, Nat.mod_eq_of_lt (by omega)]
  have hend : c.ctx.rows.toNat * c.ctx.columns.toNat = (cellIndex c p).toNat + 1 := by
    rw [hidx, hcolumns, Nat.mul_succ, Nat.add_assoc, ← hrows]
  rw [heq, BitVec.toNat_add, hone, Nat.mod_eq_of_lt (by omega), hend] at hnext
  exact Nat.lt_irrefl _ hnext

/-- What the cells hold after one is set. -/
theorem drawnCharacter_efiConsoleSetcell (c : Console) (p q : Cursor) (character attr : BitVec 8) :
    drawnCharacter (efiConsoleSetcell p.row p.column character attr c) q =
      if cellIndex c q = cellIndex c p + 1 then attr
      else if cellIndex c q = cellIndex c p then character
      else drawnCharacter c q := by
  change Function.update (Function.update c.ctx.buffer (cellIndex c p) character)
    (cellIndex c p + 1) attr (cellIndex c q) = _
  rw [Function.update_apply, Function.update_apply]
  rfl

end cells

/-- **One cell.**  Setting a cell leaves the others alone exactly when it is the last one,
or the next one has the attribute for its character already. -/
theorem setsOnly_iff (c : Console) (hsize : c.ctx.rows.toNat * c.ctx.columns.toNat < 2 ^ 64)
    (p : Cursor) (hp : OnScreen c p) (character attr : BitVec 8) :
    SetsOnly c (efiConsoleSetcell p.row p.column character attr c) p character ↔
      IsLastCell c p ∨ drawnCharacter c (nextCell c p) = attr := by
  have hself : cellIndex c p ≠ cellIndex c p + 1 := by
    intro heq
    bv_omega
  constructor
  · intro h
    by_cases hlast : IsLastCell c p
    · exact .inl hlast
    · obtain ⟨hnext, hidx⟩ := nextCell_spec hp hlast
      have hne : nextCell c p ≠ p := by
        intro heq
        rw [heq] at hidx
        exact hself hidx
      have hkept := h.others (nextCell c p) hnext hne
      rw [drawnCharacter_efiConsoleSetcell, if_pos hidx] at hkept
      exact .inr hkept.symm
  · intro h
    refine ⟨?_, fun q hq hne ↦ ?_⟩
    · rw [drawnCharacter_efiConsoleSetcell, if_neg hself, if_pos rfl]
    · rw [drawnCharacter_efiConsoleSetcell,
        if_neg fun heq ↦ hne (eq_of_cellIndex hsize hq hp heq)]
      split
      · next hidx =>
        have hlast : ¬ IsLastCell c p :=
          fun hlast ↦ not_cellIndex_of_isLastCell hsize hp hlast hq hidx
        obtain ⟨hnext, hidx'⟩ := nextCell_spec hp hlast
        rw [eq_of_cellIndex hsize hq hnext (hidx.trans hidx'.symm)]
        exact (h.resolve_left hlast).symm
      · rfl

/-- The last cell of the console as `efi_console_init` leaves it. -/
theorem setsOnly_lastCell :
    SetsOnly (efiConsoleInit (fun _ ↦ 0) 0)
      (efiConsoleSetcell 119 69 0x41 7 (efiConsoleInit (fun _ ↦ 0) 0)) ⟨119, 69⟩ 0x41 :=
  (setsOnly_iff (efiConsoleInit (fun _ ↦ 0) 0) (by decide) ⟨119, 69⟩ ⟨by decide, by decide⟩
    0x41 7).mpr (.inl ⟨by decide, by decide⟩)

/-- The first cell of a console of letters: the next one is drawn as the attribute. -/
theorem not_setsOnly_firstCell :
    OnScreen (efiConsoleInit (fun _ ↦ 0) 0x41) ⟨0, 0⟩ ∧
      ¬ SetsOnly (efiConsoleInit (fun _ ↦ 0) 0x41)
        (efiConsoleSetcell 0 0 0x42 0 (efiConsoleInit (fun _ ↦ 0) 0x41)) ⟨0, 0⟩ 0x42 := by
  refine ⟨⟨by decide, by decide⟩, fun h ↦ ?_⟩
  have hkept := h.others ⟨1, 0⟩ ⟨by decide, by decide⟩ (by decide)
  revert hkept
  decide

end Hypervi.Loader
