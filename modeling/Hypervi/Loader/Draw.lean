import Hypervi.Loader.Gfx
import Hypervi.Loader.Terminal

/-!
# The console on the screen

`efi_console_draw` draws the cells one after the other, each character where its cell is, and
behind the first drawing of all the logo.  A cell with a NUL is skipped: it keeps the pixels that
it had.

* `video_drawCells` says what each pixel of the screen is after the cells are drawn.
* `video_printAll`: in a run of messages each character of the last page ends up as its glyph
  in its cell.
-/

namespace Hypervi.Loader

open Memory Raster Freestanding

/-! ## The cells -/

section cells

variable (blt : Blt) (mem : Mem) (font : PngImage)

/-- One cell of `efi_console_draw`. -/
def drawCell (gop : EfiGop) (cell : Cursor × BitVec 8) : EfiGop :=
  efiGfxChar blt mem font (cell.1.row * charWidth font) (cell.1.column * charHeight font) cell.2 gop

/-- The two loops of `efi_console_draw`. -/
def drawCells (c : Console) (gop : EfiGop) : EfiGop :=
  (efiConsoleDraw c).foldl (drawCell blt mem font) gop

/-- The cells of the console are on the screen. -/
structure CellsFit (c : Console) (gop : EfiGop) : Prop where
  rows : c.ctx.rows.toNat * (charWidth font).toNat ≤ gop.horizontalResolution.toNat
  columns : c.ctx.columns.toNat * (charHeight font).toNat ≤ gop.verticalResolution.toNat

/-- The tiles that are painted: those of the cells that have a character. -/
def cellTiles (cells : List (Cursor × BitVec 8)) : List (Tile (BitVec 32)) :=
  (cells.filter fun cell ↦ cell.2 != 0).map fun cell ↦
    glyphTile mem font (cell.1.row * charWidth font) (cell.1.column * charHeight font) cell.2

variable {blt mem font} {c : Console} {gop : EfiGop}

theorem CellsFit.fits (h : CellsFit font c gop) {p : Cursor} (hp : OnScreen c p) :
    gop.Fits (p.row * charWidth font) (p.column * charHeight font) (charWidth font)
        (charHeight font) ∧
      (p.row * charWidth font).toNat = p.row.toNat * (charWidth font).toNat ∧
      (p.column * charHeight font).toNat = p.column.toNat * (charHeight font).toNat := by
  have hrow : p.row.toNat < c.ctx.rows.toNat := hp.row
  have hcolumn : p.column.toNat < c.ctx.columns.toNat := hp.column
  have hleft := Nat.mul_le_mul_right (charWidth font).toNat hrow
  have htop := Nat.mul_le_mul_right (charHeight font).toNat hcolumn
  rw [Nat.succ_mul] at hleft htop
  have hwidth := h.rows
  have hheight := h.columns
  have hres := gop.horizontalResolution.isLt
  have hres' := gop.verticalResolution.isLt
  have hx : (p.row * charWidth font).toNat = p.row.toNat * (charWidth font).toNat := by
    rw [BitVec.toNat_mul, Nat.mod_eq_of_lt (by omega)]
  have hy : (p.column * charHeight font).toNat = p.column.toNat * (charHeight font).toNat := by
    rw [BitVec.toNat_mul, Nat.mod_eq_of_lt (by omega)]
  refine ⟨⟨?_, ?_⟩, hx, hy⟩
  · rw [hx]
    omega
  · rw [hy]
    omega

/-- Cells on the screen are painted, less those with a NUL. -/
theorem foldl_drawCell (hblt : BufferToVideo blt) {cells : List (Cursor × BitVec 8)}
    (h : CellsFit font c gop) (hcells : ∀ cell ∈ cells, OnScreen c cell.1) :
    cells.foldl (drawCell blt mem font) gop =
      { gop with video := paintAll (cellTiles mem font cells) gop.video } := by
  induction cells generalizing gop with
  | nil => rfl
  | cons cell cells ih =>
      obtain ⟨hcell, hcells⟩ := List.forall_mem_cons.mp hcells
      rw [List.foldl_cons]
      by_cases hnul : cell.2 = 0
      · have hskip : cellTiles mem font (cell :: cells) = cellTiles mem font cells := by
          simp only [cellTiles, List.filter_cons, hnul, bne_self_eq_false, Bool.false_eq_true,
            if_false]
        have hdraw : drawCell blt mem font gop cell = gop := if_pos hnul
        rw [hdraw, hskip]
        exact ih h hcells
      · have htile : cellTiles mem font (cell :: cells) =
            glyphTile mem font (cell.1.row * charWidth font) (cell.1.column * charHeight font)
              cell.2 :: cellTiles mem font cells := by
          have hbne : (cell.2 != 0) = true := bne_iff_ne.mpr hnul
          simp only [cellTiles, List.filter_cons, hbne, if_true, List.map_cons]
        have hdraw := efiGfxChar_of_fits mem font hblt hnul (h.fits hcell).1
        rw [drawCell, hdraw, htile]
        exact ih ⟨h.rows, h.columns⟩ hcells

/-- The cell in which a pixel is. -/
def cellAt (font : PngImage) (px py : Nat) : Cursor where
  row := BitVec.ofNat 64 (px / (charWidth font).toNat)
  column := BitVec.ofNat 64 (py / (charHeight font).toNat)

section pixel

variable (hwidth : 0 < (charWidth font).toNat) (hheight : 0 < (charHeight font).toNat)
  {px py : Nat}

/-- The pixel is in a cell of the console. -/
def InCells (font : PngImage) (c : Console) (px py : Nat) : Prop :=
  px < c.ctx.rows.toNat * (charWidth font).toNat ∧
    py < c.ctx.columns.toNat * (charHeight font).toNat

instance (font : PngImage) (c : Console) (px py : Nat) : Decidable (InCells font c px py) :=
  inferInstanceAs (Decidable (_ ∧ _))

include hwidth hheight

theorem onScreen_cellAt (h : InCells font c px py) :
    OnScreen c (cellAt font px py) ∧
      (cellAt font px py).row.toNat = px / (charWidth font).toNat ∧
      (cellAt font px py).column.toNat = py / (charHeight font).toNat := by
  have hrow : px / (charWidth font).toNat < c.ctx.rows.toNat :=
    (Nat.div_lt_iff_lt_mul hwidth).mpr h.1
  have hcolumn : py / (charHeight font).toNat < c.ctx.columns.toNat :=
    (Nat.div_lt_iff_lt_mul hheight).mpr h.2
  have hrow' : (cellAt font px py).row.toNat = px / (charWidth font).toNat := by
    rw [cellAt, BitVec.toNat_ofNat, Nat.mod_eq_of_lt (Nat.lt_trans hrow c.ctx.rows.isLt)]
  have hcolumn' : (cellAt font px py).column.toNat = py / (charHeight font).toNat := by
    rw [cellAt, BitVec.toNat_ofNat, Nat.mod_eq_of_lt (Nat.lt_trans hcolumn c.ctx.columns.isLt)]
  refine ⟨⟨?_, ?_⟩, hrow', hcolumn'⟩
  · rw [BitVec.lt_def, hrow']
    exact hrow
  · rw [BitVec.lt_def, hcolumn']
    exact hcolumn

/-- The tile of a cell covers the pixels in the cell. -/
theorem covers_glyphTile_iff (h : CellsFit font c gop) {q : Cursor} (hq : OnScreen c q)
    (d : BitVec 8) :
    (glyphTile mem font (q.row * charWidth font) (q.column * charHeight font) d).Covers px py ↔
      InCells font c px py ∧ q = cellAt font px py := by
  obtain ⟨-, hx, hy⟩ := h.fits hq
  have hgrid := covers_grid_iff (glyphPixel mem font d) q.row.toNat q.column.toNat px py hwidth
    hheight
  have htile : glyphTile mem font (q.row * charWidth font) (q.column * charHeight font) d =
      ⟨q.row.toNat * (charWidth font).toNat, q.column.toNat * (charHeight font).toNat,
        (charWidth font).toNat, (charHeight font).toNat, glyphPixel mem font d⟩ := by
    rw [glyphTile, hx, hy]
  have hrow : q.row.toNat < c.ctx.rows.toNat := hq.row
  have hcolumn : q.column.toNat < c.ctx.columns.toNat := hq.column
  rw [htile, hgrid]
  constructor
  · rintro ⟨hqx, hqy⟩
    refine ⟨⟨?_, ?_⟩, ?_⟩
    · rw [← Nat.div_lt_iff_lt_mul hwidth, ← hqx]
      exact hrow
    · rw [← Nat.div_lt_iff_lt_mul hheight, ← hqy]
      exact hcolumn
    · rw [cellAt, ← hqx, ← hqy, BitVec.ofNat_toNat, BitVec.ofNat_toNat, BitVec.setWidth_eq,
        BitVec.setWidth_eq]
  · rintro ⟨hin, rfl⟩
    exact (onScreen_cellAt hwidth hheight hin).2

/-- **What is drawn.**  A pixel in a cell with a character is one of its glyph, and every other
pixel is what it was. -/
theorem video_drawCells (hblt : BufferToVideo blt) (mem : Mem) (h : CellsFit font c gop)
    (px py : Nat) : (drawCells blt mem font c gop).video px py =
      if InCells font c px py ∧ drawnCharacter c (cellAt font px py) ≠ 0 then
        glyphPixel mem font (drawnCharacter c (cellAt font px py)) (px % (charWidth font).toNat)
          (py % (charHeight font).toNat)
      else gop.video px py := by
  have hcells : ∀ cell ∈ efiConsoleDraw c, OnScreen c cell.1 :=
    fun cell hcell ↦ (mem_efiConsoleDraw_iff.mp hcell).1
  -- the tiles that cover the pixel are those of the cell there
  have htile : ∀ t ∈ cellTiles mem font (efiConsoleDraw c), t.Covers px py →
      (InCells font c px py ∧ drawnCharacter c (cellAt font px py) ≠ 0) ∧
        t = glyphTile mem font ((cellAt font px py).row * charWidth font)
          ((cellAt font px py).column * charHeight font)
          (drawnCharacter c (cellAt font px py)) := by
    intro t ht hcover
    obtain ⟨⟨q, d⟩, hcell, rfl⟩ := List.mem_map.mp ht
    obtain ⟨hdrawn, hnul⟩ := List.mem_filter.mp hcell
    obtain ⟨hq, rfl⟩ := mem_efiConsoleDraw_iff.mp hdrawn
    obtain ⟨hin, rfl⟩ := (covers_glyphTile_iff hwidth hheight h hq _).mp hcover
    exact ⟨⟨hin, bne_iff_ne.mp hnul⟩, rfl⟩
  rw [drawCells, foldl_drawCell hblt h hcells]
  split
  · rename_i hchar
    obtain ⟨hin, hchar⟩ := hchar
    obtain ⟨hp, hrow, hcolumn⟩ := onScreen_cellAt hwidth hheight hin
    apply paintAll_eq_of_covers
    · intro t ht hcover
      obtain ⟨-, rfl⟩ := htile t ht hcover
      obtain ⟨-, hx, hy⟩ := h.fits hp
      rw [← pixelAt_grid (glyphPixel mem font (drawnCharacter c (cellAt font px py)))]
      simp only [Tile.pixelAt, glyphTile, hx, hy, hrow, hcolumn]
    · refine ⟨_, List.mem_map.mpr ⟨(cellAt font px py, drawnCharacter c (cellAt font px py)),
        List.mem_filter.mpr ⟨mem_efiConsoleDraw_iff.mpr ⟨hp, rfl⟩, bne_iff_ne.mpr hchar⟩, rfl⟩, ?_⟩
      exact (covers_glyphTile_iff hwidth hheight h hp _).mpr ⟨hin, rfl⟩
  · rename_i hnone
    apply paintAll_eq_of_not_covers
    intro t ht hcover
    exact hnone (htile t ht hcover).1

end pixel

end cells

/-! ## Messages -/

/-- The console, the screen, and `test`, which says that the logo has been drawn. -/
structure Display where
  console : Console
  gop : EfiGop
  test : Bool

section display

variable (blt : Blt) (mem : Mem) (font logo : PngImage)

/-- `efi_console_draw` -/
def Display.draw (d : Display) : Display :=
  let gop := drawCells blt mem font d.console d.gop
  { d with
    gop :=
      if d.test then gop
      else efiGfxBlit blt mem logo.imageData logo.imageWidth logo.imageWidth logo.imageHeight
        (1920 - logo.imageWidth) (1080 - logo.imageHeight) 0 0 gop
    test := true }

/-- `efi_console_write` on the core with the number given.  The first core draws. -/
def printMessage (d : Display) (message : BitVec 64 × CString) : Display :=
  let d := { d with console := efiConsoleWrite d.console message.2 }
  if message.1 = 0 then d.draw blt mem font logo else d

/-- Any number of messages. -/
def printAll (d : Display) (messages : List (BitVec 64 × CString)) : Display :=
  messages.foldl (printMessage blt mem font logo) d

theorem printAll_concat (d : Display) (messages : List (BitVec 64 × CString))
    (message : BitVec 64 × CString) :
    printAll blt mem font logo d (messages ++ [message]) =
      printMessage blt mem font logo (printAll blt mem font logo d messages) message := by
  rw [printAll, List.foldl_append]
  rfl

variable {blt} (hblt : BufferToVideo blt)

include hblt

theorem drawCells_resolution (c : Console) (gop : EfiGop) :
    (drawCells blt mem font c gop).horizontalResolution = gop.horizontalResolution ∧
      (drawCells blt mem font c gop).verticalResolution = gop.verticalResolution := by
  rw [drawCells]
  induction efiConsoleDraw c generalizing gop with
  | nil => exact ⟨rfl, rfl⟩
  | cons cell cells ih =>
      obtain ⟨hwidth, hheight⟩ := efiGfxChar_resolution mem font hblt (cell.1.row * charWidth font)
        (cell.1.column * charHeight font) cell.2 gop
      obtain ⟨hwidth', hheight'⟩ := ih (drawCell blt mem font gop cell)
      exact ⟨hwidth'.trans hwidth, hheight'.trans hheight⟩

/-- What a message leaves alone: the resolution of the screen. -/
theorem printMessage_resolution (d : Display) (message : BitVec 64 × CString) :
    (printMessage blt mem font logo d message).gop.horizontalResolution =
        d.gop.horizontalResolution ∧
      (printMessage blt mem font logo d message).gop.verticalResolution =
        d.gop.verticalResolution := by
  rw [printMessage]
  split
  · obtain ⟨hwidth, hheight⟩ := drawCells_resolution mem font hblt
      (efiConsoleWrite d.console message.2) d.gop
    rw [Display.draw]
    simp only []
    split
    · exact ⟨hwidth, hheight⟩
    · exact ⟨(hblt.horizontalResolution _ _ _).trans hwidth,
        (hblt.verticalResolution _ _ _).trans hheight⟩
  · exact ⟨rfl, rfl⟩

omit hblt in
/-- A message is written to the console whoever prints it, and the logo has been drawn once the
first core has printed one. -/
theorem printMessage_console (d : Display) (message : BitVec 64 × CString) :
    (printMessage blt mem font logo d message).console = efiConsoleWrite d.console message.2 ∧
      ((printMessage blt mem font logo d message).test = true ↔ d.test = true ∨ message.1 = 0) := by
  rw [printMessage]
  split
  · rename_i hcore
    exact ⟨rfl, iff_of_true rfl (.inr hcore)⟩
  · rename_i hcore
    exact ⟨rfl, (or_iff_left hcore).symm⟩

/-- The display after any number of messages. -/
theorem printAll_spec (d : Display) (messages : List (BitVec 64 × CString)) :
    (printAll blt mem font logo d messages).console = writeAll d.console (messages.map Prod.snd) ∧
      (printAll blt mem font logo d messages).gop.horizontalResolution =
        d.gop.horizontalResolution ∧
      (printAll blt mem font logo d messages).gop.verticalResolution = d.gop.verticalResolution ∧
      ((printAll blt mem font logo d messages).test = true ↔
        d.test = true ∨ ∃ m ∈ messages, m.1 = 0) := by
  induction messages generalizing d with
  | nil => exact ⟨rfl, rfl, rfl, by simp [printAll]⟩
  | cons m messages ih =>
      obtain ⟨hconsole, hwidth, hheight, htest⟩ := ih (printMessage blt mem font logo d m)
      obtain ⟨hconsole', htest'⟩ := printMessage_console mem font logo d m
      obtain ⟨hwidth', hheight'⟩ := printMessage_resolution mem font logo hblt d m
      refine ⟨?_, hwidth.trans hwidth', hheight.trans hheight', ?_⟩
      · rw [hconsole'] at hconsole
        exact hconsole
      · rw [htest'] at htest
        refine htest.trans ?_
        rw [List.exists_mem_cons_iff, or_assoc]

end display

section shown

variable (blt : Blt) (mem : Mem) (font logo : PngImage) (memory : BitVec 64 → BitVec 8) (al : BitVec 8)
  (gop : EfiGop) (messages : List (BitVec 64 × CString)) (message : CString)

/-- The text of a run of messages that the first core ends. -/
def printedText : List (BitVec 8) := text (messages.map Prod.snd ++ [message])

/-- The display after such a run, from `efi_console_init` on. -/
def displayed : Display :=
  printAll blt mem font logo ⟨efiConsoleInit memory al, gop, false⟩ (messages ++ [(0, message)])

/-- **What is printed is on the screen.**  After a run of messages, of which the first core has
drawn one before the last, each character of the last page is on the screen as its glyph, in the
cell that the text before it says. -/
theorem video_printAll (hblt : BufferToVideo blt) (hwidth : 0 < (charWidth font).toNat)
    (hheight : 0 < (charHeight font).toNat)
    (hcolumns : 120 * (charWidth font).toNat ≤ gop.horizontalResolution.toNat)
    (hlines : 70 * (charHeight font).toNat ≤ gop.verticalResolution.toNat)
    (hdrawn : ∃ m ∈ messages, m.1 = 0) (hkeeps : KeepsToLines (printedText messages message))
    {before after : List (BitVec 8)} {c : BitVec 8}
    (htext : printedText messages message = before ++ c :: after) (hnewline : c ≠ newline)
    (htab : c ≠ tab) (hpage : newlines before / 70 = page (printedText messages message))
    {i j : Nat} (hi : i < (charWidth font).toNat) (hj : j < (charHeight font).toNat) :
    (displayed blt mem font logo memory al gop messages message).gop.video
        (lineWidth before * (charWidth font).toNat + i)
        (newlines before % 70 * (charHeight font).toNat + j) =
      glyphPixel mem font c i j := by
  have hnul : c ≠ 0 := by
    have hmem : c ∈ printedText messages message := by
      rw [htext]
      simp
    obtain ⟨m, -, hc⟩ := List.mem_flatMap.mp hmem
    exact m.ne_nul c hc
  have hline := hkeeps before c after htext hnewline htab
  have hcell : newlines before % 70 < 70 := Nat.mod_lt _ (by decide)
  obtain ⟨hconsole, hres, hres', htest⟩ := printAll_spec mem font logo hblt
    ⟨efiConsoleInit memory al, gop, false⟩ messages
  -- the display when the last message has been written and is drawn
  generalize hd : printAll blt mem font logo ⟨efiConsoleInit memory al, gop, false⟩ messages = d at *
  have htest : d.test = true := htest.mpr (.inr hdrawn)
  have hfollows := (Follows.run memory al hkeeps).1
  have hwritten : efiConsoleWrite d.console message =
      writeAll (efiConsoleInit memory al) (messages.map Prod.snd ++ [message]) := by
    rw [hconsole, writeAll, writeAll, List.foldl_append]
    rfl
  have hdisplayed : (displayed blt mem font logo memory al gop messages message).gop =
      drawCells blt mem font (efiConsoleWrite d.console message) d.gop := by
    rw [displayed, printAll_concat, hd]
    simp only [printMessage, Display.draw, htest, if_true]
  rw [hdisplayed, hwritten]
  rw [printedText, ← writeAll_eq] at hfollows
  generalize hc : writeAll (efiConsoleInit memory al) (messages.map Prod.snd ++ [message]) = con
    at *
  have hrows : con.ctx.rows.toNat = 120 := by rw [hfollows.rows]; rfl
  have hcols : con.ctx.columns.toNat = 70 := by rw [hfollows.columns]; rfl
  have hfit : CellsFit font con d.gop := by
    refine ⟨?_, ?_⟩
    · rw [hrows, hres]
      exact hcolumns
    · rw [hcols, hres']
      exact hlines
  -- the cell of the character
  have hx : (lineWidth before * (charWidth font).toNat + i) / (charWidth font).toNat =
      lineWidth before := by
    rw [Nat.mul_comm, Nat.mul_add_div hwidth, Nat.div_eq_of_lt hi, Nat.add_zero]
  have hy : (newlines before % 70 * (charHeight font).toNat + j) / (charHeight font).toNat =
      newlines before % 70 := by
    rw [Nat.mul_comm, Nat.mul_add_div hheight, Nat.div_eq_of_lt hj, Nat.add_zero]
  have hshown : drawnCharacter con
      (cellAt font (lineWidth before * (charWidth font).toNat + i)
        (newlines before % 70 * (charHeight font).toNat + j)) = c := by
    rw [cellAt, hx, hy, ← hc]
    exact drawnCharacter_writeAll memory al _ hkeeps htext hnewline htab hpage
  have hin : InCells font con (lineWidth before * (charWidth font).toNat + i)
      (newlines before % 70 * (charHeight font).toNat + j) := by
    have hleft := Nat.mul_le_mul_right (charWidth font).toNat (Nat.succ_le_of_lt hline)
    have htop := Nat.mul_le_mul_right (charHeight font).toNat (Nat.succ_le_of_lt hcell)
    rw [Nat.succ_mul] at hleft htop
    rw [InCells, hrows, hcols]
    omega
  rw [video_drawCells hwidth hheight hblt mem hfit, hshown, if_pos ⟨hin, hnul⟩, Nat.mul_comm,
    Nat.mul_add_mod, Nat.mod_eq_of_lt hi, Nat.mul_comm (newlines before % 70), Nat.mul_add_mod,
    Nat.mod_eq_of_lt hj]

end shown

/-! ## Two messages -/

/-- A screen of 1024 pixels by 1000. -/
def smallGop : EfiGop := ⟨1024, 1000, fun _ _ ↦ 0⟩

/-- The digit of the second message is in the first cell of the second line. -/
theorem video_printAll_twoLines :
    (displayed refusingBlt (fun _ ↦ 0) smallFont smallFont (fun _ ↦ 0) 0 smallGop
        [(0, .ofChars "entries: ".toList rfl)] (.ofChars "\n7".toList rfl)).gop.video
          (lineWidth (text twoLines).dropLast * (charWidth smallFont).toNat + 5)
          (newlines (text twoLines).dropLast % 70 * (charHeight smallFont).toNat + 13) =
      glyphPixel (fun _ ↦ 0) smallFont 0x37 5 13 :=
  video_printAll refusingBlt (fun _ ↦ 0) smallFont smallFont (fun _ ↦ 0) 0 smallGop
    [(0, .ofChars "entries: ".toList rfl)] (.ofChars "\n7".toList rfl) bufferToVideo_refusingBlt
    (by decide) (by decide) (by decide) (by decide) ⟨_, List.mem_singleton_self _, rfl⟩
    (keepsToLines_of_length (by decide))
    (show text twoLines = (text twoLines).dropLast ++ 0x37 :: [] by decide) (by decide)
    (by decide) (by decide) (by decide) (by decide)

end Hypervi.Loader
