import Hypervi.Control
import Hypervi.Memory.Byte
import Hypervi.Raster
import Mathlib.Tactic.Ring

/-!
# Characters on the screen

The font is one image of 256 glyphs, thirty-two in a row.  `efi_gfx_char` finds the glyph of
a character by a remainder and a quotient, and lets the firmware copy it to the screen.

A `char` is signed: for the upper half of the glyphs the remainder and the quotient are
negative, and the firmware is pointed to memory in front of the image
(`glyphInImage_iff`).
-/

namespace Hypervi.Loader

open Memory Raster

/-! ## The firmware -/

/-- An image as `png2h` writes it: its size in pixels, and where they are. -/
structure PngImage where
  imageWidth : BitVec 64
  imageHeight : BitVec 64
  imageData : BitVec 64

/-- `efi_gop`: the resolution of the mode, and what is on the screen. -/
structure EfiGop where
  horizontalResolution : BitVec 32
  verticalResolution : BitVec 32
  video : Picture (BitVec 32)

/-- The rectangle is on the screen. -/
def EfiGop.Fits (gop : EfiGop) (destX destY width height : BitVec 64) : Prop :=
  destX.toNat + width.toNat ≤ gop.horizontalResolution.toNat ∧
    destY.toNat + height.toNat ≤ gop.verticalResolution.toNat

instance (gop : EfiGop) (destX destY width height : BitVec 64) :
    Decidable (gop.Fits destX destY width height) := inferInstanceAs (Decidable (_ ∧ _))

/-- The address of a pixel of a buffer, whose rows take `delta` bytes. -/
def pixelAddress (buffer delta x y : BitVec 64) : BitVec 64 := buffer + (y * delta + x * 4)

/-- The arguments of `blt` with `buffer_to_video`. -/
structure BltArgs where
  buffer : BitVec 64
  sourceX : BitVec 64
  sourceY : BitVec 64
  destX : BitVec 64
  destY : BitVec 64
  width : BitVec 64
  height : BitVec 64
  delta : BitVec 64

/-- The rectangle of the buffer, at its place on the screen. -/
def BltArgs.tile (b : BltArgs) (mem : Mem) : Tile (BitVec 32) where
  left := b.destX.toNat
  top := b.destY.toNat
  width := b.width.toNat
  height := b.height.toNat
  pixel i j := load32 mem
    (pixelAddress b.buffer b.delta (b.sourceX + BitVec.ofNat 64 i) (b.sourceY + BitVec.ofNat 64 j))

/-- `blt` of the firmware. -/
abbrev Blt := Mem → BltArgs → EfiGop → EfiGop

/-- What the firmware promises: a rectangle that is on the screen is painted and the other pixels
stay, and the mode stays in any case. -/
structure BufferToVideo (blt : Blt) : Prop where
  paints : ∀ mem b gop, gop.Fits b.destX b.destY b.width b.height →
    blt mem b gop = { gop with video := (b.tile mem).paint gop.video }
  horizontalResolution : ∀ mem b gop,
    (blt mem b gop).horizontalResolution = gop.horizontalResolution
  verticalResolution : ∀ mem b gop, (blt mem b gop).verticalResolution = gop.verticalResolution

/-- A firmware that refuses the rectangles that are not on the screen. -/
def refusingBlt : Blt := fun mem b gop ↦
  if gop.Fits b.destX b.destY b.width b.height then
    { gop with video := (b.tile mem).paint gop.video }
  else gop

theorem bufferToVideo_refusingBlt : BufferToVideo refusingBlt where
  paints _ _ _ hfits := if_pos hfits
  horizontalResolution mem b gop := by
    rw [refusingBlt]
    split <;> rfl
  verticalResolution mem b gop := by
    rw [refusingBlt]
    split <;> rfl

/-! ## The code -/

/-- `efi_gfx_blit` -/
def efiGfxBlit (blt : Blt) (mem : Mem)
    (imageData imageWidth width height destX destY sourceX sourceY : BitVec 64) : EfiGop → EfiGop :=
  blt mem ⟨imageData, sourceX, sourceY, destX, destY, width, height, imageWidth * 4⟩

section char

variable (blt : Blt) (mem : Mem) (font : PngImage)

/-- `bitmapfont_image_width / 32` -/
def charWidth : BitVec 64 := font.imageWidth / 32

/-- `bitmapfont_image_height / 8` -/
def charHeight : BitVec 64 := font.imageHeight / 8

/-- `character % 32`, for a `char` that is promoted to `int`. -/
def charX (character : BitVec 8) : BitVec 64 :=
  ((character.signExtend 32).srem 32).signExtend 64

/-- `character / 32` -/
def charY (character : BitVec 8) : BitVec 64 :=
  ((character.signExtend 32).sdiv 32).signExtend 64

/-- `efi_gfx_char` -/
def efiGfxChar (x y : BitVec 64) (character : BitVec 8) (gop : EfiGop) : EfiGop :=
  if character = 0 then gop
  else efiGfxBlit blt mem font.imageData font.imageWidth (charWidth font) (charHeight font) x y
    (charX character * charWidth font) (charY character * charHeight font) gop

/-- The address of a pixel of a glyph. -/
def glyphAddress (character : BitVec 8) (i j : Nat) : BitVec 64 :=
  pixelAddress font.imageData (font.imageWidth * 4)
    (charX character * charWidth font + BitVec.ofNat 64 i)
    (charY character * charHeight font + BitVec.ofNat 64 j)

/-- A pixel of a glyph. -/
def glyphPixel (character : BitVec 8) (i j : Nat) : BitVec 32 :=
  load32 mem (glyphAddress font character i j)

/-- The place on the screen at which a character is drawn. -/
def glyphTile (x y : BitVec 64) (character : BitVec 8) : Tile (BitVec 32) where
  left := x.toNat
  top := y.toNat
  width := (charWidth font).toNat
  height := (charHeight font).toNat
  pixel := glyphPixel mem font character

/-- A character on the screen is a tile. -/
theorem efiGfxChar_of_fits {blt : Blt} (hblt : BufferToVideo blt) {x y : BitVec 64}
    {character : BitVec 8} {gop : EfiGop} (hchar : character ≠ 0)
    (hfits : gop.Fits x y (charWidth font) (charHeight font)) :
    efiGfxChar blt mem font x y character gop =
      { gop with video := (glyphTile mem font x y character).paint gop.video } := by
  rw [efiGfxChar, if_neg hchar, efiGfxBlit]
  exact hblt.paints mem _ gop hfits

/-- A character changes the picture only. -/
theorem efiGfxChar_resolution {blt : Blt} (hblt : BufferToVideo blt) (x y : BitVec 64)
    (character : BitVec 8) (gop : EfiGop) :
    (efiGfxChar blt mem font x y character gop).horizontalResolution =
        gop.horizontalResolution ∧
      (efiGfxChar blt mem font x y character gop).verticalResolution =
        gop.verticalResolution := by
  rw [efiGfxChar]
  split
  · exact ⟨rfl, rfl⟩
  · exact ⟨hblt.horizontalResolution _ _ _, hblt.verticalResolution _ _ _⟩

end char

/-! ## The glyphs in the image -/

/-- Every byte of the pixels of the glyph is one of the image. -/
def GlyphInImage (font : PngImage) (character : BitVec 8) : Prop :=
  ∀ i < (charWidth font).toNat, ∀ j < (charHeight font).toNat,
    (glyphAddress font character i j - font.imageData).toNat + 4 ≤
      4 * (font.imageWidth.toNat * font.imageHeight.toNat)

section glyph

variable {font : PngImage} {character : BitVec 8}

/-- The column and the row of a glyph of the lower half. -/
theorem glyph_of_lt : ∀ character : BitVec 8, character < 0x80 →
    charX character = BitVec.ofNat 64 (character.toNat % 32) ∧
      charY character = BitVec.ofNat 64 (character.toNat / 32) := by
  decide +kernel

/-- The upper half is counted downwards from zero. -/
theorem glyph_of_le : ∀ character : BitVec 8, 0x80 ≤ character →
    charX character = -BitVec.ofNat 64 ((256 - character.toNat) % 32) ∧
      charY character = -BitVec.ofNat 64 ((256 - character.toNat) / 32) := by
  decide +kernel

theorem charWidth_eq : charWidth font = BitVec.ofNat 64 (font.imageWidth.toNat / 32) := by
  apply BitVec.eq_of_toNat_eq
  rw [charWidth, BitVec.toNat_udiv, BitVec.toNat_ofNat, Nat.mod_eq_of_lt]
  · rfl
  · exact Nat.lt_of_le_of_lt (Nat.div_le_self _ _) font.imageWidth.isLt

theorem charHeight_eq : charHeight font = BitVec.ofNat 64 (font.imageHeight.toNat / 8) := by
  apply BitVec.eq_of_toNat_eq
  rw [charHeight, BitVec.toNat_udiv, BitVec.toNat_ofNat, Nat.mod_eq_of_lt]
  · rfl
  · exact Nat.lt_of_le_of_lt (Nat.div_le_self _ _) font.imageHeight.isLt

/-- A pixel of the image, and its last byte. -/
theorem pixel_le {w h x y : Nat} (hx : x < w) (hy : y < h) :
    y * (w * 4) + x * 4 + 4 ≤ 4 * (w * h) := by
  have hrows : (y + 1) * w ≤ h * w := Nat.mul_le_mul_right w hy
  rw [Nat.succ_mul, Nat.mul_comm h w] at hrows
  have hassoc : y * (w * 4) = 4 * (y * w) := by
    rw [← Nat.mul_assoc, Nat.mul_comm]
  omega

theorem glyphInImage_of_lt (hsize : 4 * (font.imageWidth.toNat * font.imageHeight.toNat) < 2 ^ 64)
    (h : character < 0x80) : GlyphInImage font character := by
  intro i hi j hj
  obtain ⟨hx, hy⟩ := glyph_of_lt character h
  have hlt : character.toNat < 128 := h
  have hw := Nat.div_mul_le_self font.imageWidth.toNat 32
  have hh := Nat.div_mul_le_self font.imageHeight.toNat 8
  rw [charWidth_eq, BitVec.toNat_ofNat, Nat.mod_eq_of_lt (by omega)] at hi
  rw [charHeight_eq, BitVec.toNat_ofNat, Nat.mod_eq_of_lt (by omega)] at hj
  have hcolumn : character.toNat % 32 * (font.imageWidth.toNat / 32) ≤
      31 * (font.imageWidth.toNat / 32) := Nat.mul_le_mul_right _ (by omega)
  have hrow : character.toNat / 32 * (font.imageHeight.toNat / 8) ≤
      3 * (font.imageHeight.toNat / 8) := Nat.mul_le_mul_right _ (by omega)
  have hpixel := pixel_le (w := font.imageWidth.toNat) (h := font.imageHeight.toNat)
    (x := character.toNat % 32 * (font.imageWidth.toNat / 32) + i)
    (y := character.toNat / 32 * (font.imageHeight.toNat / 8) + j) (by omega) (by omega)
  have hwidth : font.imageWidth * 4 = BitVec.ofNat 64 (font.imageWidth.toNat * 4) := by
    rw [BitVec.ofNat_mul, BitVec.ofNat_toNat, BitVec.setWidth_eq]
    rfl
  have hfour : (4 : BitVec 64) = BitVec.ofNat 64 4 := rfl
  rw [glyphAddress, pixelAddress, hx, hy, charWidth_eq, charHeight_eq, hwidth, hfour]
  simp only [← BitVec.ofNat_mul, ← BitVec.ofNat_add]
  rw [BitVec.add_comm, BitVec.add_sub_cancel, BitVec.toNat_ofNat, Nat.mod_eq_of_lt (by omega)]
  exact hpixel

theorem not_glyphInImage_of_le (hwidth : 0 < (charWidth font).toNat)
    (hheight : 0 < (charHeight font).toNat)
    (hsize : 4 * (font.imageWidth.toNat * font.imageHeight.toNat) < 2 ^ 61)
    (h : 0x80 ≤ character) : ¬ GlyphInImage font character := by
  intro hinside
  obtain ⟨hx, hy⟩ := glyph_of_le character h
  have hle : 128 ≤ character.toNat := h
  have hlt := character.isLt
  -- the first pixel is in front of the image
  have hfirst := hinside 0 hwidth 0 hheight
  rw [charWidth_eq, BitVec.toNat_ofNat, Nat.mod_eq_of_lt (by omega)] at hwidth
  rw [charHeight_eq, BitVec.toNat_ofNat, Nat.mod_eq_of_lt (by omega)] at hheight
  generalize hr : (256 - character.toNat) % 32 = r at hx
  generalize hq : (256 - character.toNat) / 32 = q at hy
  have hpixels : font.imageWidth.toNat ≤ font.imageWidth.toNat * font.imageHeight.toNat :=
    Nat.le_mul_of_pos_right _ (by omega)
  have hrows : q * (font.imageHeight.toNat / 8) * (font.imageWidth.toNat * 4) ≤
      2 * (font.imageWidth.toNat * font.imageHeight.toNat) := by
    have hq4 : q * (font.imageHeight.toNat / 8) ≤ 4 * (font.imageHeight.toNat / 8) :=
      Nat.mul_le_mul_right _ (by omega)
    calc q * (font.imageHeight.toNat / 8) * (font.imageWidth.toNat * 4)
      _ ≤ 4 * (font.imageHeight.toNat / 8) * (font.imageWidth.toNat * 4) :=
          Nat.mul_le_mul_right _ hq4
      _ = 2 * (font.imageWidth.toNat * (8 * (font.imageHeight.toNat / 8))) := by ring
      _ ≤ 2 * (font.imageWidth.toNat * font.imageHeight.toNat) :=
          Nat.mul_le_mul_left _ (Nat.mul_le_mul_left _ (Nat.mul_div_le _ _))
  have hcolumns : r * (font.imageWidth.toNat / 32) * 4 ≤ 4 * font.imageWidth.toNat := by
    have hr31 : r * (font.imageWidth.toNat / 32) ≤ 31 * (font.imageWidth.toNat / 32) :=
      Nat.mul_le_mul_right _ (by omega)
    omega
  have hpos : 0 < q * (font.imageHeight.toNat / 8) * (font.imageWidth.toNat * 4) +
      r * (font.imageWidth.toNat / 32) * 4 := by
    rcases Nat.eq_zero_or_pos q with hzero | hq0
    · have hr0 : 0 < r * (font.imageWidth.toNat / 32) := Nat.mul_pos (by omega) hwidth
      omega
    · have hq0 : 0 < q * (font.imageHeight.toNat / 8) * (font.imageWidth.toNat * 4) :=
        Nat.mul_pos (Nat.mul_pos hq0 hheight) (by omega)
      omega
  have hw4 : font.imageWidth * 4 = BitVec.ofNat 64 (font.imageWidth.toNat * 4) := by
    rw [BitVec.ofNat_mul, BitVec.ofNat_toNat, BitVec.setWidth_eq]
    rfl
  have hfour : (4 : BitVec 64) = BitVec.ofNat 64 4 := rfl
  rw [glyphAddress, pixelAddress, hx, hy, charWidth_eq, charHeight_eq, hw4, hfour] at hfirst
  simp only [BitVec.add_zero, BitVec.neg_mul, ← BitVec.ofNat_mul] at hfirst
  generalize q * (font.imageHeight.toNat / 8) * (font.imageWidth.toNat * 4) = rows at *
  generalize r * (font.imageWidth.toNat / 32) * 4 = columns at *
  bv_omega

end glyph

/-- **Only ASCII is drawn from the font.**  The pixels of a glyph are pixels of the image exactly
for the characters of the lower half. -/
theorem glyphInImage_iff (font : PngImage) (character : BitVec 8)
    (hwidth : 0 < (charWidth font).toNat) (hheight : 0 < (charHeight font).toNat)
    (hsize : 4 * (font.imageWidth.toNat * font.imageHeight.toNat) < 2 ^ 61) :
    GlyphInImage font character ↔ character < 0x80 := by
  constructor
  · intro hinside
    rw [← BitVec.not_le]
    intro hle
    exact not_glyphInImage_of_le hwidth hheight hsize hle hinside
  · exact glyphInImage_of_lt (Nat.lt_trans hsize (by decide))

/-- An image of glyphs of six pixels by fourteen. -/
def smallFont : PngImage := ⟨192, 112, 0x10000⟩

theorem glyphInImage_smallFont :
    (GlyphInImage smallFont 0x7E ↔ (0x7E : BitVec 8) < 0x80) ∧
      (GlyphInImage smallFont 0xE9 ↔ (0xE9 : BitVec 8) < 0x80) :=
  ⟨glyphInImage_iff smallFont 0x7E (by decide) (by decide) (by decide),
    glyphInImage_iff smallFont 0xE9 (by decide) (by decide) (by decide)⟩

/-! ## The mode of the screen -/

/-- `current_mode` and `current_width` -/
structure GfxMode where
  mode : BitVec 32
  width : BitVec 32
deriving DecidableEq, Repr

section mode

variable (queryMode : Nat → Option (BitVec 32))

/-- One iteration of the loop over the modes.  `queryMode` returns the width of a mode, unless
it fails. -/
def tryMode (i : Nat) (current : GfxMode) : GfxMode :=
  match queryMode i with
  | none => current
  | some width => if current.width ≤ width then ⟨BitVec.ofNat 32 i, width⟩ else current

/-- The loop of `efi_gfx_init`. -/
def selectMode (maxMode : BitVec 32) (current : GfxMode) : GfxMode :=
  forRange maxMode.toNat (tryMode queryMode) current

/-- Of the modes below `n`, and of the current one, the mode is the widest, and the last one of
this width. -/
structure Widest (n : Nat) (current chosen : GfxMode) : Prop where
  current_le : current.width ≤ chosen.width
  le : ∀ i < n, ∀ width, queryMode i = some width → width ≤ chosen.width
  last : (chosen = current ∧ ∀ i < n, ∀ width, queryMode i = some width → width < current.width) ∨
    ∃ i < n, chosen.mode = BitVec.ofNat 32 i ∧ queryMode i = some chosen.width ∧
      ∀ j < n, i < j → ∀ width, queryMode j = some width → width < chosen.width

variable {queryMode}

theorem Widest.tryMode {n : Nat} {current chosen : GfxMode}
    (h : Widest queryMode n current chosen) :
    Widest queryMode (n + 1) current (tryMode queryMode n chosen) := by
  rw [Loader.tryMode]
  cases hquery : queryMode n with
  | none =>
      have hskip : ∀ i < n + 1, ∀ width, queryMode i = some width → i < n := by
        intro i hi width hwidth
        refine Nat.lt_of_le_of_ne (Nat.le_of_lt_succ hi) ?_
        rintro rfl
        rw [hquery] at hwidth
        exact absurd hwidth (by simp)
      refine ⟨h.current_le, fun i hi width hw ↦ h.le i (hskip i hi width hw) width hw, ?_⟩
      rcases h.last with ⟨hsame, hlt⟩ | ⟨i, hi, hmode, hi', hlt⟩
      · exact .inl ⟨hsame, fun i hi width hw ↦ hlt i (hskip i hi width hw) width hw⟩
      · exact .inr ⟨i, Nat.lt_succ_of_lt hi, hmode, hi',
          fun j hj hij width hw ↦ hlt j (hskip j hj width hw) hij width hw⟩
  | some width =>
      simp only []
      by_cases hle : chosen.width ≤ width
      · rw [if_pos hle]
        refine ⟨BitVec.le_trans h.current_le hle, fun i hi width' hw ↦ ?_, ?_⟩
        · rcases Nat.lt_succ_iff_lt_or_eq.mp hi with hi | rfl
          · exact BitVec.le_trans (h.le i hi width' hw) hle
          · obtain rfl : width = width' := Option.some.inj (hquery.symm.trans hw)
            exact BitVec.le_refl width
        · exact .inr ⟨n, Nat.lt_succ_self n, rfl, hquery, fun j hj hnj ↦ absurd hj (by omega)⟩
      · rw [if_neg hle]
        rw [BitVec.not_le] at hle
        have hsplit {i : Nat} (hi : i < n + 1) {width' : BitVec 32}
            (hw : queryMode i = some width') : i < n ∨ width' = width := by
          rcases Nat.lt_succ_iff_lt_or_eq.mp hi with hi | rfl
          · exact .inl hi
          · exact .inr (Option.some.inj (hw.symm.trans hquery))
        refine ⟨h.current_le, fun i hi width' hw ↦ ?_, ?_⟩
        · rcases hsplit hi hw with hi | rfl
          · exact h.le i hi width' hw
          · exact BitVec.le_of_lt hle
        · rcases h.last with ⟨rfl, hlt⟩ | ⟨i, hi, hmode, hi', hlt⟩
          · refine .inl ⟨rfl, fun i hi width' hw ↦ ?_⟩
            rcases hsplit hi hw with hi | rfl
            · exact hlt i hi width' hw
            · exact hle
          · refine .inr ⟨i, Nat.lt_succ_of_lt hi, hmode, hi', fun j hj hij width' hw ↦ ?_⟩
            rcases hsplit hj hw with hj | rfl
            · exact hlt j hj hij width' hw
            · exact hle

/-- **The mode that is chosen.**  It is the widest one that can be queried, the last of them,
and the current one is kept only where every other is narrower. -/
theorem widest_selectMode (queryMode : Nat → Option (BitVec 32)) (maxMode : BitVec 32)
    (current : GfxMode) :
    Widest queryMode maxMode.toNat current (selectMode queryMode maxMode current) := by
  rw [selectMode]
  refine forRange_induction (P := fun n chosen ↦ Widest queryMode n current chosen) ?_ ?_
  · refine ⟨BitVec.le_refl _, fun i hi ↦ absurd hi (Nat.not_lt_zero i), .inl ⟨rfl, ?_⟩⟩
    exact fun i hi ↦ absurd hi (Nat.not_lt_zero i)
  · intro n _ chosen h
    exact h.tryMode

end mode

end Hypervi.Loader
