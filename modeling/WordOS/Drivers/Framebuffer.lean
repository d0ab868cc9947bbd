import WordOS.Machine
import Mathlib.Tactic

/-! The pixels of the framebuffer: what `fb_put_glyph` writes, and when it keeps to the mapped bytes. -/

namespace WordOS.Drivers

open Machine

/-- `charsize` of the font, and the pixels of a row of a glyph. -/
def CHARSIZE : ℕ := 16
def GLYPH_WIDTH : ℕ := 8

/-- The framebuffer as the boot loader describes it, and where it is mapped. -/
structure Framebuffer where
  fbVirtAddr : UInt32
  framebufferPitch : UInt32
  framebufferWidth : UInt32
  framebufferHeight : UInt32
  framebufferBpp : UInt8

namespace Framebuffer

variable (fb : Framebuffer)

def bypp : ℕ := fb.framebufferBpp.toNat / 8

def bytes : ℕ := fb.framebufferPitch.toNat * fb.framebufferHeight.toNat

end Framebuffer

def getPixelAddr (fb : Framebuffer) (x y : ℕ) : ℕ :=
  let x := if x > fb.framebufferWidth.toNat then fb.framebufferWidth.toNat else x
  let y := if y > fb.framebufferHeight.toNat then fb.framebufferHeight.toNat else y
  let row := u32 (y * fb.framebufferPitch.toNat)
  let column := u32 (x * fb.bypp)
  u32 (fb.fbVirtAddr.toNat + row + column)

/-- Colours as a glyph is given them: red, green and blue from the top. -/
structure Color where
  r : UInt8
  g : UInt8
  b : UInt8

def splitColor (color : UInt32) : Color := ⟨(color >>> 24).toUInt8, (color >>> 16).toUInt8, (color >>> 8).toUInt8⟩

/-- The writes of `fill_square`, in order. -/
def fillSquare (fb : Framebuffer) (addr width height : ℕ) (color : Color) : List (ℕ × UInt8) :=
  (List.range height).flatMap fun yh => (List.range width).flatMap fun xw =>
    let pixLoc := addr + yh * fb.framebufferPitch.toNat + fb.bypp * xw
    [(u32 pixLoc, color.b), (u32 (pixLoc + 1), color.g), (u32 (pixLoc + 2), color.r)]

/-- The row `i` of a glyph; `font` is what lies from the first glyph on, and the index is signed. -/
def glyphRow (font : ℤ → UInt8) (glyph : UInt8) (i : ℕ) : UInt8 := font (glyph.toInt8.toInt * CHARSIZE + i)

/-- The writes of `fb_put_glyph`; the coordinates are of 16 bits. -/
def fbPutGlyph (fb : Framebuffer) (font : ℤ → UInt8) (glyph : UInt8) (x y : ℕ) (fg bg : UInt32) (size : ℕ) : List (ℕ × UInt8) :=
  (List.range CHARSIZE).flatMap fun i =>
    let pixelAddr := getPixelAddr fb x ((y + i * size) % 2 ^ 16)
    (List.range GLYPH_WIDTH).flatMap fun k =>
      let j := 7 - k
      let color := if glyphRow font glyph i &&& ((1 : UInt8) <<< j.toUInt8) ≠ 0 then fg else bg
      fillSquare fb (u32 (pixelAddr + k * (size * fb.bypp))) size size (splitColor color)

/-- The geometry that is accepted, and a mapping inside the range of dynamic memory. -/
structure Accepted (fb : Framebuffer) : Prop where
  pitch : fb.framebufferWidth.toNat * fb.bypp ≤ fb.framebufferPitch.toNat
  low : 0xCC000000 ≤ fb.fbVirtAddr.toNat
  high : fb.fbVirtAddr.toNat + fb.bytes ≤ 0xFFE00000

def Mapped (fb : Framebuffer) (w : ℕ × UInt8) : Prop := fb.fbVirtAddr.toNat ≤ w.1 ∧ w.1 < fb.fbVirtAddr.toNat + fb.bytes

variable {fb : Framebuffer} {font : ℤ → UInt8} {glyph : UInt8} {fg bg : UInt32} {x y : ℕ}

lemma u32_add_left (a b : ℕ) : u32 (u32 a + b) = u32 (a + b) := Nat.mod_add_mod ..

lemma forall_fillSquare {P : ℕ → Prop} {addr : ℕ} {color : Color} :
    (∀ w ∈ fillSquare fb (u32 addr) 1 1 color, P w.1) ↔ ∀ c < 3, P (u32 (addr + c)) := by
  simp only [fillSquare, List.range_one, List.flatMap_cons, List.flatMap_nil, List.append_nil, Nat.zero_mul, Nat.mul_zero,
    Nat.add_zero, List.forall_mem_cons, List.not_mem_nil, false_imp_iff, implies_true, and_true, u32_add_left]
  constructor
  · rintro ⟨h0, h1, h2⟩ c hc
    interval_cases c
    · exact h0
    · exact h1
    · exact h2
  · intro h
    exact ⟨h 0 (by decide), h 1 (by decide), h 2 (by decide)⟩

lemma forall_fbPutGlyph {P : ℕ → Prop} : (∀ w ∈ fbPutGlyph fb font glyph x y fg bg 1, P w.1) ↔
    ∀ i < CHARSIZE, ∀ k < GLYPH_WIDTH, ∀ c < 3, P (u32 (getPixelAddr fb x ((y + i) % 2 ^ 16) + k * fb.bypp + c)) := by
  simp only [fbPutGlyph, List.forall_mem_flatMap, List.mem_range, forall_fillSquare, Nat.one_mul, Nat.mul_one]

/-- The row of pixels at `y` and the fifteen below it are on the screen. -/
def RowFits (fb : Framebuffer) (y : ℕ) : Prop :=
  y + CHARSIZE ≤ fb.framebufferHeight.toNat ∧
    (0 < fb.bypp ∨ 2 < fb.framebufferPitch.toNat * (fb.framebufferHeight.toNat - (y + 15)))

lemma bypp_lt (fb : Framebuffer) : fb.bypp < 32 := by
  have hlt := fb.framebufferBpp.toNat_lt
  rw [Framebuffer.bypp]
  omega

/-- The place of a byte behind the first one, for a pixel in a column of the screen. -/
def offset (fb : Framebuffer) (x y k c : ℕ) : ℕ :=
  min y fb.framebufferHeight.toNat * fb.framebufferPitch.toNat + (x + k) * fb.bypp + c

lemma getPixelAddr_eq (hx : x ≤ fb.framebufferWidth.toNat) (y k c : ℕ) :
    u32 (getPixelAddr fb x y + k * fb.bypp + c) = u32 (fb.fbVirtAddr.toNat + offset fb x y k c) := by
  have hy : (if y > fb.framebufferHeight.toNat then fb.framebufferHeight.toNat else y) = min y fb.framebufferHeight.toNat := by
    split_ifs
    · omega
    · omega
  rw [getPixelAddr, hy, if_neg (by omega), offset, Nat.add_mul]
  simp only [u32]
  omega

/-- An address that is counted modulo 2 ^ 32 does not come round to the mapped bytes. -/
lemma mapped_iff_lt (ha : Accepted fb) {o : ℕ} (ho : o < fb.bytes + 2 ^ 22) :
    fb.fbVirtAddr.toNat ≤ u32 (fb.fbVirtAddr.toNat + o) ∧ u32 (fb.fbVirtAddr.toNat + o) < fb.fbVirtAddr.toNat + fb.bytes ↔
      o < fb.bytes := by
  have hlow := ha.low
  have hhigh := ha.high
  simp only [u32]
  omega

lemma glyph_mapped_iff (ha : Accepted fb) (hx : x + CHARSIZE ≤ fb.framebufferWidth.toNat) (hsmall : x < 2 ^ 16)
    (hy : y + CHARSIZE ≤ 2 ^ 16) : (∀ w ∈ fbPutGlyph fb font glyph x y fg bg 1, Mapped fb w) ↔ RowFits fb y := by
  have hbypp := bypp_lt fb
  have hoffset : ∀ i < CHARSIZE, ∀ k < GLYPH_WIDTH, ∀ c < 3, offset fb x (y + i) k c < fb.bytes + 2 ^ 22 := by
    intro i hi k hk c hc
    have hrow : min (y + i) fb.framebufferHeight.toNat * fb.framebufferPitch.toNat ≤ fb.bytes := by
      rw [Framebuffer.bytes, Nat.mul_comm]
      exact Nat.mul_le_mul_left _ (min_le_right _ _)
    have hcolumn : (x + k) * fb.bypp ≤ (2 ^ 16 + 8) * 32 :=
      Nat.mul_le_mul (by rw [GLYPH_WIDTH] at hk; omega) hbypp.le
    rw [offset]
    omega
  have hforall : (∀ w ∈ fbPutGlyph fb font glyph x y fg bg 1, Mapped fb w) ↔
      ∀ i < CHARSIZE, ∀ k < GLYPH_WIDTH, ∀ c < 3, offset fb x (y + i) k c < fb.bytes := by
    apply (forall_fbPutGlyph (P := fun a => fb.fbVirtAddr.toNat ≤ a ∧ a < fb.fbVirtAddr.toNat + fb.bytes)).trans
    apply forall_congr'
    intro i
    apply forall_congr'
    intro hi
    have hrow : (y + i) % 2 ^ 16 = y + i := Nat.mod_eq_of_lt (by omega)
    apply forall_congr'
    intro k
    apply forall_congr'
    intro hk
    apply forall_congr'
    intro c
    apply forall_congr'
    intro hc
    rw [hrow, getPixelAddr_eq (by omega)]
    exact mapped_iff_lt ha (hoffset i hi k hk c hc)
  rw [hforall]
  constructor
  · intro h
    have hlast := h 15 (by decide) 0 (by decide) 2 (by decide)
    rw [offset, Framebuffer.bytes, Nat.mul_comm fb.framebufferPitch.toNat] at hlast
    have hfits : y + 15 < fb.framebufferHeight.toNat := by
      by_contra hge
      rw [min_eq_right (by omega)] at hlast
      omega
    rw [min_eq_left hfits.le] at hlast
    refine ⟨hfits, (Nat.eq_zero_or_pos fb.bypp).symm.imp_right fun h0 => ?_⟩
    rw [Nat.mul_comm, Nat.sub_mul]
    omega
  · rintro ⟨hfits, hroom⟩ i hi k hk c hc
    simp only [CHARSIZE, GLYPH_WIDTH] at hfits hi hk hx
    have hrow : (y + i) * fb.framebufferPitch.toNat ≤ (y + 15) * fb.framebufferPitch.toNat :=
      Nat.mul_le_mul_right _ (by omega)
    have htotal : fb.bytes = (y + 15) * fb.framebufferPitch.toNat +
        fb.framebufferPitch.toNat * (fb.framebufferHeight.toNat - (y + 15)) := by
      rw [Nat.mul_comm (y + 15), ← Nat.mul_add, Framebuffer.bytes, Nat.add_sub_cancel' (by omega)]
    have hcolumn : (x + k) * fb.bypp + c < fb.framebufferPitch.toNat * (fb.framebufferHeight.toNat - (y + 15)) := by
      rcases Nat.eq_zero_or_pos fb.bypp with h0 | hpos
      · have hlast := hroom.resolve_left (by omega)
        rw [h0]
        omega
      · calc (x + k) * fb.bypp + c < (x + k) * fb.bypp + 9 * fb.bypp := by omega
          _ = (x + k + 9) * fb.bypp := (Nat.add_mul ..).symm
          _ ≤ fb.framebufferWidth.toNat * fb.bypp := Nat.mul_le_mul_right _ (by omega)
          _ ≤ fb.framebufferPitch.toNat := ha.pitch
          _ ≤ _ := Nat.le_mul_of_pos_right _ (by omega)
    rw [offset, min_eq_left (by omega), htotal]
    omega

end WordOS.Drivers
