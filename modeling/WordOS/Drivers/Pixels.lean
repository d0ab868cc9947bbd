import WordOS.Drivers.Framebuffer
import WordOS.Lib.Painting

/-! The pixels that `fb_put_glyph` sets on a screen with three bytes a pixel or more. -/

namespace WordOS.Drivers

open Machine Lib.Painting

def pixelAddr (fb : Framebuffer) (x y : ℕ) : ℕ := fb.fbVirtAddr.toNat + y * fb.framebufferPitch.toNat + x * fb.bypp

def pixelAt (fb : Framebuffer) (m : ℕ → UInt8) (x y : ℕ) : Color where
  r := m (pixelAddr fb x y + 2)
  g := m (pixelAddr fb x y + 1)
  b := m (pixelAddr fb x y)

def Color.byte (color : Color) : ℕ → UInt8
  | 0 => color.b
  | 1 => color.g
  | _ => color.r

def glyphPixel (font : ℤ → UInt8) (glyph : UInt8) (fg bg : UInt32) (i k : ℕ) : Color :=
  splitColor (if glyphRow font glyph i &&& ((1 : UInt8) <<< (7 - k).toUInt8) ≠ 0 then fg else bg)

/-- A screen with three bytes a pixel at least. -/
structure Colored (fb : Framebuffer) : Prop extends Accepted fb where
  bypp : 3 ≤ fb.bypp

variable {fb : Framebuffer} {font : ℤ → UInt8} {glyph : UInt8} {fg bg : UInt32} {x y x' y' c c' i k a : ℕ} {m : ℕ → UInt8}

lemma quotient_unique {n r r' : ℕ} (h : y * n + r = y' * n + r') (hr : r < n) (hr' : r' < n) : y = y' ∧ r = r' := by
  have hn : 0 < n := by omega
  have hy := congrArg (· / n) h
  simp only [Nat.mul_comm _ n, Nat.mul_add_div hn, Nat.div_eq_of_lt hr, Nat.div_eq_of_lt hr', Nat.add_zero] at hy
  subst hy
  exact ⟨rfl, Nat.add_left_cancel h⟩

namespace Colored

variable (h : Colored fb)
include h

lemma row_lt (hx : x < fb.framebufferWidth.toNat) (hc : c < 3) : x * fb.bypp + c < fb.framebufferPitch.toNat := by
  have hbypp := h.bypp
  calc x * fb.bypp + c < x * fb.bypp + fb.bypp := by omega
    _ = (x + 1) * fb.bypp := (Nat.succ_mul x _).symm
    _ ≤ fb.framebufferWidth.toNat * fb.bypp := Nat.mul_le_mul_right _ hx
    _ ≤ _ := h.pitch

lemma addr_lt (hx : x < fb.framebufferWidth.toNat) (hy : y < fb.framebufferHeight.toNat) (hc : c < 3) :
    pixelAddr fb x y + c < 2 ^ 32 := by
  have hrow := h.row_lt hx hc
  have hhigh := h.high
  have hle : (y + 1) * fb.framebufferPitch.toNat ≤ fb.bytes := by
    rw [Framebuffer.bytes, Nat.mul_comm]
    exact Nat.mul_le_mul_left _ hy
  rw [Nat.succ_mul] at hle
  rw [pixelAddr]
  omega

/-- The bytes of the pixels do not overlap. -/
lemma addr_inj (hx : x < fb.framebufferWidth.toNat) (hx' : x' < fb.framebufferWidth.toNat) (hc : c < 3) (hc' : c' < 3)
    (he : pixelAddr fb x y + c = pixelAddr fb x' y' + c') : x = x' ∧ y = y' ∧ c = c' := by
  have hbypp := h.bypp
  have hrows : y * fb.framebufferPitch.toNat + (x * fb.bypp + c) = y' * fb.framebufferPitch.toNat + (x' * fb.bypp + c') := by
    rw [pixelAddr, pixelAddr] at he
    omega
  obtain ⟨hy, hcolumns⟩ := quotient_unique hrows (h.row_lt hx hc) (h.row_lt hx' hc')
  obtain ⟨hx, hc⟩ := quotient_unique hcolumns (by omega) (by omega)
  exact ⟨hx, hy, hc⟩

lemma mem_fillSquare {color : Color} {w : ℕ × UInt8} (hx : x < fb.framebufferWidth.toNat) (hy : y < fb.framebufferHeight.toNat) :
    w ∈ fillSquare fb (pixelAddr fb x y) 1 1 color ↔ ∃ c < 3, w = (pixelAddr fb x y + c, color.byte c) := by
  have hu : ∀ c < 3, u32 (pixelAddr fb x y + c) = pixelAddr fb x y + c := fun c hc => Nat.mod_eq_of_lt (h.addr_lt hx hy hc)
  have h0 : u32 (pixelAddr fb x y) = pixelAddr fb x y := hu 0 (by decide)
  simp only [fillSquare, List.range_one, List.flatMap_cons, List.flatMap_nil, List.append_nil, Nat.zero_mul, Nat.mul_zero,
    Nat.add_zero, List.mem_cons, List.not_mem_nil, or_false, h0, hu 1 (by decide), hu 2 (by decide)]
  constructor
  · rintro (rfl | rfl | rfl)
    · exact ⟨0, by decide, rfl⟩
    · exact ⟨1, by decide, rfl⟩
    · exact ⟨2, by decide, rfl⟩
  · rintro ⟨c, hc, rfl⟩
    interval_cases c
    · exact .inl rfl
    · exact .inr (.inl rfl)
    · exact .inr (.inr rfl)

lemma mem_fbPutGlyph {w : ℕ × UInt8} (hx : x + 8 ≤ fb.framebufferWidth.toNat) (hy : y + 16 ≤ fb.framebufferHeight.toNat)
    (hy16 : y + 16 ≤ 2 ^ 16) : w ∈ fbPutGlyph fb font glyph x y fg bg 1 ↔
      ∃ i < 16, ∃ k < 8, ∃ c < 3, w = (pixelAddr fb (x + k) (y + i) + c, (glyphPixel font glyph fg bg i k).byte c) := by
  simp only [fbPutGlyph, List.mem_flatMap, List.mem_range, CHARSIZE, GLYPH_WIDTH]
  refine exists_congr fun i => and_congr_right fun hi => exists_congr fun k => and_congr_right fun hk => ?_
  have hrow : (y + i * 1) % 2 ^ 16 = y + i := by
    rw [Nat.mul_one]
    exact Nat.mod_eq_of_lt (by omega)
  have hlt : pixelAddr fb (x + k) (y + i) + 0 < 2 ^ 32 := h.addr_lt (by omega) (by omega) (by decide)
  have haddr : u32 (getPixelAddr fb x (y + i) + k * (1 * fb.bypp)) = pixelAddr fb (x + k) (y + i) := by
    have heq : u32 (getPixelAddr fb x (y + i) + k * fb.bypp + 0) = u32 (fb.fbVirtAddr.toNat + offset fb x (y + i) k 0) :=
      getPixelAddr_eq (by omega) (y + i) k 0
    rw [offset, Nat.min_eq_left (by omega)] at heq
    rw [Nat.one_mul, ← Nat.add_zero (_ + _), heq, ← Nat.add_assoc, Nat.add_zero, pixelAddr, ← Nat.add_assoc]
    exact Nat.mod_eq_of_lt (by simpa [pixelAddr] using hlt)
  rw [hrow, haddr]
  exact h.mem_fillSquare (by omega) (by omega)

end Colored

end WordOS.Drivers
