import WordOS.Drivers.Pixels
import WordOS.Programs.TerminalColors
import WordOS.Programs.TerminalPixels

/-! What `draw_text_buffer` shows: the pixels of the screen are those of the text, set in rows. -/

namespace WordOS.Programs

open Machine Drivers Memory Lib.Loops Lib.Painting Lib.Reversal

structure Cell where
  glyph : UInt8
  fg : UInt32
  bg : UInt32
  deriving DecidableEq

def Glyph.cell (g : Glyph) : Cell := ⟨g.glyph, g.fg, g.bg⟩

def glyphWrites (fb : Framebuffer) (font : ℤ → UInt8) (glyphs : List Glyph) : List (ℕ × UInt8) :=
  glyphs.flatMap fun g => fbPutGlyph fb font g.glyph g.x g.y g.fg g.bg 1

/-- What `draw_text_buffer` makes of the memory of the framebuffer. -/
def drawPixels (fb : Framebuffer) (font : ℤ → UInt8) (n : ℕ) (beyond : ℕ → UInt32) (s : Terminal) (termFg termBg : UInt32)
    (m : ℕ → UInt8) : Exec (ℕ → UInt8) := do
  let glyphs ← drawGlyphs n beyond s termFg termBg
  return paint m (glyphWrites fb font glyphs)

/-- The rows that are finished, the row in hand, and the colours. -/
structure Page where
  termFg : UInt32
  termBg : UInt32
  done : List (List Cell)
  row : List Cell

namespace Page

def cell (p : Page) (ch : UInt8) : Cell := ⟨ch, p.termFg, p.termBg⟩

/-- A newline fills its row with blanks, and a character that finds its row full starts the next one. -/
def add (width : ℕ) (p : Page) (ch : UInt8) : Page :=
  if ch = NEWLINE then
    { p with done := p.done ++ [p.row ++ List.replicate (width - p.row.length) (p.cell 32)]
             row := [] }
  else if p.row.length = width then
    { p with done := p.done ++ [p.row]
             row := [p.cell ch] }
  else { p with row := p.row ++ [p.cell ch] }

def setItem (width : ℕ) (p : Page) : List UInt8 → Page
  | [ch] => p.add width ch
  | [_, fg, bg] => { p with termFg := colors.getD (singleShtoi fg) 0
                            termBg := colors.getD (singleShtoi bg) 0 }
  | _ => p

/-- What is on the screen at the end: the row in hand is blank. -/
def rows (width : ℕ) (p : Page) : List (List Cell) := p.done ++ [List.replicate width (p.cell 32)]

end Page

def blankPage (termFg termBg : UInt32) : Page := ⟨termFg, termBg, [], []⟩

/-- A text, given as its characters and escapes, set in rows. -/
def typeset (width : ℕ) (p : Page) (items : List (List UInt8)) : Page := items.foldl (Page.setItem width) p

def grid (rows : List (List Cell)) (row col : ℕ) : Option Cell := rows[row]?.bind fun r => r[col]?

/-- The last of the calls for a place of the screen. -/
def shown (glyphs : List Glyph) (row col : ℕ) : Option Cell :=
  (glyphs.filter fun g => g.x = 8 * col ∧ g.y = 16 * row).getLast?.map Glyph.cell

section Grid

variable {rows rows' : List (List Cell)} {r : List Cell} {glyphs glyphs' : List Glyph} {g : Glyph} {row col : ℕ}

lemma grid_append_left (h : row < rows.length) : grid (rows ++ rows') row col = grid rows row col := by
  rw [grid, grid, List.getElem?_append_left h]

lemma grid_snoc (h : row = rows.length) : grid (rows ++ [r]) row col = r[col]? := by
  rw [grid, h, List.getElem?_concat_length, Option.bind_some]

lemma grid_of_le (h : rows.length ≤ row) : grid rows row col = none := by
  rw [grid, List.getElem?_eq_none h, Option.bind_none]

lemma grid_snoc_nil : grid (rows ++ [[]]) row col = grid rows row col := by
  rcases Nat.lt_trichotomy row rows.length with hlt | heq | hgt
  · exact grid_append_left hlt
  · rw [grid_snoc heq, grid_of_le heq.ge]
    rfl
  · rw [grid_of_le (by simp; omega), grid_of_le hgt.le]

lemma shown_append : shown (glyphs ++ glyphs') row col = (shown glyphs' row col).or (shown glyphs row col) := by
  rw [shown, List.filter_append, List.getLast?_append, Option.map_or, shown, shown]

lemma shown_single : shown [g] row col = if g.x = 8 * col ∧ g.y = 16 * row then some g.cell else none := by
  by_cases h : g.x = 8 * col ∧ g.y = 16 * row
  · rw [if_pos h, shown, List.filter_cons_of_pos (by simpa using h)]
    rfl
  · rw [if_neg h, shown, List.filter_cons_of_neg (by simpa using h)]
    rfl

end Grid

def Inside (width height : ℕ) (g : Glyph) : Prop := ∃ row < height, ∃ col < width, g.x = 8 * col ∧ g.y = 16 * row

section Pixels

variable {fb : Framebuffer} {font : ℤ → UInt8} {glyphs : List Glyph} {g : Glyph} {m m' : ℕ → UInt8}
  {width height row col i k x y a : ℕ} {color : Color}

def Cell.pixel (font : ℤ → UInt8) (cell : Cell) (i k : ℕ) : Color := glyphPixel font cell.glyph cell.fg cell.bg i k

/-- Where a screen has room for some rows. -/
structure HasRoom (fb : Framebuffer) (width height : ℕ) : Prop extends Colored fb where
  columns : 8 * width ≤ fb.framebufferWidth.toNat
  rows : 16 * height ≤ fb.framebufferHeight.toNat
  small : 16 * height ≤ 2 ^ 16

lemma pixelAt_eq (h : ∀ c < 3, m (pixelAddr fb x y + c) = color.byte c) : pixelAt fb m x y = color := by
  have h0 := h 0 (by decide)
  have h1 := h 1 (by decide)
  have h2 := h 2 (by decide)
  rw [Nat.add_zero] at h0
  rw [pixelAt, h0, h1, h2]
  rfl

lemma pixelAt_congr (h : ∀ c < 3, m' (pixelAddr fb x y + c) = m (pixelAddr fb x y + c)) :
    pixelAt fb m' x y = pixelAt fb m x y := by
  have h0 := h 0 (by decide)
  rw [Nat.add_zero] at h0
  rw [pixelAt, pixelAt, h0, h 1 (by decide), h 2 (by decide)]

namespace HasRoom

variable (h : HasRoom fb width height)
include h

lemma mem_glyph {w : ℕ × UInt8} (hrow : row < height) (hcol : col < width) (hx : g.x = 8 * col) (hy : g.y = 16 * row) :
    w ∈ fbPutGlyph fb font g.glyph g.x g.y g.fg g.bg 1 ↔ ∃ i < 16, ∃ k < 8, ∃ c < 3,
      w = (pixelAddr fb (8 * col + k) (16 * row + i) + c, (g.cell.pixel font i k).byte c) := by
  have hcolumns := h.columns
  have hrows := h.rows
  have hsmall := h.small
  rw [hx, hy]
  exact h.mem_fbPutGlyph (by omega) (by omega) (by omega)

lemma paint_glyph (hg : Inside width height g) (hrow : row < height) (hcol : col < width) (hi : i < 16) (hk : k < 8) :
    pixelAt fb (paint m (fbPutGlyph fb font g.glyph g.x g.y g.fg g.bg 1)) (8 * col + k) (16 * row + i) =
      if g.x = 8 * col ∧ g.y = 16 * row then g.cell.pixel font i k else pixelAt fb m (8 * col + k) (16 * row + i) := by
  obtain ⟨row', hrow', col', hcol', hx, hy⟩ := hg
  have hcolumns := h.columns
  have hfound : ∀ {w : ℕ × UInt8} {c}, c < 3 → w ∈ fbPutGlyph fb font g.glyph g.x g.y g.fg g.bg 1 →
      w.1 = pixelAddr fb (8 * col + k) (16 * row + i) + c → col' = col ∧ row' = row ∧ w.2 = (g.cell.pixel font i k).byte c := by
    intro w c hc hw haddr
    obtain ⟨i', hi', k', hk', c', hc', rfl⟩ := (h.mem_glyph hrow' hcol' hx hy).mp hw
    obtain ⟨hcols, hrows, rfl⟩ := h.addr_inj (by omega) (by omega) hc' hc haddr
    obtain rfl : i' = i := by omega
    obtain rfl : k' = k := by omega
    exact ⟨by omega, by omega, rfl⟩
  by_cases hat : g.x = 8 * col ∧ g.y = 16 * row
  · rw [if_pos hat]
    refine pixelAt_eq fun c hc => paint_of_mem ?_ fun w hw haddr => (hfound hc hw haddr).2.2
    exact (h.mem_glyph hrow hcol hat.1 hat.2).mpr ⟨i, hi, k, hk, c, hc, rfl⟩
  · rw [if_neg hat]
    refine pixelAt_congr fun c hc => paint_of_ne fun w hw haddr => hat ?_
    obtain ⟨rfl, rfl, -⟩ := hfound hc hw haddr
    exact ⟨hx, hy⟩

lemma paint_glyphs (hglyphs : ∀ g ∈ glyphs, Inside width height g) (hrow : row < height) (hcol : col < width) (hi : i < 16)
    (hk : k < 8) : pixelAt fb (paint m (glyphWrites fb font glyphs)) (8 * col + k) (16 * row + i) =
      ((shown glyphs row col).map fun cell => cell.pixel font i k).getD (pixelAt fb m (8 * col + k) (16 * row + i)) := by
  induction glyphs using List.reverseRecOn with
  | nil => rfl
  | append_singleton glyphs g ih =>
    rw [List.forall_mem_append, List.forall_mem_singleton] at hglyphs
    have hwrites : glyphWrites fb font (glyphs ++ [g]) =
        glyphWrites fb font glyphs ++ fbPutGlyph fb font g.glyph g.x g.y g.fg g.bg 1 := by
      rw [glyphWrites, List.flatMap_append, List.flatMap_singleton, glyphWrites]
    rw [hwrites, paint_append, h.paint_glyph hglyphs.2 hrow hcol hi hk, shown_append, shown_single, ih hglyphs.1]
    split_ifs
    · rfl
    · rw [Option.none_or]

lemma paint_apart (hglyphs : ∀ g ∈ glyphs, Inside width height g)
    (ha : ∀ x < 8 * width, ∀ y < 16 * height, ∀ c < 3, a ≠ pixelAddr fb x y + c) :
    paint m (glyphWrites fb font glyphs) a = m a := by
  refine paint_of_ne fun w hw haddr => ?_
  obtain ⟨g, hg, hw⟩ := List.mem_flatMap.mp hw
  obtain ⟨row, hrow, col, hcol, hx, hy⟩ := hglyphs g hg
  obtain ⟨i, hi, k, hk, c, hc, rfl⟩ := (h.mem_glyph hrow hcol hx hy).mp hw
  exact ha _ (by omega) _ (by omega) c hc haddr.symm

end HasRoom

end Pixels

section Typesetting

variable {beyond : ℕ → UInt32} {s : Terminal} {p : Page} {d t : Draw} {termFg termBg : UInt32} {ch : UInt8} {item : List UInt8}
  {items : List (List UInt8)} {width row col i n : ℕ}

/-- The calls so far show the rows of `p`. -/
structure Sets (s : Terminal) (p : Page) (d : Draw) : Prop where
  lineX : d.lineX = p.row.length
  lineNum : d.lineNum = p.done.length
  termFg : d.termFg = p.termFg
  termBg : d.termBg = p.termBg
  full : ∀ r ∈ p.done, r.length = s.maxCharX.toNat
  row_le : p.row.length ≤ s.maxCharX.toNat
  cells : ∀ row col, shown d.glyphs row col = grid (p.done ++ [p.row]) row col
  inside : ∀ g ∈ d.glyphs, Inside s.maxCharX.toNat (p.done.length + 1) g

namespace Draw

variable (hs : Columns s) (hsmall : 16 * d.lineNum < 2 ^ 16)
include hs hsmall

lemma glyphAt_at (ch : UInt8) (hi : i < s.maxCharX.toNat) : d.glyphAt ch i = ⟨ch, 8 * i, 16 * d.lineNum, d.termFg, d.termBg⟩ := by
  have hcolumns := hs.small
  rw [glyphAt, u16_of_lt (by omega), u16_of_lt (by omega), Nat.mul_comm i, Nat.mul_comm d.lineNum]

lemma shown_glyphAt (ch : UInt8) (hi : i < s.maxCharX.toNat) :
    shown [d.glyphAt ch i] row col = if row = d.lineNum ∧ col = i then some ⟨ch, d.termFg, d.termBg⟩ else none := by
  rw [shown_single, glyphAt_at hs hsmall ch hi]
  refine if_congr ?_ rfl rfl
  dsimp only
  omega

lemma shown_blanks (hi : i ≤ s.maxCharX.toNat) : shown (d.blanks s i) row col =
    if row = d.lineNum ∧ i ≤ col ∧ col < s.maxCharX.toNat then some ⟨32, d.termFg, d.termBg⟩ else none := by
  have hcount : ∀ n, i + n ≤ s.maxCharX.toNat → shown ((List.range' i n).map (d.glyphAt 32)) row col =
      if row = d.lineNum ∧ i ≤ col ∧ col < i + n then some ⟨32, d.termFg, d.termBg⟩ else none := by
    intro n hn
    induction n with
    | zero =>
      rw [if_neg (by omega)]
      rfl
    | succ n ih =>
      rw [List.range'_concat, List.map_append, List.map_singleton, shown_append, Nat.one_mul,
        shown_glyphAt hs hsmall 32 (by omega), ih (by omega)]
      by_cases hlast : row = d.lineNum ∧ col = i + n
      · rw [if_pos hlast, Option.some_or, if_pos (by omega)]
      · rw [if_neg hlast, Option.none_or]
        refine if_congr ?_ rfl rfl
        omega
  rw [blanks, show (s.maxCharX - i).toNat = s.maxCharX.toNat - i by omega, hcount _ (by omega)]
  refine if_congr ?_ rfl rfl
  omega

lemma blanks_inside {g : Glyph} (hg : g ∈ d.blanks s i) : Inside s.maxCharX.toNat (d.lineNum + 1) g := by
  obtain ⟨k, hk, rfl⟩ := List.mem_map.mp hg
  rw [List.mem_range'_1] at hk
  rw [glyphAt_at hs hsmall 32 (by omega)]
  exact ⟨d.lineNum, Nat.lt_succ_self _, k, by omega, rfl, rfl⟩

end Draw

lemma Inside.mono {width height height' : ℕ} {g : Glyph} (h : Inside width height g) (hle : height ≤ height') :
    Inside width height' g := by
  obtain ⟨row, hrow, hg⟩ := h
  exact ⟨row, by omega, hg⟩

namespace Sets

lemma start (s : Terminal) (termFg termBg : UInt32) : Sets s (blankPage termFg termBg) (drawStart termFg termBg) := by
  refine ⟨rfl, rfl, rfl, rfl, fun r hr => absurd hr List.not_mem_nil, Nat.zero_le _, fun row col => ?_,
    fun g hg => absurd hg List.not_mem_nil⟩
  rcases Nat.eq_zero_or_pos row with rfl | hpos
  · rfl
  · exact (grid_of_le hpos).symm

variable (h : Sets s p d) (hs : Columns s)
include h

lemma cells_of_lt (hrow : row < p.done.length) : shown d.glyphs row col = grid p.done row col := by
  rw [h.cells, grid_append_left hrow]

lemma cells_row (hrow : row = p.done.length) : shown d.glyphs row col = p.row[col]? := by
  rw [h.cells, grid_snoc hrow]

lemma cells_of_le (hrow : p.done.length < row) : shown d.glyphs row col = none := by
  rw [h.cells, grid_of_le]
  rw [List.length_append, List.length_singleton]
  omega

lemma cells_extend {new : List Glyph} {cells : List Cell} (hnew : ∀ row col, shown new row col =
      if row = p.done.length ∧ p.row.length ≤ col then cells[col - p.row.length]? else none) (row col : ℕ) :
    shown (d.glyphs ++ new) row col = grid (p.done ++ [p.row ++ cells]) row col := by
  rw [shown_append, hnew]
  rcases Nat.lt_trichotomy row p.done.length with hlt | heq | hgt
  · rw [if_neg (by omega), Option.none_or, h.cells_of_lt hlt, grid_append_left hlt]
  · rw [h.cells_row heq, grid_snoc heq, List.getElem?_append]
    by_cases hcol : col < p.row.length
    · rw [if_neg (by omega), if_pos hcol, Option.none_or]
    · rw [if_pos (by omega), if_neg hcol, List.getElem?_eq_none (by omega : p.row.length ≤ col), Option.or_none]
  · rw [if_neg (by omega), Option.none_or, h.cells_of_le hgt, grid_of_le (by simp; omega)]

lemma cell_eq (ch : UInt8) : (⟨ch, d.termFg, d.termBg⟩ : Cell) = p.cell ch := by rw [h.termFg, h.termBg, Page.cell]

include hs

lemma newline (hch : s.textBuffer d.printLoc = NEWLINE) (hsmall : 16 * (p.add s.maxCharX.toNat NEWLINE).done.length < 2 ^ 16) :
    ∃ t, drawBody beyond s d = .ok (some t) ∧ Sets s (p.add s.maxCharX.toNat NEWLINE) t := by
  have hadd : p.add s.maxCharX.toNat NEWLINE =
      { p with done := p.done ++ [p.row ++ List.replicate (s.maxCharX.toNat - p.row.length) (p.cell 32)]
               row := [] } := if_pos rfl
  rw [hadd, List.length_append, List.length_singleton] at hsmall
  have hrow := h.row_le
  have hlineX := h.lineX
  have hlineNum := h.lineNum
  have hline : 16 * d.lineNum < 2 ^ 16 := by omega
  rw [hadd]
  refine ⟨_, drawBody_newline hch, rfl, ?_, h.termFg, h.termBg, ?_, Nat.zero_le _, fun row col => ?_, fun g hg => ?_⟩
  · rw [List.length_append, List.length_singleton, ← h.lineNum]
    exact u16_of_lt (by omega)
  · rw [List.forall_mem_append, List.forall_mem_singleton]
    refine ⟨h.full, ?_⟩
    rw [List.length_append, List.length_replicate]
    omega
  · rw [grid_snoc_nil]
    apply h.cells_extend
    intro row col
    rw [Draw.shown_blanks hs hline (by omega), h.cell_eq, List.getElem?_replicate]
    split_ifs <;> first | rfl | omega
  · dsimp only at hg ⊢
    rw [List.length_append, List.length_singleton]
    rcases List.mem_append.mp hg with hg | hg
    · exact (h.inside g hg).mono (by omega)
    · exact (Draw.blanks_inside hs hline hg).mono (by omega)

omit hs in
lemma wrap (hfull : p.row.length = s.maxCharX.toNat) (hsmall : 16 * (p.done.length + 1) < 2 ^ 16) :
    Sets s { p with done := p.done ++ [p.row], row := [] } { d with lineNum := u16 (d.lineNum + 1), lineX := 0 } := by
  have hlineNum := h.lineNum
  refine ⟨rfl, ?_, h.termFg, h.termBg, ?_, Nat.zero_le _, fun row col => ?_, fun g hg => ?_⟩
  · rw [List.length_append, List.length_singleton, ← h.lineNum]
    exact u16_of_lt (by omega)
  · rw [List.forall_mem_append, List.forall_mem_singleton]
    exact ⟨h.full, hfull⟩
  · rw [grid_snoc_nil]
    exact h.cells row col
  · rw [List.length_append]
    exact (h.inside g hg).mono (Nat.le_succ _)

lemma put {loc : ℕ} (ch : UInt8) (hroom : p.row.length < s.maxCharX.toNat) (hline : 16 * d.lineNum < 2 ^ 16) :
    Sets s { p with row := p.row ++ [p.cell ch] } { d with
      glyphs := d.glyphs ++ [d.glyphAt ch d.lineX]
      printLoc := loc
      lineX := u16 (d.lineX + 1) } := by
  have hcolumns := hs.small
  have hlineX := h.lineX
  have hlineNum := h.lineNum
  refine ⟨?_, h.lineNum, h.termFg, h.termBg, h.full, ?_, ?_, fun g hg => ?_⟩
  · rw [List.length_append, List.length_singleton, ← h.lineX]
    exact u16_of_lt (by omega)
  · rw [List.length_append, List.length_singleton]
    exact hroom
  · apply h.cells_extend
    intro row col
    rw [Draw.shown_glyphAt hs hline ch (by omega), h.cell_eq, List.getElem?_singleton]
    split_ifs <;> first | rfl | omega
  · rcases List.mem_append.mp hg with hg | hg
    · exact h.inside g hg
    · rw [List.mem_singleton.mp hg, Draw.glyphAt_at hs hline ch (by omega)]
      exact ⟨d.lineNum, Nat.lt_succ_of_le hlineNum.le, d.lineX, by omega, rfl, rfl⟩

lemma char (hch : Printable (s.textBuffer d.printLoc))
    (hsmall : 16 * (p.add s.maxCharX.toNat (s.textBuffer d.printLoc)).done.length < 2 ^ 16) :
    ∃ t, drawBody beyond s d = .ok (some t) ∧ Sets s (p.add s.maxCharX.toNat (s.textBuffer d.printLoc)) t := by
  have hpos := hs.pos
  have hrow := h.row_le
  have hlineX := h.lineX
  have hpass : drawBody beyond s d = _ := drawBody_char hch (by omega)
  generalize s.textBuffer d.printLoc = ch at hch hsmall hpass ⊢
  by_cases hfull : p.row.length = s.maxCharX.toNat
  · have hx : (d.lineX : ℤ) = s.maxCharX := by omega
    have hwrap : wrapLine s d = { d with lineNum := u16 (d.lineNum + 1), lineX := 0 } :=
      if_pos ⟨by rw [hx, Int.emod_self], by omega⟩
    have hadd : p.add s.maxCharX.toNat ch = { p with done := p.done ++ [p.row], row := [p.cell ch] } := by
      rw [Page.add, if_neg hch.2.2, if_pos hfull]
    rw [hwrap] at hpass
    rw [hadd, List.length_append, List.length_singleton] at hsmall
    have hsets := h.wrap hfull hsmall
    have hline := hsets.lineNum
    rw [hadd]
    refine ⟨_, hpass, hsets.put hs ch (by dsimp only [List.length_nil]; omega) ?_⟩
    rw [hline, List.length_append]
    exact hsmall
  · have hstay : wrapLine s d = d := if_neg fun hc => hc.2.ne' (by
      have hmod := hc.1
      rw [Int.emod_eq_of_lt (by omega) (by omega)] at hmod
      omega)
    have hadd : p.add s.maxCharX.toNat ch = { p with row := p.row ++ [p.cell ch] } := by
      rw [Page.add, if_neg hch.2.2, if_neg hfull]
    rw [hstay] at hpass
    rw [hadd, ← h.lineNum] at hsmall
    rw [hadd]
    exact ⟨_, hpass, h.put hs ch (by omega) hsmall⟩

omit hs in
lemma escape {fg bg : UInt8} (hch : s.textBuffer d.printLoc = ESCAPE) (hfg : s.textBuffer (d.printLoc + 1) = fg)
    (hbg : s.textBuffer (d.printLoc + 2) = bg) (hfg16 : singleShtoi fg < 16) (hbg16 : singleShtoi bg < 16) :
    ∃ t, drawBody beyond s d = .ok (some t) ∧ Sets s (p.setItem s.maxCharX.toNat [ESCAPE, fg, bg]) t := by
  have hcolor : ∀ i < 16, colorAt beyond i = colors.getD i 0 := fun i hi => by
    rw [colorAt, List.getD_eq_getElem _ _ hi, List.getD_eq_getElem _ _ hi]
  refine ⟨_, drawBody_escape hch, h.lineX, h.lineNum, ?_, ?_, h.full, h.row_le, h.cells, h.inside⟩
  · simp only [parseColor, hfg, Page.setItem]
    exact hcolor _ hfg16
  · simp only [parseColor, hbg, Page.setItem]
    exact hcolor _ hbg16

end Sets

lemma Page.add_done (width : ℕ) (p : Page) (ch : UInt8) : p.done.length ≤ (p.add width ch).done.length := by
  rw [add]
  split_ifs
  · simp
  · simp
  · exact le_refl _

lemma Page.setItem_done (width : ℕ) (p : Page) (item : List UInt8) : p.done.length ≤ (p.setItem width item).done.length := by
  match item with
  | [] => exact le_refl _
  | [ch] => exact p.add_done width ch
  | [_, _] => exact le_refl _
  | [_, _, _] => exact le_refl _
  | _ :: _ :: _ :: _ :: _ => exact le_refl _

lemma typeset_done (width : ℕ) (p : Page) (items : List (List UInt8)) : p.done.length ≤ (typeset width p items).done.length := by
  induction items generalizing p with
  | nil => exact le_refl _
  | cons item items ih => exact (p.setItem_done width item).trans (ih _)

lemma Sets.pass (beyond : ℕ → UInt32) (h : Sets s p d) (hs : Columns s) (hitem : ColorItem item)
    (hspells : Spells s.textBuffer d.printLoc item) (hne : ∀ ch ∈ item, ch ≠ 0)
    (hsmall : 16 * (p.setItem s.maxCharX.toNat item).done.length < 2 ^ 16) :
    ∃ t, drawBody beyond s d = .ok (some t) ∧ Sets s (p.setItem s.maxCharX.toNat item) t := by
  cases hitem with
  | @char ch hescape =>
    obtain rfl : ch = s.textBuffer d.printLoc := by simpa using hspells 0 (by simp)
    by_cases hnewline : s.textBuffer d.printLoc = NEWLINE
    · rw [hnewline] at hsmall ⊢
      exact h.newline hs hnewline hsmall
    · exact h.char hs ⟨hne _ (by simp), hescape, hnewline⟩ hsmall
  | @color fg bg hfg hbg =>
    have h0 : ESCAPE = s.textBuffer d.printLoc := by simpa using hspells 0 (by simp)
    have h1 : fg = s.textBuffer (d.printLoc + 1) := by simpa using hspells 1 (by simp)
    have h2 : bg = s.textBuffer (d.printLoc + 2) := by simpa using hspells 2 (by simp)
    exact h.escape h0.symm h1.symm h2.symm hfg hbg

lemma Sets.run (beyond : ℕ → UInt32) (h : Sets s p d) (hs : Columns s) (hitems : ∀ item ∈ items, ColorItem item)
    (hspells : Spells s.textBuffer d.printLoc items.flatten) (hnul : s.textBuffer (d.printLoc + items.flatten.length) = 0)
    (hne : ∀ ch ∈ items.flatten, ch ≠ 0) (hlen : d.printLoc + items.flatten.length < 2 ^ 16)
    (hsmall : 16 * (typeset s.maxCharX.toNat p items).done.length < 2 ^ 16) (hn : items.length < n) :
    ∃ t, loop .fuel (drawBody beyond s) n d = .ok t ∧ Sets s (typeset s.maxCharX.toNat p items) t := by
  obtain ⟨n, rfl⟩ : ∃ k, n = k + 1 := ⟨n - 1, by omega⟩
  induction items generalizing p d n with
  | nil => exact ⟨d, loop_leave (drawBody_nul hnul), h⟩
  | cons item items ih =>
    rw [List.flatten_cons] at hspells hnul hne hlen
    rw [List.forall_mem_cons] at hitems
    rw [List.forall_mem_append] at hne
    rw [List.length_append] at hnul hlen
    have hmono := typeset_done s.maxCharX.toNat (p.setItem s.maxCharX.toNat item) items
    have hdone : 16 * (p.setItem s.maxCharX.toNat item).done.length < 2 ^ 16 :=
      (Nat.mul_le_mul_left 16 hmono).trans_lt hsmall
    obtain ⟨t, ht, hsets⟩ := h.pass beyond hs hitems.1 hspells.left hne.1 hdone
    have hloc : t.printLoc = d.printLoc + item.length := by
      rw [drawBody_printLoc ht, (hitems.1.found hspells.left).1]
      exact u16_of_lt (by omega)
    rw [List.length_cons] at hn
    obtain ⟨n, rfl⟩ : ∃ k, n = k + 1 := ⟨n - 1, by omega⟩
    rw [loop_pass ht]
    refine ih hsets hitems.2 ?_ ?_ hne.2 ?_ hsmall n (by omega)
    · rw [hloc]
      exact hspells.right
    · rw [hloc, Nat.add_assoc]
      exact hnul
    · omega

lemma Sets.rows (h : Sets s p d) (hs : Columns s) (hsmall : 16 * d.lineNum < 2 ^ 16)
    (hrow : row < (p.rows s.maxCharX.toNat).length) (hcol : col < s.maxCharX.toNat) :
    ∃ cell, grid (p.rows s.maxCharX.toNat) row col = some cell ∧
      shown (d.glyphs ++ d.blanks s 0) row col = some cell := by
  rw [Page.rows, List.length_append, List.length_singleton] at hrow
  have hlineNum := h.lineNum
  rw [shown_append, Draw.shown_blanks hs hsmall (Nat.zero_le _)]
  rcases Nat.lt_or_ge row p.done.length with hlt | hge
  · rw [if_neg (by omega), Option.none_or, h.cells_of_lt hlt, Page.rows, grid_append_left hlt]
    have hfull := h.full _ (List.getElem_mem hlt)
    rw [grid, List.getElem?_eq_getElem hlt, Option.bind_some, List.getElem?_eq_getElem (by omega)]
    exact ⟨_, rfl, rfl⟩
  · rw [if_pos (by omega), Option.some_or, Page.rows, grid_snoc (by omega), List.getElem?_replicate, if_pos hcol, h.termFg,
      h.termBg]
    exact ⟨_, rfl, rfl⟩

lemma Sets.all_inside {g : Glyph} (h : Sets s p d) (hs : Columns s) (hsmall : 16 * d.lineNum < 2 ^ 16)
    (hg : g ∈ d.glyphs ++ d.blanks s 0) : Inside s.maxCharX.toNat (p.rows s.maxCharX.toNat).length g := by
  rw [Page.rows, List.length_append, List.length_singleton]
  rcases List.mem_append.mp hg with hg | hg
  · exact h.inside g hg
  · exact h.lineNum ▸ Draw.blanks_inside hs hsmall hg

end Typesetting

/-- After a drawing the screen shows the rows of the text, each place with its character in the colours of the escapes before
it, and nothing else of the framebuffer has changed. -/
theorem drawTextBuffer_shows {fb : Framebuffer} {s : Terminal} {items : List (List UInt8)} {termFg termBg : UInt32} {n : ℕ}
    (font : ℤ → UInt8) (beyond : ℕ → UInt32) (m : ℕ → UInt8) (hs : Columns s) (ht : IsString s.textBuffer items.flatten)
    (hitems : ∀ item ∈ items, ColorItem item) (hlen : items.flatten.length < 2 ^ 16) (hn : items.length < n)
    (hroom : HasRoom fb s.maxCharX.toNat
      ((typeset s.maxCharX.toNat (blankPage termFg termBg) items).rows s.maxCharX.toNat).length) :
    let rows := (typeset s.maxCharX.toNat (blankPage termFg termBg) items).rows s.maxCharX.toNat
    ∃ m', drawPixels fb font n beyond s termFg termBg m = .ok m' ∧
      (∀ row < rows.length, ∀ col < s.maxCharX.toNat, ∃ cell, grid rows row col = some cell ∧
        ∀ i < 16, ∀ k < 8, pixelAt fb m' (8 * col + k) (16 * row + i) = cell.pixel font i k) ∧
      ∀ a, (∀ x < 8 * s.maxCharX.toNat, ∀ y < 16 * rows.length, ∀ c < 3, a ≠ pixelAddr fb x y + c) → m' a = m a := by
  intro rows
  have hrows : rows.length = (typeset s.maxCharX.toNat (blankPage termFg termBg) items).done.length + 1 := by
    simp [rows, Page.rows]
  have hsmall := hroom.small
  change 16 * rows.length ≤ _ at hsmall
  obtain ⟨t, hloop, hsets⟩ := (Sets.start s termFg termBg).run beyond hs hitems ht.spells
    (by rw [drawStart, Nat.zero_add]; exact ht.nul) ht.nonzero (by rw [drawStart, Nat.zero_add]; exact hlen) (by omega) hn
  have hline : 16 * t.lineNum < 2 ^ 16 := by
    rw [hsets.lineNum]
    omega
  have hinside := fun g (hg : g ∈ t.glyphs ++ t.blanks s 0) => hsets.all_inside hs hline hg
  refine ⟨paint m (glyphWrites fb font (t.glyphs ++ t.blanks s 0)), ?_, fun row hrow col hcol => ?_, fun a ha => ?_⟩
  · rw [drawPixels, drawGlyphs, hloop]
    rfl
  · obtain ⟨cell, hcell, hshown⟩ := hsets.rows hs hline hrow hcol
    refine ⟨cell, hcell, fun i hi k hk => ?_⟩
    rw [hroom.paint_glyphs hinside hrow hcol hi hk, hshown]
    rfl
  · exact hroom.paint_apart hinside ha

def redScreen : Framebuffer := ⟨0xCC000000, 96, 32, 64, 24⟩

def redText : List (List UInt8) := [[ESCAPE, 50, 48], [65], [NEWLINE], [66]]

/-- A letter in red, and the row behind it, with a font in which the first glyphs are empty and the others full. -/
theorem drawTextBuffer_shows_red : ∃ m', drawPixels redScreen (fun i => if i < 1040 then 0 else 0xff) 5 (fun _ => 0)
      { initTerminal 32 64 (fun _ => 0) (fun _ => 0) with textBuffer := bytesOf redText.flatten } 0 0 (fun _ => 1) = .ok m' ∧
    pixelAt redScreen m' 0 0 = ⟨0xff, 0, 0⟩ ∧ pixelAt redScreen m' 0 16 = ⟨0, 0, 0⟩ ∧ m' 0xCC000048 = 1 := by
  set s : Terminal := { initTerminal 32 64 (fun _ => 0) (fun _ => 0) with textBuffer := bytesOf redText.flatten } with hs
  have hx : s.maxCharX.toNat = 3 := rfl
  have hitems : ∀ item ∈ redText, ColorItem item := by
    simp only [redText, List.forall_mem_cons, List.not_mem_nil, false_imp_iff, implies_true, and_true]
    exact ⟨.color (by decide) (by decide), .char (by decide), .char (by decide), .char (by decide)⟩
  have hroom : HasRoom redScreen s.maxCharX.toNat
      ((typeset s.maxCharX.toNat (blankPage 0 0) redText).rows s.maxCharX.toNat).length :=
    ⟨⟨⟨by decide, by decide, by decide⟩, by decide⟩, by decide, by decide, by decide⟩
  obtain ⟨m', hm, hpixels, hrest⟩ := drawTextBuffer_shows (n := 5) (fun i => if i < 1040 then 0 else 0xff) (fun _ => 0)
    (fun _ => 1) (show Columns s from ⟨by decide, by decide⟩) (isString_bytesOf (by decide)) hitems (by decide) (by decide) hroom
  obtain ⟨cell, hcell, hred⟩ := hpixels 0 (by decide) 0 (by decide)
  obtain ⟨cell', hcell', hblank⟩ := hpixels 1 (by decide) 0 (by decide)
  obtain rfl : ⟨65, 0xff000000, 0⟩ = cell := Option.some.inj ((show _ = _ by decide).symm.trans hcell)
  obtain rfl : ⟨32, 0xff000000, 0⟩ = cell' := Option.some.inj ((show _ = _ by decide).symm.trans hcell')
  refine ⟨m', hm, (hred 0 (by decide) 0 (by decide)).trans rfl, (hblank 0 (by decide) 0 (by decide)).trans rfl, hrest _ ?_⟩
  intro x hcol y _ c hc
  have haddr : pixelAddr redScreen x y = 0xCC000000 + y * 96 + x * 3 := rfl
  rw [hx] at hcol
  rw [haddr]
  omega

end WordOS.Programs
