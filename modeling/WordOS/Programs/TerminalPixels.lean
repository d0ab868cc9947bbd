import WordOS.Drivers.Framebuffer
import WordOS.Memory.Strings
import WordOS.Programs.TerminalBounds
import WordOS.Programs.TerminalDraw

/-! Where `draw_text_buffer` puts the rows of a text, and when their pixels are on the screen. -/

namespace WordOS.Programs

open Machine Drivers Memory Lib.Loops

/-- The column and the row behind a character; a row has `width` columns. -/
def place (width : ℕ) (p : ℕ × ℕ) (ch : UInt8) : ℕ × ℕ :=
  if ch = NEWLINE then (0, p.2 + 1) else if p.1 = width then (1, p.2 + 1) else (p.1 + 1, p.2)

def layout (width : ℕ) (text : List UInt8) : ℕ × ℕ := text.foldl (place width) (0, 0)

/-- The characters that are shown up to a place of the buffer; the places are counted with 16 bits. -/
inductive Reads (b : ℕ → UInt8) : List UInt8 → ℕ → Prop
  | start : Reads b [] 0
  | escape {text : List UInt8} {j : ℕ} (h : Reads b text j) (hj : b j = ESCAPE) : Reads b text (u16 (j + 3))
  | char {text : List UInt8} {j : ℕ} (h : Reads b text j) (h0 : b j ≠ 0) (hj : b j ≠ ESCAPE) :
    Reads b (text ++ [b j]) (u16 (j + 1))

/-- The rows with a character, the rows that a newline ends, and the one at which the text ends. -/
inductive Marked (width : ℕ) (b : ℕ → UInt8) : ℕ → Prop
  | char {text : List UInt8} {j : ℕ} (h : Reads b text j) (hj : Printable (b j)) : Marked width b (layout width (text ++ [b j])).2
  | newline {text : List UInt8} {j : ℕ} (h : Reads b text j) (hj : b j = NEWLINE) : Marked width b (layout width text).2
  | finish {text : List UInt8} {j : ℕ} (h : Reads b text j) (hj : b j = 0) : Marked width b (layout width text).2

lemma layout_snoc (width : ℕ) (text : List UInt8) (ch : UInt8) :
    layout width (text ++ [ch]) = place width (layout width text) ch := by
  simp only [layout, List.foldl_append, List.foldl_cons, List.foldl_nil]

lemma layout_le {width : ℕ} (h : 0 < width) (text : List UInt8) : (layout width text).1 ≤ width := by
  induction text using List.reverseRecOn with
  | nil => exact Nat.zero_le _
  | append_singleton text ch ih =>
    rw [layout_snoc, place]
    split_ifs
    · exact Nat.zero_le _
    · exact h
    · dsimp only
      omega

structure At (s : Terminal) (text : List UInt8) (d : Draw) : Prop where
  reads : Reads s.textBuffer text d.printLoc
  lineX : d.lineX = (layout s.maxCharX.toNat text).1
  lineNum : d.lineNum = u16 (layout s.maxCharX.toNat text).2

/-- A call for a column of the screen, in the row `row`. -/
def Glyph.On (s : Terminal) (row : ℕ) (g : Glyph) : Prop := g.y = u16 (row * 16) ∧ ∃ col < s.maxCharX.toNat, g.x = u16 (col * 8)

structure Columns (s : Terminal) : Prop where
  pos : 1 ≤ s.maxCharX
  small : s.maxCharX < 2 ^ 13

section

variable {beyond : ℕ → UInt32} {s : Terminal} {termFg termBg : UInt32} {text : List UInt8} {d t : Draw}

lemma u16_mul (r : ℕ) : u16 (u16 r * 16) = u16 (r * 16) := Nat.mod_mul_mod ..

lemma Draw.glyphAt_on (h : At s text d) (ch : UInt8) {i : ℕ} (hi : i < s.maxCharX.toNat) :
    (d.glyphAt ch i).On s (layout s.maxCharX.toNat text).2 := by
  refine ⟨?_, i, hi, rfl⟩
  rw [Draw.glyphAt, h.lineNum]
  exact u16_mul _

lemma Draw.blanks_on (h : At s text d) {i : ℕ} {g : Glyph} (hg : g ∈ d.blanks s i) :
    g.On s (layout s.maxCharX.toNat text).2 := by
  obtain ⟨k, hk, rfl⟩ := List.mem_map.mp hg
  rw [List.mem_range'_1] at hk
  exact glyphAt_on h 32 (by omega)

lemma Draw.exists_blank (hi : d.lineX < s.maxCharX.toNat) : d.glyphAt 32 d.lineX ∈ d.blanks s d.lineX :=
  List.mem_map.mpr ⟨_, List.mem_range'_1.mpr ⟨le_refl _, by omega⟩, rfl⟩

namespace At

lemma start (s : Terminal) (termFg termBg : UInt32) : At s [] (drawStart termFg termBg) := ⟨.start, rfl, rfl⟩

lemma escape (beyond : ℕ → UInt32) (h : At s text d) (hj : s.textBuffer d.printLoc = ESCAPE) :
    ∃ t, drawBody beyond s d = .ok (some t) ∧ At s text t ∧ t.glyphs = d.glyphs ∧ t.lineX = d.lineX ∧ t.lineNum = d.lineNum :=
  ⟨_, drawBody_escape hj, ⟨h.reads.escape hj, h.lineX, h.lineNum⟩, rfl, rfl, rfl⟩

lemma newline (beyond : ℕ → UInt32) (h : At s text d) (hj : s.textBuffer d.printLoc = NEWLINE) :
    ∃ t, drawBody beyond s d = .ok (some t) ∧ At s (text ++ [NEWLINE]) t ∧ t.glyphs = d.glyphs ++ d.blanks s d.lineX ∧ t.lineX = 0 := by
  refine ⟨_, drawBody_newline hj, ⟨?_, ?_, ?_⟩, rfl, rfl⟩
  · have hreads := h.reads.char (by rw [hj]; decide) (by rw [hj]; decide)
    rwa [hj] at hreads
  · rw [layout_snoc, place, if_pos rfl]
  · rw [layout_snoc, place, if_pos rfl, h.lineNum]
    exact Nat.mod_add_mod ..

lemma char (beyond : ℕ → UInt32) (h : At s text d) (hs : Columns s) (hj : Printable (s.textBuffer d.printLoc)) :
    ∃ t g, drawBody beyond s d = .ok (some t) ∧ At s (text ++ [s.textBuffer d.printLoc]) t ∧ t.glyphs = d.glyphs ++ [g] ∧
      g.On s (layout s.maxCharX.toNat (text ++ [s.textBuffer d.printLoc])).2 := by
  have hpos := hs.pos
  have hsmall := hs.small
  have hle := layout_le (show 0 < s.maxCharX.toNat by omega) text
  have hlineX := h.lineX
  have hreads := h.reads.char hj.1 hj.2.1
  have hpass : drawBody beyond s d = _ := drawBody_char hj (by omega)
  by_cases hfull : d.lineX = s.maxCharX.toNat
  · have hx : (d.lineX : ℤ) = s.maxCharX := by omega
    have hwrap : wrapLine s d = { d with lineNum := u16 (d.lineNum + 1), lineX := 0 } :=
      if_pos ⟨by rw [hx, Int.emod_self], by omega⟩
    rw [hwrap] at hpass
    have hlayout : layout s.maxCharX.toNat (text ++ [s.textBuffer d.printLoc]) = (1, (layout s.maxCharX.toNat text).2 + 1) := by
      rw [layout_snoc, place, if_neg hj.2.2, if_pos (by omega)]
    have hrow : u16 (d.lineNum + 1) = u16 ((layout s.maxCharX.toNat text).2 + 1) := by
      rw [h.lineNum]
      exact Nat.mod_add_mod ..
    refine ⟨_, _, hpass, ⟨hreads, ?_, ?_⟩, rfl, ⟨?_, 0, by omega, rfl⟩⟩
    · rw [hlayout]
      rfl
    · rw [hlayout]
      exact hrow
    · rw [hlayout]
      dsimp only [Draw.glyphAt]
      rw [hrow, u16_mul]
  · have hstay : wrapLine s d = d := if_neg fun hc => hc.2.ne' (by
      have hmod := hc.1
      rw [Int.emod_eq_of_lt (by omega) (by omega)] at hmod
      omega)
    rw [hstay] at hpass
    have hlayout : layout s.maxCharX.toNat (text ++ [s.textBuffer d.printLoc]) =
        ((layout s.maxCharX.toNat text).1 + 1, (layout s.maxCharX.toNat text).2) := by
      rw [layout_snoc, place, if_neg hj.2.2, if_neg (by omega)]
    refine ⟨_, _, hpass, ⟨hreads, ?_, ?_⟩, rfl, ?_⟩
    · rw [hlayout]
      exact (u16_of_lt (by omega)).trans (by rw [hlineX])
    · rw [hlayout]
      exact h.lineNum
    · rw [hlayout]
      exact Draw.glyphAt_on h _ (by omega)

end At

/-- And its calls are for marked rows, one of them in the current row unless that is empty. -/
structure Shown (s : Terminal) (text : List UInt8) (d : Draw) : Prop extends At s text d where
  rows : ∀ g ∈ d.glyphs, ∃ row, Marked s.maxCharX.toNat s.textBuffer row ∧ g.On s row
  current : 0 < d.lineX → ∃ g ∈ d.glyphs, g.On s (layout s.maxCharX.toNat text).2

namespace Shown

lemma start (s : Terminal) (termFg termBg : UInt32) : Shown s [] (drawStart termFg termBg) :=
  ⟨.start s termFg termBg, fun _ hg => absurd hg List.not_mem_nil, fun h => absurd h (Nat.lt_irrefl 0)⟩

lemma escape (beyond : ℕ → UInt32) (h : Shown s text d) (hj : s.textBuffer d.printLoc = ESCAPE) :
    ∃ t, drawBody beyond s d = .ok (some t) ∧ Shown s text t := by
  obtain ⟨t, ht, hat, hglyphs, hlineX, -⟩ := h.toAt.escape beyond hj
  refine ⟨t, ht, hat, ?_, ?_⟩
  · rw [hglyphs]
    exact h.rows
  · rw [hglyphs, hlineX]
    exact h.current

lemma char (beyond : ℕ → UInt32) (h : Shown s text d) (hs : Columns s) (h0 : s.textBuffer d.printLoc ≠ 0) (hj : s.textBuffer d.printLoc ≠ ESCAPE) :
    ∃ t, drawBody beyond s d = .ok (some t) ∧ Shown s (text ++ [s.textBuffer d.printLoc]) t := by
  by_cases hnewline : s.textBuffer d.printLoc = NEWLINE
  · obtain ⟨t, ht, hat, hglyphs, hlineX⟩ := h.toAt.newline beyond hnewline
    rw [hnewline]
    refine ⟨t, ht, hat, fun g hg => ?_, fun hpos => absurd hpos (by omega)⟩
    rw [hglyphs, List.mem_append] at hg
    rcases hg with hold | hnew
    · exact h.rows g hold
    · exact ⟨_, .newline h.reads hnewline, Draw.blanks_on h.toAt hnew⟩
  · obtain ⟨t, g, ht, hat, hglyphs, hon⟩ := h.toAt.char beyond hs ⟨h0, hj, hnewline⟩
    have hmem : g ∈ t.glyphs := by
      rw [hglyphs]
      exact List.mem_append_right _ (List.mem_singleton_self g)
    refine ⟨t, ht, hat, fun g' hg => ?_, fun _ => ⟨g, hmem, hon⟩⟩
    rw [hglyphs, List.mem_append, List.mem_singleton] at hg
    rcases hg with hold | rfl
    · exact h.rows g' hold
    · exact ⟨_, .char h.reads ⟨h0, hj, hnewline⟩, hon⟩

lemma step (h : Shown s text d) (hs : Columns s) (ht : drawBody beyond s d = .ok (some t)) : ∃ text, Shown s text t := by
  by_cases h0 : s.textBuffer d.printLoc = 0
  · rw [drawBody_nul h0] at ht
    cases ht
  · by_cases hj : s.textBuffer d.printLoc = ESCAPE
    · obtain ⟨u, hu, hshown⟩ := h.escape beyond hj
      rw [hu] at ht
      cases ht
      exact ⟨_, hshown⟩
    · obtain ⟨u, hu, hshown⟩ := h.char beyond hs h0 hj
      rw [hu] at ht
      cases ht
      exact ⟨_, hshown⟩

end Shown

lemma shown_of_reaches (hs : Columns s) (hd : Reaches (drawBody beyond s) (drawStart termFg termBg) d) :
    ∃ text, Shown s text d := by
  refine hd.invariant (I := fun d => ∃ text, Shown s text d) (fun u v hu hv => ?_) ⟨[], .start s termFg termBg⟩
  obtain ⟨text, hshown⟩ := hu
  exact hshown.step hs hv

lemma reaches_of_reads (beyond : ℕ → UInt32) (termFg termBg : UInt32) (hs : Columns s) {j : ℕ} (hr : Reads s.textBuffer text j) :
    ∃ d, Reaches (drawBody beyond s) (drawStart termFg termBg) d ∧ Shown s text d ∧ d.printLoc = j := by
  induction hr with
  | start => exact ⟨_, .refl _, .start s termFg termBg, rfl⟩
  | escape _ hj ih =>
    obtain ⟨d, hd, hshown, rfl⟩ := ih
    obtain ⟨t, ht, hnext⟩ := hshown.escape beyond hj
    exact ⟨t, hd.tail ht, hnext, by rw [drawBody_printLoc ht, if_pos hj]⟩
  | char _ h0 hj ih =>
    obtain ⟨d, hd, hshown, rfl⟩ := ih
    obtain ⟨t, ht, hnext⟩ := hshown.char beyond hs h0 hj
    exact ⟨t, hd.tail ht, hnext, by rw [drawBody_printLoc ht, if_neg hj]⟩

/-- The calls that a drawing makes, whether it comes back or not. -/
def Draws (beyond : ℕ → UInt32) (s : Terminal) (termFg termBg : UInt32) (g : Glyph) : Prop :=
  ∃ d, Reaches (drawBody beyond s) (drawStart termFg termBg) d ∧
    (g ∈ d.glyphs ∨ drawBody beyond s d = .ok none ∧ g ∈ d.blanks s 0)

lemma nul_of_leave (h : drawBody beyond s d = .ok none) : s.textBuffer d.printLoc = 0 := by
  rw [drawBody] at h
  split_ifs at h with h0
  · exact h0
  all_goals cases h

/-- The rows that are drawn are the marked ones. -/
lemma draws_rows (hs : Columns s) {g : Glyph} (h : Draws beyond s termFg termBg g) :
    ∃ row, Marked s.maxCharX.toNat s.textBuffer row ∧ g.On s row := by
  obtain ⟨d, hd, hmem | ⟨hleave, hmem⟩⟩ := h
  · obtain ⟨text, hshown⟩ := shown_of_reaches hs hd
    exact hshown.rows g hmem
  · obtain ⟨text, hshown⟩ := shown_of_reaches hs hd
    exact ⟨_, .finish hshown.reads (nul_of_leave hleave), Draw.blanks_on hshown.toAt hmem⟩

lemma exists_draws (hs : Columns s) {row : ℕ} (h : Marked s.maxCharX.toNat s.textBuffer row) :
    ∃ g, Draws beyond s termFg termBg g ∧ g.On s row := by
  have hpos := hs.pos
  cases h with
  | char hr hj =>
    obtain ⟨d, hd, hshown, rfl⟩ := reaches_of_reads beyond termFg termBg hs hr
    obtain ⟨t, g, ht, -, hglyphs, hon⟩ := hshown.toAt.char beyond hs hj
    refine ⟨g, ⟨t, hd.tail ht, Or.inl ?_⟩, hon⟩
    rw [hglyphs]
    exact List.mem_append_right _ (List.mem_singleton_self g)
  | newline hr hj =>
    obtain ⟨d, hd, hshown, rfl⟩ := reaches_of_reads beyond termFg termBg hs hr
    rcases Nat.eq_zero_or_pos d.lineX with hzero | hmore
    · obtain ⟨t, ht, -, hglyphs, -⟩ := hshown.toAt.newline beyond hj
      refine ⟨_, ⟨t, hd.tail ht, Or.inl ?_⟩, Draw.glyphAt_on hshown.toAt 32 (i := d.lineX) (by omega)⟩
      rw [hglyphs]
      exact List.mem_append_right _ (Draw.exists_blank (by omega))
    · obtain ⟨g, hg, hon⟩ := hshown.current hmore
      exact ⟨g, ⟨d, hd, Or.inl hg⟩, hon⟩
  | finish hr hj =>
    obtain ⟨d, hd, hshown, rfl⟩ := reaches_of_reads beyond termFg termBg hs hr
    refine ⟨_, ⟨d, hd, Or.inr ⟨drawBody_nul hj, ?_⟩⟩, Draw.glyphAt_on hshown.toAt 32 (i := 0) (by omega)⟩
    exact List.mem_map.mpr ⟨0, List.mem_range'_1.mpr ⟨le_refl 0, by omega⟩, rfl⟩

end

/-- The terminal of a framebuffer, with what has been written on it. -/
def Written (fb : Framebuffer) (chars : List UInt8) (s : Terminal) : Prop := ∃ memory userMemory,
  chars.foldlM writeCharTextBuffer
    (initTerminal fb.framebufferWidth.toUInt16 fb.framebufferHeight.toUInt16 memory userMemory) = .ok s

/-- The first text, of `init_terminal` itself. -/
def BOOT_TEXT : List UInt8 :=
  literal "Terminal function: ".toList ++ [ESCAPE] ++ literal "70OK!".toList ++ [ESCAPE] ++ literal "10\n".toList

def PixelsInside (fb : Framebuffer) (font : ℤ → UInt8) (beyond : ℕ → UInt32) (s : Terminal) (termFg termBg : UInt32) : Prop :=
  ∀ g, Draws beyond s termFg termBg g → ∀ w ∈ fbPutGlyph fb font g.glyph g.x g.y g.fg g.bg 1, Mapped fb w

section

variable {fb : Framebuffer} {font : ℤ → UInt8} {beyond : ℕ → UInt32} {s t : Terminal} {termFg termBg : UInt32} {ch : UInt8}
  {chars : List UInt8}

lemma narrow_write (hx : s.maxCharX ≤ 0) (hloc : s.textbufLoc + 1 < 2 ^ 16) (ht : writeCharTextBuffer s ch = .ok t) :
    s.textbufLoc < s.size + 1 ∧ t.textbufLoc = s.textbufLoc + 1 ∧ t.maxCharX = s.maxCharX ∧ t.maxCharY = s.maxCharY := by
  have hfirst : firstLine s = 0 := by
    rw [firstLine, Int.toNat_of_nonpos hx]
    rfl
  have hstay : u16Sub s.textbufLoc 0 = s.textbufLoc := by
    rw [u16Sub_of_le (Nat.zero_le _) (by omega), Nat.sub_zero]
  obtain ⟨hlt, b, rfl⟩ := printChar_eq_ok ht
  have hland : (landing (fun curLines maxCharY => curLines ≥ maxCharY) s ch).1 = s.textbufLoc := by
    rw [landing, hfirst, hstay]
    split_ifs
    · rfl
    · rfl
  rw [hland] at hlt ⊢
  exact ⟨hlt, u16_of_lt hloc, rfl, rfl⟩

lemma narrow_writes (hx : s.maxCharX ≤ 0) (hloc : s.textbufLoc + chars.length < 2 ^ 16)
    (ht : chars.foldlM writeCharTextBuffer s = .ok t) : chars = [] ∨ s.textbufLoc + chars.length ≤ s.size + 1 := by
  induction chars generalizing s with
  | nil => exact Or.inl rfl
  | cons ch chars ih =>
    rw [List.length_cons] at hloc ⊢
    rw [List.foldlM_cons] at ht
    obtain ⟨u, hu, hrest⟩ := bind_eq_ok.mp ht
    obtain ⟨hlt, hnext, hmaxX, hmaxY⟩ := narrow_write hx (by omega) hu
    have hsize : u.size = s.size := by rw [Terminal.size, Terminal.size, hmaxX, hmaxY]
    right
    rcases ih (by omega) (by omega) hrest with rfl | hle
    · rw [List.length_nil]
      omega
    · omega

/-- A screen on which the first text has its place has columns. -/
lemma written_columns (h : Written fb chars s) (hboot : BOOT_TEXT <+: chars) :
    Columns s ∧ s.maxCharX * 8 + 8 ≤ fb.framebufferWidth.toNat := by
  obtain ⟨memory, userMemory, hrun⟩ := h
  have hsame : s.maxCharX = ((fb.framebufferWidth.toUInt16.toNat / 8 : ℕ) : ℤ) - 1 :=
    foldlM_keeps (I := fun t => t.maxCharX = ((fb.framebufferWidth.toUInt16.toNat / 8 : ℕ) : ℤ) - 1)
      (fun u ch v hu hv => (writeChar_counts hv).maxCharX.trans hu) hrun rfl
  have hlt := fb.framebufferWidth.toUInt16.toNat_lt
  have hmod : fb.framebufferWidth.toUInt16.toNat ≤ fb.framebufferWidth.toNat := by
    rw [UInt32.toNat_toUInt16]
    exact Nat.mod_le _ _
  have hpos : 1 ≤ s.maxCharX := by
    by_contra hnarrow
    obtain ⟨rest, rfl⟩ := hboot
    rw [List.foldlM_append] at hrun
    obtain ⟨u, hu, -⟩ := bind_eq_ok.mp hrun
    have hlen : BOOT_TEXT.length = 29 := by decide
    have hx : ((fb.framebufferWidth.toUInt16.toNat / 8 : ℕ) : ℤ) - 1 ≤ 0 := by omega
    rcases narrow_writes hx (show 0 + BOOT_TEXT.length < 2 ^ 16 by decide) hu with hnil | hle
    · exact absurd hnil (by decide)
    · -- the buffer has three bytes at most
      change ((0 : ℕ) + BOOT_TEXT.length : ℤ) ≤
        (((fb.framebufferWidth.toUInt16.toNat / 8 : ℕ) : ℤ) - 1) * (((fb.framebufferHeight.toUInt16.toNat / 16 : ℕ) : ℤ) - 2) + 1 at hle
      rw [hlen] at hle
      rcases (show ((fb.framebufferWidth.toUInt16.toNat / 8 : ℕ) : ℤ) - 1 = -1 ∨
        ((fb.framebufferWidth.toUInt16.toNat / 8 : ℕ) : ℤ) - 1 = 0 by omega) with hneg | hzero
      · rw [hneg] at hle
        omega
      · rw [hzero] at hle
        omega
  exact ⟨⟨hpos, by omega⟩, by omega⟩

/-- The drawing keeps to the framebuffer exactly when every row with something on it has its pixels on the screen. -/
theorem pixels_inside_iff (ha : Accepted fb) (hs : Written fb chars s) (hboot : BOOT_TEXT <+: chars) (font : ℤ → UInt8)
    (beyond : ℕ → UInt32) (termFg termBg : UInt32) : PixelsInside fb font beyond s termFg termBg ↔
      ∀ row, Marked s.maxCharX.toNat s.textBuffer row → RowFits fb (row * 16 % 2 ^ 16) := by
  obtain ⟨hcolumns, hwidth⟩ := written_columns hs hboot
  have hsmall := hcolumns.small
  have hglyph : ∀ (g : Glyph) row, g.On s row → ((∀ w ∈ fbPutGlyph fb font g.glyph g.x g.y g.fg g.bg 1, Mapped fb w) ↔
      RowFits fb (row * 16 % 2 ^ 16)) := by
    rintro g row ⟨hy, col, hcol, hx⟩
    have hcolX : u16 (col * 8) = col * 8 := u16_of_lt (by omega)
    rw [hx, hy, hcolX]
    exact glyph_mapped_iff ha (by rw [CHARSIZE]; omega) (by omega) (by rw [u16, CHARSIZE]; omega)
  constructor
  · intro hin row hrow
    obtain ⟨g, hg, hon⟩ := exists_draws hcolumns hrow
    exact (hglyph g row hon).mp (hin g hg)
  · intro hrows g hg
    obtain ⟨row, hrow, hon⟩ := draws_rows hcolumns hg
    exact (hglyph g row hon).mpr (hrows row hrow)

end

def smallScreen : Framebuffer := ⟨0xCC000000, 224, 56, 128, 32⟩

lemma smallScreen_accepted : Accepted smallScreen := ⟨by decide, by decide, by decide⟩

theorem pixels_inside_iff_boot : ∃ s, Written smallScreen BOOT_TEXT s ∧
    (PixelsInside smallScreen (fun _ => 0) (fun _ => 0) s 0 0 ↔
      ∀ row, Marked s.maxCharX.toNat s.textBuffer row → RowFits smallScreen (row * 16 % 2 ^ 16)) := by
  obtain ⟨s, hs, -⟩ := exists_of_toOption_map (g := fun _ => ()) (c := ()) (x := BOOT_TEXT.foldlM writeCharTextBuffer
    (initTerminal smallScreen.framebufferWidth.toUInt16 smallScreen.framebufferHeight.toUInt16 (fun _ => 0) fun _ => 0)) (by decide)
  have hwritten : Written smallScreen BOOT_TEXT s := ⟨fun _ => 0, fun _ => 0, hs⟩
  exact ⟨s, hwritten, pixels_inside_iff smallScreen_accepted hwritten List.prefix_rfl (fun _ => 0) (fun _ => 0) 0 0⟩

/-- Four empty lines after the first text: the blank row at the end is the ninth of the eight. -/
theorem pixels_not_inside : Accepted smallScreen ∧ ∃ s, Written smallScreen (BOOT_TEXT ++ List.replicate 4 NEWLINE) s ∧
    ¬ PixelsInside smallScreen (fun _ => 0) (fun _ => 0) s 0 0 := by
  obtain ⟨s, hs, hobs⟩ := exists_of_toOption_map (x := (BOOT_TEXT ++ List.replicate 4 NEWLINE).foldlM writeCharTextBuffer
      (initTerminal smallScreen.framebufferWidth.toUInt16 smallScreen.framebufferHeight.toUInt16 (fun _ => 0) fun _ => 0))
    (g := fun s => (s.maxCharX, (loop .fuel (drawBody (fun _ => 0) s) 40 (drawStart 0 0)).toOption.map Draw.lineNum))
    (c := (6, some 8)) (by decide)
  obtain ⟨hx, hrow⟩ := Prod.mk.inj hobs
  obtain ⟨d, hd, hline⟩ := exists_of_toOption_map hrow
  obtain ⟨hreach, hleave⟩ := loop_reaches hd
  refine ⟨smallScreen_accepted, s, ⟨fun _ => 0, fun _ => 0, hs⟩, fun hin => ?_⟩
  have hblank : d.glyphAt 32 0 ∈ d.blanks s 0 :=
    List.mem_map.mpr ⟨0, List.mem_range'_1.mpr ⟨le_refl 0, by rw [hx]; decide⟩, rfl⟩
  have hat : d.glyphAt 32 0 = ⟨32, 0, 128, d.termFg, d.termBg⟩ := by
    rw [Draw.glyphAt, hline]
    rfl
  have hmapped := hin _ ⟨d, hreach, Or.inr ⟨hleave, hblank⟩⟩
  rw [hat] at hmapped
  have hfits := (glyph_mapped_iff (x := 0) (y := 128) smallScreen_accepted (by decide) (by decide) (by decide)).mp hmapped
  exact absurd hfits.1 (by decide)

end WordOS.Programs
