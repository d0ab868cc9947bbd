import WordOS.Lib.Loops
import WordOS.Programs.TerminalScroll

/-! `draw_text_buffer`: the text is read with its colour escapes, and its characters go to their places on the screen. -/

namespace WordOS.Programs

open Machine Lib.Loops

/-- `0xff`, the first character of a colour escape. -/
def ESCAPE : UInt8 := 0xff

def singleShtoi (num : UInt8) : ℕ :=
  if 48 ≤ num ∧ num ≤ 57 then num.toNat - 48 else if 97 ≤ num ∧ num ≤ 102 then 10 + (num.toNat - 97) else 2 ^ 32 - 1

def colors : List UInt32 :=
  [0x0, 0xffffff00, 0xff000000, 0x00ff0000, 0x0000ff00, 0xc4a00000, 0x75507b00, 0x06989a00, 0, 0, 0, 0, 0, 0, 0, 0]

/-- `colors[i]`; `beyond` is what lies outside of the array. -/
def colorAt (beyond : ℕ → UInt32) (i : ℕ) : UInt32 := colors.getD i (beyond i)

structure Glyph where
  glyph : UInt8
  x : ℕ
  y : ℕ
  fg : UInt32
  bg : UInt32

/-- The variables of the loop, and the calls so far. -/
structure Draw where
  printLoc : ℕ
  lineX : ℕ
  lineNum : ℕ
  termFg : UInt32
  termBg : UInt32
  glyphs : List Glyph

namespace Draw

variable (d : Draw)

def glyphAt (ch : UInt8) (i : ℕ) : Glyph := ⟨ch, u16 (i * 8), u16 (d.lineNum * 16), d.termFg, d.termBg⟩

/-- Blanks from column `i` to the end of the line. -/
def blanks (s : Terminal) (i : ℕ) : List Glyph := (List.range' i (s.maxCharX - i).toNat).map (d.glyphAt 32)

end Draw

def parseColor (beyond : ℕ → UInt32) (s : Terminal) (d : Draw) : Draw :=
  let hexFg := singleShtoi (s.textBuffer (d.printLoc + 1))
  let hexBg := singleShtoi (s.textBuffer (d.printLoc + 2))
  { d with termFg := colorAt beyond hexFg, termBg := colorAt beyond hexBg }

/-- The step to the next line where this one is full. -/
def wrapLine (s : Terminal) (d : Draw) : Draw :=
  if d.lineX % s.maxCharX = 0 ∧ 0 < d.lineX then { d with lineNum := u16 (d.lineNum + 1), lineX := 0 } else d

def drawBody (beyond : ℕ → UInt32) (s : Terminal) (d : Draw) : Exec (Option Draw) :=
  let ch := s.textBuffer d.printLoc
  if ch = 0 then .ok none
  else if ch = ESCAPE then .ok (some { parseColor beyond s d with printLoc := u16 (d.printLoc + 3) })
  else if ch = NEWLINE then .ok (some { d with
    glyphs := d.glyphs ++ d.blanks s d.lineX
    lineNum := u16 (d.lineNum + 1)
    printLoc := u16 (d.printLoc + 1)
    lineX := 0 })
  -- the remainder is not defined on a screen without columns
  else if s.maxCharX = 0 then .error .fault
  else
    let d := wrapLine s d
    .ok (some { d with
      glyphs := d.glyphs ++ [d.glyphAt ch d.lineX]
      printLoc := u16 (d.printLoc + 1)
      lineX := u16 (d.lineX + 1) })

def drawStart (termFg termBg : UInt32) : Draw := ⟨0, 0, 0, termFg, termBg, []⟩

def drawGlyphs (n : ℕ) (beyond : ℕ → UInt32) (s : Terminal) (termFg termBg : UInt32) : Exec (List Glyph) := do
  let d ← loop .fuel (drawBody beyond s) n (drawStart termFg termBg)
  return d.glyphs ++ d.blanks s 0

example : (drawGlyphs 4 (fun _ => 0) { initTerminal 32 64 (fun _ => 0) (fun _ => 0) with
    textBuffer := fun i => if i = 0 then ESCAPE else if i < 3 then 50 else if i = 3 then 65 else 0 } 0 0).map
    (List.map fun g => (g.glyph, g.x, g.y, g.fg)) =
    .ok [(65, 0, 0, 0xff000000), (32, 0, 0, 0xff000000), (32, 8, 0, 0xff000000), (32, 16, 0, 0xff000000)] := by rfl

variable {beyond : ℕ → UInt32} {s : Terminal} {d : Draw}

lemma drawBody_nul (h : s.textBuffer d.printLoc = 0) : drawBody beyond s d = .ok none := if_pos h

lemma drawBody_escape (h : s.textBuffer d.printLoc = ESCAPE) :
    drawBody beyond s d = .ok (some { parseColor beyond s d with printLoc := u16 (d.printLoc + 3) }) := by
  have hne : s.textBuffer d.printLoc ≠ 0 := by
    rw [h]
    decide
  simp only [drawBody, if_neg hne, if_pos h]

lemma drawBody_newline (h : s.textBuffer d.printLoc = NEWLINE) : drawBody beyond s d = .ok (some { d with
    glyphs := d.glyphs ++ d.blanks s d.lineX
    lineNum := u16 (d.lineNum + 1)
    printLoc := u16 (d.printLoc + 1)
    lineX := 0 }) := by
  have hne : s.textBuffer d.printLoc ≠ 0 := by
    rw [h]
    decide
  have hescape : s.textBuffer d.printLoc ≠ ESCAPE := by
    rw [h]
    decide
  simp only [drawBody, if_neg hne, if_neg hescape, if_pos h]

def Printable (ch : UInt8) : Prop := ch ≠ 0 ∧ ch ≠ ESCAPE ∧ ch ≠ NEWLINE

lemma drawBody_char (h : Printable (s.textBuffer d.printLoc)) (hx : s.maxCharX ≠ 0) : drawBody beyond s d = .ok (some { wrapLine s d with
    glyphs := (wrapLine s d).glyphs ++ [(wrapLine s d).glyphAt (s.textBuffer d.printLoc) (wrapLine s d).lineX]
    printLoc := u16 ((wrapLine s d).printLoc + 1)
    lineX := u16 ((wrapLine s d).lineX + 1) }) := by
  simp only [drawBody, if_neg h.1, if_neg h.2.1, if_neg h.2.2, if_neg hx]

lemma wrapLine_printLoc (s : Terminal) (d : Draw) : (wrapLine s d).printLoc = d.printLoc := by
  rw [wrapLine]
  split_ifs
  all_goals rfl

lemma drawBody_printLoc {t : Draw} (h : drawBody beyond s d = .ok (some t)) :
    t.printLoc = u16 (d.printLoc + if s.textBuffer d.printLoc = ESCAPE then 3 else 1) := by
  by_cases hescape : s.textBuffer d.printLoc = ESCAPE
  · rw [drawBody_escape hescape] at h
    cases h
    rw [if_pos hescape]
  · rw [if_neg hescape]
    rw [drawBody] at h
    split_ifs at h with hzero hnewline hx
    · cases h
    · cases h
      rfl
    · cases h
      dsimp only
      rw [wrapLine_printLoc]

end WordOS.Programs
