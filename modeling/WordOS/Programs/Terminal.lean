import WordOS.Machine
import Mathlib.Logic.Function.Basic
import Mathlib.Tactic

/-! The text buffer of `terminal.c`: what is printed, and the echo of what is typed. -/

namespace WordOS.Programs

open Machine

def NEWLINE : UInt8 := 10
def BACKSPACE : UInt8 := 8

def u16 (x : ℕ) : ℕ := x % 2 ^ 16

def u16Sub (x y : ℕ) : ℕ := u16 (x + 2 ^ 16 - u16 y)

/-- The globals of `terminal.c`. `textBuffer` and `userChars` are what lies from the addresses of the buffers on. -/
structure Terminal where
  textBuffer : ℕ → UInt8
  userChars : ℕ → UInt8
  userCharIndex : ℕ
  textbufLoc : ℕ
  curLines : ℕ
  maxCharX : ℤ
  maxCharY : ℤ

namespace Terminal

/-- A write to `text_buffer`, which has `max_char_x * max_char_y + 1` bytes. -/
def put (s : Terminal) (i : ℕ) (ch : UInt8) : Exec Terminal :=
  if i < s.maxCharX * s.maxCharY + 1 then .ok { s with textBuffer := Function.update s.textBuffer i ch } else .error .fault

end Terminal

/-- The search of `scroll_text_buffer_down`, from `i` on with `n` characters to go. -/
def endFirstLine (textBuffer : ℕ → UInt8) : ℕ → (i : ℕ) → ℕ
  | 0, _ => 0
  | n + 1, i => if textBuffer i = NEWLINE then i + 1 else endFirstLine textBuffer n (i + 1)

def firstLine (s : Terminal) : ℕ := endFirstLine s.textBuffer s.maxCharX.toNat 0

/-- The loop that moves the characters, with `n` to go. -/
def moveChars (endFirstLine : ℕ) : ℕ → (curLetter : ℕ) → Terminal → Exec (ℕ × Terminal)
  | 0, curLetter, s => .ok (curLetter, s)
  | n + 1, curLetter, s =>
    if s.textBuffer (curLetter + endFirstLine) = 0 then .ok (curLetter, s)
    else do
      let s ← s.put curLetter (s.textBuffer (curLetter + endFirstLine))
      moveChars endFirstLine n (curLetter + 1) s

/-- The loop that clears the final line; the buffer ends after `n` more characters. -/
def clearChars : ℕ → (i : ℕ) → Terminal → Exec Terminal
  | 0, i, s => if s.textBuffer i = 0 then .ok s else .error .fault
  | n + 1, i, s =>
    if s.textBuffer i = 0 then .ok s
    else do
      let s ← s.put i 0
      clearChars n (i + 1) s

def scrollTextBufferDown (s : Terminal) : Exec Terminal := do
  let size := s.maxCharX * s.maxCharY
  let endFirstLine := firstLine s
  let (curLetter, s) ← moveChars endFirstLine (size - endFirstLine).toNat 0 s
  let s ← clearChars (size + 1 - curLetter).toNat curLetter s
  return { s with curLines := u16Sub s.curLines 1, textbufLoc := u16Sub s.textbufLoc endFirstLine }

def countLine (s : Terminal) (ch : UInt8) : ℕ := if ch = NEWLINE then u16 (s.curLines + 1) else s.curLines

/-- `text_buffer[textbuf_loc] = ch; textbuf_loc++;` -/
def putNext (s : Terminal) (ch : UInt8) : Exec Terminal := do
  let s ← s.put s.textbufLoc ch
  return { s with textbufLoc := u16 (s.textbufLoc + 1) }

/-- One character, where `full` says whether the lines are too many for the screen. -/
def printChar (full : ℕ → ℤ → Bool) (s : Terminal) (ch : UInt8) : Exec Terminal := do
  let s := { s with curLines := countLine s ch }
  let s ← if full s.curLines s.maxCharY then scrollTextBufferDown s else pure s
  putNext s ch

def writeCharTextBuffer (s : Terminal) (ch : UInt8) : Exec Terminal :=
  printChar (fun curLines maxCharY => curLines ≥ maxCharY) s ch

/-- The loop body of `write_text_buffer`. -/
def writeTextChar (s : Terminal) (ch : UInt8) : Exec Terminal :=
  printChar (fun curLines maxCharY => curLines > maxCharY) s ch

/-- `text` is what stands before the NUL. -/
def writeTextBuffer (s : Terminal) (text : List UInt8) : Exec Terminal := text.foldlM writeTextChar s

def writeUserChar (s : Terminal) (ch : UInt8) : Exec Terminal :=
  if ch = BACKSPACE then
    if s.userCharIndex ≤ 2 then .ok s
    else
      let userCharIndex := s.userCharIndex - 1
      .ok { s with userCharIndex, userChars := Function.update s.userChars userCharIndex 32 }
  else if s.userCharIndex = s.maxCharX then .ok s
  else do
    let s := { s with userChars := Function.update s.userChars s.userCharIndex ch }
    let s ← s.put (s.textbufLoc + s.userCharIndex) ch
    return { s with userCharIndex := u16 (s.userCharIndex + 1) }

/-- The buffers after the `memset`s of `init_terminal`; `memory` and `userMemory` are what lies behind them. -/
def blankTerminal (maxCharX maxCharY : ℤ) (memory userMemory : ℕ → UInt8) : Terminal where
  textBuffer := fun i => if i < maxCharX * maxCharY + 1 then 0 else memory i
  userChars := fun i => if i = 0 then 62 else if i = 1 then 32 else if i < maxCharX + 1 then 0 else userMemory i
  userCharIndex := 2
  textbufLoc := 0
  curLines := 0
  maxCharX := maxCharX
  maxCharY := maxCharY

/-- `init_terminal`, before it prints; `font_size` is 1. -/
def initTerminal (screenWidth screenHeight : UInt16) (memory userMemory : ℕ → UInt8) : Terminal :=
  blankTerminal ((screenWidth.toNat / 8 : ℕ) - 1) ((screenHeight.toNat / 16 : ℕ) - 2) memory userMemory

/-- What `draw_text_buffer` writes: the characters typed so far are gone. -/
def drawTextBuffer (s : Terminal) : Terminal :=
  { s with userChars := fun i => if 1 < i ∧ i < s.maxCharX then 0 else s.userChars i }

/-- `user_char_index = 2` of `terminal_loop`. -/
def startUserLine (s : Terminal) : Terminal := { s with userCharIndex := 2 }

/-- A call of the rest of the system into the terminal, or a step of its own loop. -/
inductive Call
  | writeChar (ch : UInt8)
  | writeText (text : List UInt8)
  | writeUser (ch : UInt8)
  | draw
  | startLine

def Call.run (s : Terminal) : Call → Exec Terminal
  | .writeChar ch => writeCharTextBuffer s ch
  | .writeText text => writeTextBuffer s text
  | .writeUser ch => writeUserChar s ch
  | .draw => .ok (drawTextBuffer s)
  | .startLine => .ok (startUserLine s)

end WordOS.Programs
