import WordOS.Lib.RingBuffer
import WordOS.Lib.Runs

/-! The buffer of key events: `handle_keychange` writes it, `next_keycode` reads it. -/

namespace WordOS.Drivers

open Lib.Rings

inductive KernelScancode
  | keyNull | keySpace | keyBackspace | keyTab | keyEsc | keyReturn | keyShift | keyCtrl | keyAlt | keyCapslock
  | key1 | key2 | key3 | key4 | key5 | key6 | key7 | key8 | key9 | key0 | keyA | keyB | keyC | keyD | keyE | keyF
  | keyG | keyH | keyI | keyJ | keyK | keyL | keyM | keyN | keyO | keyP | keyQ | keyR | keyS | keyT | keyU | keyV
  | keyW | keyX | keyY | keyZ | keyF1 | keyF2 | keyF3 | keyF4 | keyF5 | keyF6 | keyF7 | keyF8 | keyF9 | keyF10
  | keyF11 | keyF12 | keyEquals | keyMinus | keyPlus | keyFslash | keyBslash | keyRbracket | keyLbracket
  | keyPeriod | keyComma | keyBacktick | keySingleQuote | keySemiColon
  deriving DecidableEq, Repr

def CTRL_MASK : ℕ := 1
def ALT_MASK : ℕ := 2
def SHIFT_MASK : ℕ := 4
def RELEASE_MASK : ℕ := 8

def MAX_KEY_BUFFER_SIZE : ℕ := 20

structure KeyEvent where
  code : ℕ
  masks : ℕ
  deriving DecidableEq, Repr

structure Keyboard where
  keyBuffer : ℕ → KeyEvent
  keyBufferPos : ℕ
  keyBufferTail : ℕ
  currentMasks : ℕ

/-- What an interrupt finds: the bytes of the data port, the byte behind the four of `key_codes`, and the words behind
`key_lookup`. -/
structure KeyInput where
  inportb : ℕ → ℕ
  heapByte : ℕ
  beyond : ℕ → ℕ

def keyLookup : List KernelScancode :=
  [.keyNull, .keyEsc, .key1, .key2, .key3, .key4, .key5, .key6, .key7, .key8, .key9, .key0, .keyMinus, .keyEquals,
    .keyBackspace, .keyTab, .keyQ, .keyW, .keyE, .keyR, .keyT, .keyY, .keyU, .keyI, .keyO, .keyP, .keyLbracket,
    .keyRbracket, .keyReturn, .keyCtrl, .keyA, .keyS, .keyD, .keyF, .keyG, .keyH, .keyJ, .keyK, .keyL, .keySemiColon,
    .keySingleQuote, .keyBacktick, .keyShift, .keyBslash, .keyZ, .keyX, .keyC, .keyV, .keyB, .keyN, .keyM, .keyComma,
    .keyPeriod, .keyFslash, .keyShift, .keyNull, .keyAlt, .keySpace, .keyCapslock, .keyF1, .keyF2, .keyF3, .keyF4,
    .keyF5, .keyF6, .keyF7, .keyF8, .keyF9, .keyF10, .keyNull, .keyNull, .keyNull, .keyNull, .keyNull, .keyNull,
    .keyNull, .keyNull, .keyNull, .keyNull, .keyNull, .keyNull, .keyNull, .keyNull, .keyNull, .keyNull, .keyNull,
    .keyNull, .keyF11, .keyF12]

def lookupKey (e : KeyInput) (i : ℕ) : ℕ :=
  match keyLookup[i]? with
  | some key => key.ctorIdx
  | none => e.beyond i % 2 ^ 32

/-- The loop over the bytes of a scancode, with `n` to go; `bytesIn` is where it stops. -/
def readCodes (e : KeyInput) : ℕ → (bytesIn : ℕ) → (keyCodes : ℕ → ℕ) → (ℕ → ℕ) × ℕ
  | 0, bytesIn, keyCodes => (keyCodes, bytesIn)
  | n + 1, bytesIn, keyCodes =>
    let code := e.inportb bytesIn % 256
    let keyCodes := Function.update keyCodes bytesIn code
    if code ≠ 0xE0 then (keyCodes, bytesIn) else readCodes e n (bytesIn + 1) keyCodes

def handleKeychange (e : KeyInput) (s : Keyboard) : Keyboard :=
  let (keyCodes, bytesIn) := readCodes e 4 0 fun i => if i < 4 then 0 else e.heapByte % 256
  let pos := (s.keyBufferPos + 1) % MAX_KEY_BUFFER_SIZE
  let key := lookupKey e (keyCodes bytesIn % 0x80)
  let masks := if keyCodes bytesIn > 0x80 then RELEASE_MASK else 0
  let currentMasks :=
    if key = KernelScancode.keyShift.ctorIdx then
      if masks &&& RELEASE_MASK ≠ 0 then s.currentMasks &&& (0xFF - SHIFT_MASK) else s.currentMasks ||| SHIFT_MASK
    else s.currentMasks
  { s with
    keyBuffer := Function.update s.keyBuffer pos ⟨key % 256, masks ||| currentMasks⟩
    keyBufferPos := pos
    currentMasks := currentMasks }

/-- `next_keycode` from its test on. -/
def takeKeycode (s : Keyboard) : KeyEvent × Keyboard :=
  let tail := (s.keyBufferTail + 1) % MAX_KEY_BUFFER_SIZE
  (s.keyBuffer tail, { s with keyBufferTail := tail })

def nextKeycode (s : Keyboard) : KeyEvent × Keyboard :=
  if s.keyBufferTail = s.keyBufferPos then (⟨KernelScancode.keyNull.ctorIdx, 0⟩, s) else takeKeycode s

def keyEvent (e : KeyInput) (s : Keyboard) : KeyEvent := (handleKeychange e s).keyBuffer (handleKeychange e s).keyBufferPos

example : keyEvent ⟨fun i => if i = 0 then 0xE0 else 0x9E, 0, fun _ => 0⟩ ⟨fun _ => ⟨0, 0⟩, 0, 0, SHIFT_MASK⟩ =
    ⟨KernelScancode.keyA.ctorIdx, RELEASE_MASK ||| SHIFT_MASK⟩ := by decide

def Keyboard.ring {α : Type} (s : Keyboard) (notes : ℕ → α) : RingBuffer (α × KeyEvent) where
  slots := fun i => (notes i, s.keyBuffer i)
  pos := s.keyBufferPos
  tail := s.keyBufferTail

variable {α : Type} {e : KeyInput} {s : Keyboard} {notes : ℕ → α} {a : α}

lemma handleKeychange_pos : (handleKeychange e s).keyBufferPos = (s.keyBufferPos + 1) % MAX_KEY_BUFFER_SIZE := rfl

lemma handleKeychange_tail : (handleKeychange e s).keyBufferTail = s.keyBufferTail := rfl

lemma handleKeychange_buffer :
    (handleKeychange e s).keyBuffer = Function.update s.keyBuffer (handleKeychange e s).keyBufferPos (keyEvent e s) := by
  have hk : keyEvent e s = _ := Function.update_self ..
  rw [hk]
  rfl

lemma handleKeychange_ring :
    (handleKeychange e s).ring (Function.update notes (handleKeychange e s).keyBufferPos a) =
      (s.ring notes).push MAX_KEY_BUFFER_SIZE (a, keyEvent e s) := by
  simp only [Keyboard.ring, RingBuffer.push, handleKeychange_buffer, handleKeychange_pos, handleKeychange_tail, RingBuffer.mk.injEq, and_true]
  funext i
  by_cases hi : i = (s.keyBufferPos + 1) % MAX_KEY_BUFFER_SIZE
  · rw [hi, Function.update_self, Function.update_self, Function.update_self]
  · rw [Function.update_of_ne hi, Function.update_of_ne hi, Function.update_of_ne hi]

lemma takeKeycode_ring (s : Keyboard) (notes : ℕ → α) :
    (notes (takeKeycode s).2.keyBufferTail, (takeKeycode s).1) = (s.ring notes).front MAX_KEY_BUFFER_SIZE ∧
      (takeKeycode s).2.ring notes = (s.ring notes).advance MAX_KEY_BUFFER_SIZE := ⟨rfl, rfl⟩

end WordOS.Drivers
