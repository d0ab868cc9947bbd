import WordOS.Machine
import Mathlib.Logic.Function.Basic
import Mathlib.Tactic

/-! The physical page allocator of `pmm.c`: a bitmap of frames, first fit. -/

namespace WordOS.Memory

open Machine

/-- `frames` is what lies at the bitmap's address, by 32-bit words; the bitmap
itself is the first `num_frames` bytes of it, which is what `kinit` reserves. -/
structure Pmm where
  frames : ℕ → BitVec 32
  numFrames : ℕ

def NUM_FRAMES : ℕ := 10 * 1024 * 1024 / 4096

namespace Pmm

def readWord (s : Pmm) (i : ℕ) : Exec (BitVec 32) :=
  if 4 * i + 4 ≤ s.numFrames then .ok (s.frames i) else .error .fault

def setWord (s : Pmm) (i : ℕ) (w : BitVec 32) : Pmm :=
  { s with frames := Function.update s.frames i w }

def writeWord (s : Pmm) (i : ℕ) (w : BitVec 32) : Exec Pmm :=
  if 4 * i + 4 ≤ s.numFrames then .ok (s.setWord i w) else .error .fault

/-- The bit of frame `f`, set when the frame is taken. -/
def bit (s : Pmm) (f : ℕ) : Bool := (s.frames (f / 32)).getLsbD (f % 32)

end Pmm

/-- The inner loop of `get_first_frame`, from bit `j` on with `n` bits to go. -/
def scanWord (w : BitVec 32) (j : ℕ) : ℕ → Option ℕ
  | 0 => none
  | n + 1 => if w &&& (1#32 <<< j) = 0#32 then some j else scanWord w (j + 1) n

/-- The outer loop of `get_first_frame`, from word `i` on with `n` words to go. -/
def scanFrames (s : Pmm) (i : ℕ) : ℕ → Exec (Option ℕ)
  | 0 => .ok none
  | n + 1 => do
    let w ← s.readWord i
    if w ≠ 0xffffffff#32 then
      match scanWord w 0 32 with
      | some j => return some (i * 32 + j)
      | none => scanFrames s (i + 1) n
    else scanFrames s (i + 1) n

/-- `none` is the return value `-1`. -/
def getFirstFrame (s : Pmm) : Exec (Option ℕ) := scanFrames s 0 s.numFrames

def clearFrame (s : Pmm) (frame : ℕ) : Exec Pmm :=
  if frame > s.numFrames then return s
  else do
    let w ← s.readWord (frame / 32)
    s.writeWord (frame / 32) (w &&& ~~~(1#32 <<< (frame % 32)))

def setFrame (s : Pmm) (frame : ℕ) : Exec Pmm := do
  let w ← s.readWord (frame / 32)
  s.writeWord (frame / 32) (w ||| (1#32 <<< (frame % 32)))

def frameToPhysical (bitmap : ℕ) : ℕ := u32 (0x100000 + bitmap * 4096)

def physicalToFrame (physical : ℕ) : ℕ := u32 (physical + 2 ^ 32 - 0x100000) / 4096

def allocPhysPage (s : Pmm) : Exec (ℕ × Pmm) := do
  match ← getFirstFrame s with
  | none => return (0, s)
  | some firstFrame =>
    let s ← setFrame s firstFrame
    if frameToPhysical firstFrame > 0x1000000 then throw (.panic "Out of memory!")
    return (frameToPhysical firstFrame, s)

/-- The bitmap part of `kinit`; `memory` is what `pre_malloc` finds at the buffer's address. -/
def kinit (memory : ℕ → BitVec 32) : Exec Pmm :=
  let frames := fun i => if 4 * i + 4 ≤ NUM_FRAMES then 0#32 else memory i
  (List.range 48).foldlM setFrame ⟨frames, NUM_FRAMES⟩

end WordOS.Memory
