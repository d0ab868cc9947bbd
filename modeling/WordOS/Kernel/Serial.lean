import WordOS.Machine
import WordOS.Lib.Loops
import WordOS.Memory.Strings
import Mathlib.Tactic

/-! The numbers that `kernel.c` logs: their digits come in reverse order and are turned round in place. -/

namespace WordOS.Kernel

open Machine Lib.Loops Memory

/-- The array `final` has 64 characters. -/
def getFinal (final : ℕ → UInt8) (i : ℕ) : Exec UInt8 := if i < 64 then .ok (final i) else .error .fault

def setFinal (final : ℕ → UInt8) (i : ℕ) (ch : UInt8) : Exec (ℕ → UInt8) :=
  if i < 64 then .ok (Function.update final i ch) else .error .fault

/-- `'0' + value` or `'a' + (value - 10)`. -/
def digitChar (value : ℕ) : UInt8 := if value < 10 then 48 + value.toUInt8 else 97 + (value - 10).toUInt8

structure Digits where
  num : ℕ
  i : ℕ
  final : ℕ → UInt8

def digitBody (base : ℕ) (d : Digits) : Exec (Option Digits) :=
  if d.num = 0 then .ok none
  else do
    let final ← setFinal d.final d.i (digitChar (d.num % base))
    return some ⟨d.num / base, u32 (d.i + 1), final⟩

structure Swaps where
  j : ℕ
  k : ℕ
  final : ℕ → UInt8

def swapBody (s : Swaps) : Exec (Option Swaps) :=
  if s.j ≤ s.k then do
    let cj ← getFinal s.final s.j
    let ck ← getFinal s.final s.k
    let final ← setFinal s.final s.j ck
    let final ← setFinal final s.k cj
    return some ⟨u32 (s.j + 1), u32 (s.k + 2 ^ 32 - 1), final⟩
  else .ok none

/-- The digits of `num` from `start` on, turned round, and the NUL behind them. -/
def writeDigits (base start num : ℕ) (final : ℕ → UInt8) : Exec (ℕ → UInt8) := do
  let d ← loop .fuel (digitBody base) 33 ⟨num, start, final⟩
  let s ← loop .fuel swapBody 65 ⟨start, u32 (d.i + 2 ^ 32 - 1), d.final⟩
  setFinal s.final d.i 0

/-- What goes to the port; `stack` is what the array holds before. -/
def logIntegerToSerial (stack : ℕ → UInt8) (number : UInt64) : Exec (List UInt8) :=
  if number < 10 then do
    let final ← setFinal stack 0 (48 + number.toUInt8)
    let final ← setFinal final 1 0
    return cString final 64
  else do
    let final ← writeDigits 10 0 (u32 number.toNat) stack
    return cString final 64

def printHex (stack : ℕ → UInt8) (number : UInt64) : Exec (List UInt8) :=
  if number = 0 then .ok (literal ['0', 'x', '0'])
  else do
    let final ← setFinal stack 0 48
    let final ← setFinal final 1 120
    let final ← writeDigits 16 2 (u32 number.toNat) final
    return cString final 64

example : printHex (fun _ => 7) 0x1f0 = .ok (literal ['0', 'x', '1', 'f', '0']) := by rfl

end WordOS.Kernel
