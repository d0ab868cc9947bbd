import WordOS.Kernel.SerialNumerals
import WordOS.Programs.Terminal

/-! `term_render_hex` beside `print_hex`. -/

namespace WordOS.Programs

open Machine Kernel Memory Lib.Loops

/-- The string that `term_render_hex` makes; its loops are those of `print_hex`. -/
def termRenderText (stack : ℕ → UInt8) (number : UInt32) : Exec (List UInt8) :=
  if number = 0 then .ok (literal ['0', 'x', '0'])
  else do
    let final ← setFinal stack 0 48
    let final ← setFinal final 1 120
    let final ← writeDigits 16 2 number.toNat final
    return cString final 64

def termRenderHex (stack : ℕ → UInt8) (s : Terminal) (number : UInt32) : Exec Terminal := do
  let text ← termRenderText stack number
  writeTextBuffer s text

lemma termRenderText_eq (stack : ℕ → UInt8) (number : UInt32) :
    termRenderText stack number = printHex stack number.toUInt64 := by
  have hzero : number = 0 ↔ number.toUInt64 = 0 := by
    rw [← UInt32.toNat_inj, ← UInt64.toNat_inj]
    rfl
  have hlow : u32 number.toUInt64.toNat = number.toNat := u32_eq number.toNat_lt
  simp only [termRenderText, printHex, hzero, hlow]

lemma termRenderText_ok (stack : ℕ → UInt8) (number : UInt32) :
    termRenderText stack number = .ok (48 :: 120 :: Lib.Numerals.numeral digitChar 16 number.toNat) := by
  rw [termRenderText_eq]
  exact printHex_numeral number.toNat_lt

lemma termRenderHex_eq (stack : ℕ → UInt8) (s : Terminal) (number : UInt32) :
    termRenderHex stack s number = writeTextBuffer s (48 :: 120 :: Lib.Numerals.numeral digitChar 16 number.toNat) := by
  rw [termRenderHex, termRenderText_ok, ok_bind]

/-- The terminal shows the numeral that is logged, whatever the stack holds in the one and the other. -/
theorem termRender_numeral (stack stack' : ℕ → UInt8) (number : UInt32) : ∃ text,
    termRenderText stack number = .ok (48 :: 120 :: text) ∧ IsNumeral 16 number.toNat text ∧
      printHex stack' number.toUInt64 = .ok (48 :: 120 :: text) ∧
      ∀ s, termRenderHex stack s number = writeTextBuffer s (48 :: 120 :: text) :=
  ⟨_, termRenderText_ok stack number, isNumeral (by decide) le_rfl _, printHex_numeral number.toNat_lt,
    fun s => termRenderHex_eq stack s number⟩

end WordOS.Programs
