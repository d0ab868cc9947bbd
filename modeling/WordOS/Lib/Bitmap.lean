import Mathlib.Tactic

/-! One-bit masks over machine words, as bitmaps use them. -/

namespace WordOS.Lib.Bitmap

variable {n : ℕ} {w : BitVec n} {j k : ℕ}

lemma getLsbD_mask (hk : k < n) : (1#n <<< j).getLsbD k = decide (k = j) := by
  rw [BitVec.getLsbD_shiftLeft, BitVec.getLsbD_one]
  grind

lemma and_mask_eq_zero (hj : j < n) : w &&& (1#n <<< j) = 0#n ↔ w.getLsbD j = false := by
  constructor
  · intro h
    have hb := congrArg (fun v => v.getLsbD j) h
    simpa [getLsbD_mask hj] using hb
  · intro h
    apply BitVec.eq_of_getLsbD_eq
    intro i hi
    rw [BitVec.getLsbD_and, getLsbD_mask hi]
    by_cases he : i = j <;> simp [he, h]

lemma getLsbD_or_mask (hk : k < n) :
    (w ||| (1#n <<< j)).getLsbD k = (decide (k = j) || w.getLsbD k) := by
  rw [BitVec.getLsbD_or, getLsbD_mask hk, Bool.or_comm]

lemma getLsbD_and_not_mask (hk : k < n) :
    (w &&& ~~~(1#n <<< j)).getLsbD k = (decide (k ≠ j) && w.getLsbD k) := by
  rw [BitVec.getLsbD_and, BitVec.getLsbD_not, getLsbD_mask hk]
  by_cases he : k = j <;> simp [he, hk]

lemma eq_allOnes (h : ∀ i < n, w.getLsbD i = true) : w = BitVec.allOnes n := by
  apply BitVec.eq_of_getLsbD_eq
  intro i hi
  simp [h i hi, hi]

end WordOS.Lib.Bitmap
