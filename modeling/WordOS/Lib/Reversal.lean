import Mathlib.Logic.Function.Basic
import Mathlib.Data.List.Basic
import Mathlib.Data.Nat.Basic

/-! Arrays as functions: a list that stands in one, and its reversal in place. -/

namespace WordOS.Lib.Reversal

variable {α : Type*} {f g : ℕ → α} {o j k i : ℕ} {l l' : List α} {a : α}

/-- The list `l` stands in `f` from `o` on. -/
def Spells (f : ℕ → α) (o : ℕ) (l : List α) : Prop := ∀ i < l.length, l[i]? = some (f (o + i))

def mirrored (f : ℕ → α) (j k : ℕ) : ℕ → α := fun i => if j ≤ i ∧ i ≤ k then f (j + k - i) else f i

lemma mirrored_of_le (h : k ≤ j) : mirrored f j k = f := by
  funext i
  rw [mirrored]
  split
  · congr 1
    omega
  · rfl

lemma mirrored_swap (h : j < k) :
    mirrored (Function.update (Function.update f j (f k)) k (f j)) (j + 1) (k - 1) = mirrored f j k := by
  funext i
  simp only [mirrored, Function.update_apply]
  by_cases hin : j ≤ i ∧ i ≤ k
  · by_cases hj : i = j
    · subst hj
      rw [if_neg (by omega), if_neg (by omega), if_pos rfl, if_pos (by omega)]
      congr 1
      omega
    · by_cases hk : i = k
      · subst hk
        rw [if_neg (by omega), if_pos rfl, if_pos (by omega)]
        congr 1
        omega
      · rw [if_pos (by omega), if_neg (by omega), if_neg (by omega), if_pos hin]
        congr 1
        omega
  · rw [if_neg (by omega), if_neg (by omega), if_neg (by omega), if_neg hin]

namespace Spells

lemma nil (f : ℕ → α) (o : ℕ) : Spells f o [] := fun _ h => absurd h (Nat.not_lt_zero _)

lemma congr (h : Spells f o l) (hfg : ∀ i < l.length, g (o + i) = f (o + i)) : Spells g o l :=
  fun i hi => (h i hi).trans (congrArg some (hfg i hi).symm)

lemma append (h : Spells f o l) (h' : Spells f (o + l.length) l') : Spells f o (l ++ l') := by
  intro i hi
  rw [List.length_append] at hi
  by_cases hl : i < l.length
  · rw [List.getElem?_append_left hl]
    exact h i hl
  · rw [List.getElem?_append_right (by omega), h' (i - l.length) (by omega)]
    congr 2
    omega

lemma left (h : Spells f o (l ++ l')) : Spells f o l := by
  intro i hi
  rw [← List.getElem?_append_left hi]
  exact h i (by rw [List.length_append]; omega)

lemma right (h : Spells f o (l ++ l')) : Spells f (o + l.length) l' := by
  intro i hi
  have hh := h (l.length + i) (by rw [List.length_append]; omega)
  rw [List.getElem?_append_right (Nat.le_add_right ..), Nat.add_sub_cancel_left] at hh
  rw [hh, Nat.add_assoc]

lemma snoc (h : Spells f o l) : Spells (Function.update f (o + l.length) a) o (l ++ [a]) := by
  apply append
  · exact h.congr fun i hi => Function.update_of_ne (by omega) ..
  · intro i hi
    obtain rfl : i = 0 := Nat.lt_one_iff.mp hi
    rw [Nat.add_zero, Function.update_self]
    rfl

lemma reverse (h : Spells f o l) : Spells (mirrored f o (o + l.length - 1)) o l.reverse := by
  intro i hi
  rw [List.length_reverse] at hi
  rw [List.getElem?_reverse hi, h _ (by omega), mirrored, if_pos (by omega)]
  congr 2
  omega

lemma unique (h : Spells f o l) (h' : Spells f o l') (hlen : l.length = l'.length) : l = l' := by
  apply List.ext_getElem?
  intro i
  by_cases hi : i < l.length
  · rw [h i hi, h' i (hlen ▸ hi)]
  · rw [List.getElem?_eq_none (by omega), List.getElem?_eq_none (by omega)]

lemma map_range (h : Spells f o l) : l = (List.range l.length).map fun i => f (o + i) := by
  apply h.unique
  · intro i hi
    rw [List.length_map, List.length_range] at hi
    simp only [List.getElem?_map, List.getElem?_range hi, Option.map_some]
  · simp only [List.length_map, List.length_range]

end Spells

end WordOS.Lib.Reversal
