import Mathlib.Data.Nat.Digits.Lemmas
import Mathlib.Tactic.Linarith

/-! Numerals in any base, and reading them back. -/

namespace WordOS.Lib.Numerals

variable {α : Type*} {digit : ℕ → α} {number : α → ℕ} {b n : ℕ}

/-- The most significant digit comes first, and it is not `0` unless it is the only one. -/
def numeral (digit : ℕ → α) (b n : ℕ) : List α := if n = 0 then [digit 0] else (Nat.digits b n).reverse.map digit

def value (number : α → ℕ) (b : ℕ) (l : List α) : ℕ := l.foldl (fun v a => b * v + number a) 0

lemma numeral_of_ne (h : n ≠ 0) : numeral digit b n = (Nat.digits b n).reverse.map digit := if_neg h

lemma value_append_singleton (l : List α) (a : α) : value number b (l ++ [a]) = b * value number b l + number a := by
  simp only [value, List.foldl_append, List.foldl_cons, List.foldl_nil]

lemma value_reverse (digits : List ℕ) (h : ∀ d ∈ digits, number (digit d) = d) :
    value number b (digits.reverse.map digit) = Nat.ofDigits b digits := by
  induction digits with
  | nil => rfl
  | cons d digits ih =>
    rw [List.reverse_cons, List.map_append, List.map_singleton, value_append_singleton, h d (List.mem_cons_self ..),
      ih fun d' hd' => h d' (List.mem_cons_of_mem _ hd'), Nat.ofDigits_cons, Nat.add_comm]

lemma value_numeral (hb : 1 < b) (h : ∀ d < b, number (digit d) = d) (n : ℕ) : value number b (numeral digit b n) = n := by
  by_cases hn : n = 0
  · rw [hn, numeral, if_pos rfl, value, List.foldl_cons, List.foldl_nil, h 0 (by omega), Nat.mul_zero, Nat.add_zero]
  · rw [numeral_of_ne hn, value_reverse _ fun d hd => h d (Nat.digits_lt_base hb hd), Nat.ofDigits_digits]

lemma numeral_head (digit : ℕ → α) (hb : 1 < b) (hn : n ≠ 0) : ∃ d, 0 < d ∧ d < b ∧ (numeral digit b n).head? = some (digit d) := by
  have hne : Nat.digits b n ≠ [] := fun h => hn (Nat.digits_eq_nil_iff_eq_zero.mp h)
  refine ⟨(Nat.digits b n).getLast hne, Nat.pos_of_ne_zero (Nat.getLast_digit_ne_zero b hn),
    Nat.digits_lt_base hb (List.getLast_mem hne), ?_⟩
  rw [numeral_of_ne hn, List.head?_map, List.head?_reverse, List.getLast?_eq_getLast_of_ne_nil hne, Option.map_some]

lemma length_digits_le {k : ℕ} (hb : 1 < b) (h : n < b ^ k) : (Nat.digits b n).length ≤ k :=
  (Nat.digits_length_le_iff hb n).mpr h

end WordOS.Lib.Numerals
