import WordOS.Lib.Reversal
import Mathlib.Data.List.GetD

/-! Strings that end with a NUL, and the comparison of `string.c`. -/

namespace WordOS.Memory

open Lib.Reversal

def cString (string : ℕ → UInt8) (n : ℕ) : List UInt8 := ((List.range n).map string).takeWhile (· ≠ 0)

def literal (text : List Char) : List UInt8 := text.map Char.toUInt8

def bytesOf (text : List UInt8) : ℕ → UInt8 := fun i => text.getD i 0

/-- The loop of `strcmp`, from `i` on with `n` characters to go. -/
def strcmpFrom (s1 s2 : ℕ → UInt8) : (n : ℕ) → (i : ℕ) → UInt8
  | 0, _ => 1
  | n + 1, i => if s1 i ≠ s2 i then 0 else strcmpFrom s1 s2 n (i + 1)

def strcmp (s1 s2 : ℕ → UInt8) (size : ℕ) : UInt8 := strcmpFrom s1 s2 size 0

variable {string s1 s2 : ℕ → UInt8} {n i : ℕ} {text : List UInt8}

/-- `text` is what stands before the first NUL. -/
structure IsString (string : ℕ → UInt8) (text : List UInt8) : Prop where
  spells : Spells string 0 text
  nul : string text.length = 0
  nonzero : ∀ ch ∈ text, ch ≠ 0

lemma IsString.cString (h : IsString string text) (hn : text.length < n) : cString string n = text := by
  obtain ⟨m, rfl⟩ : ∃ m, n = text.length + (m + 1) := ⟨n - text.length - 1, by omega⟩
  have htext : (List.range text.length).map string = text := by
    have hh := h.spells.map_range
    simp only [Nat.zero_add] at hh
    exact hh.symm
  rw [Memory.cString, List.range_add, List.map_append, htext, List.takeWhile_append_of_pos (by simpa using h.nonzero)]
  simp [List.range_succ_eq_map, h.nul]

lemma strcmpFrom_eq : strcmpFrom s1 s2 n i ≠ 0 ↔ ∀ j < n, s1 (i + j) = s2 (i + j) := by
  induction n generalizing i with
  | zero => simp [strcmpFrom]
  | succ n ih =>
    rw [strcmpFrom]
    by_cases h0 : s1 i = s2 i
    · rw [if_neg (not_not.mpr h0), ih]
      constructor
      · intro h j hj
        cases j with
        | zero => exact h0
        | succ j =>
          rw [show i + (j + 1) = i + 1 + j by omega]
          exact h j (by omega)
      · intro h j hj
        rw [show i + 1 + j = i + (j + 1) by omega]
        exact h (j + 1) (by omega)
    · rw [if_pos h0]
      exact iff_of_false (not_not.mpr rfl) fun h => h0 (h 0 (Nat.succ_pos n))

/-- `strcmp` does not look at the end of `s2`. -/
lemma strcmp_iff (name : List UInt8) (h : IsString s2 text) (hne : 0 ∉ name) :
    strcmp (bytesOf name) s2 name.length ≠ 0 ↔ name <+: text := by
  simp only [strcmp, strcmpFrom_eq, Nat.zero_add, bytesOf]
  rw [List.prefix_iff_getElem?]
  constructor
  · intro hsame i hi
    have hi' : i < text.length := by
      by_contra hge
      have hlen := hsame text.length (by omega)
      rw [h.nul, List.getD_eq_getElem _ _ (by omega)] at hlen
      exact hne (hlen ▸ List.getElem_mem _)
    have hh := hsame i hi
    rw [List.getD_eq_getElem _ _ hi] at hh
    rw [h.spells i hi', Nat.zero_add, hh]
  · intro hpre j hj
    have hj' : j < text.length := by
      by_contra hge
      have hh := hpre j hj
      rw [List.getElem?_eq_none (by omega)] at hh
      cases hh
    have hh := hpre j hj
    rw [h.spells j hj', Nat.zero_add, Option.some.injEq] at hh
    rw [List.getD_eq_getElem _ _ hj, hh]

lemma isString_bytesOf (hne : 0 ∉ text) : IsString (bytesOf text) text where
  spells i hi := by
    rw [Nat.zero_add, bytesOf, List.getD_eq_getElem _ _ hi, List.getElem?_eq_getElem hi]
  nul := List.getD_eq_default _ _ (le_refl _)
  nonzero _ hch := ne_of_mem_of_not_mem hch hne

lemma isString_of_range (h : (List.range (text.length + 1)).map string = text ++ [0]) (hne : 0 ∉ text) :
    IsString string text where
  spells i hi := by
    have hh := congrArg (fun l => l[i]?) h
    simp only [List.getElem?_map, List.getElem?_range (Nat.lt_succ_of_lt hi), Option.map_some, List.getElem?_append_left hi] at hh
    rw [← hh, Nat.zero_add]
  nul := by
    have hh := congrArg (fun l => l[text.length]?) h
    simpa using hh
  nonzero _ hch := ne_of_mem_of_not_mem hch hne

namespace IsString

variable (h : IsString string text)
include h

lemma getElem {i : ℕ} (hi : i < text.length) : string i = text[i] := by
  have hh := h.spells i hi
  rw [List.getElem?_eq_getElem hi, Nat.zero_add, Option.some.injEq] at hh
  exact hh.symm

omit h in
lemma part {before part after : List UInt8} (h : IsString string (before ++ (part ++ after))) : Spells string before.length part := by
  have hh := h.spells.right.left
  rwa [Nat.zero_add] at hh

lemma ne_zero {i : ℕ} (hi : i < text.length) : string i ≠ 0 := by
  rw [h.getElem hi]
  exact h.nonzero _ (List.getElem_mem hi)

lemma lt_of_ne {i : ℕ} (hi : i ≤ text.length) (hne : string i ≠ 0) : i < text.length := by
  rcases Nat.lt_or_eq_of_le hi with hlt | rfl
  · exact hlt
  · exact absurd h.nul hne

lemma getD_drop {i k : ℕ} (hi : i + k ≤ text.length) : (text.drop i).getD k 0 = string (i + k) := by
  rw [List.getD_eq_getElem?_getD, List.getElem?_drop]
  rcases Nat.lt_or_eq_of_le hi with hlt | heq
  · rw [List.getElem?_eq_getElem hlt, h.getElem hlt]
    rfl
  · rw [heq, h.nul, List.getElem?_eq_none (le_refl _)]
    rfl

end IsString

end WordOS.Memory
