import Mathlib.Data.Finset.Lattice.Fold
import Mathlib.Data.List.Basic
import Mathlib.Order.Lattice.Nat
import Mathlib.Tactic.Common

/-! A line that is typed and corrected at its end. -/

namespace WordOS.Lib.LineEditing

variable {α : Type*} [DecidableEq α] (del : α) (width : ℕ)

/-- One key: `del` takes the last character back, and a full line takes no more. -/
def editLine (text : List α) (ch : α) : List α :=
  if ch = del then text.dropLast else if text.length = width then text else text ++ [ch]

def edited (chars : List α) : List α := chars.foldl (editLine del width) []

def longest (chars : List α) : ℕ := (Finset.range (chars.length + 1)).sup fun k => (edited del width (chars.take k)).length

variable {del width} {chars text : List α} {ch : α}

lemma edited_snoc : edited del width (chars ++ [ch]) = editLine del width (edited del width chars) ch := by
  simp only [edited, List.foldl_append, List.foldl_cons, List.foldl_nil]

lemma longest_nil : longest del width [] = 0 := rfl

lemma longest_snoc :
    longest del width (chars ++ [ch]) = max (longest del width chars) (edited del width (chars ++ [ch])).length := by
  have hlen : (chars ++ [ch]).length = chars.length + 1 := by simp only [List.length_append, List.length_singleton]
  have hlast : (chars ++ [ch]).take (chars.length + 1) = chars ++ [ch] := hlen ▸ List.take_length
  rw [longest, hlen, Finset.range_add_one, Finset.sup_insert, hlast, max_comm, longest]
  apply congrArg (max · _)
  apply Finset.sup_congr rfl
  intro k hk
  rw [List.take_append_of_le_length (Nat.lt_succ_iff.mp (Finset.mem_range.mp hk))]

variable (del width) in
lemma le_longest (chars : List α) : (edited del width chars).length ≤ longest del width chars := by
  have hmem : chars.length ∈ Finset.range (chars.length + 1) := Finset.self_mem_range_succ _
  have hle := Finset.le_sup (f := fun k => (edited del width (chars.take k)).length) hmem
  rwa [List.take_length] at hle

lemma mem_edited {c : α} (h : c ∈ edited del width chars) : c ∈ chars ∧ c ≠ del := by
  induction chars using List.reverseRecOn with
  | nil => exact absurd h List.not_mem_nil
  | append_singleton chars ch ih =>
    rw [edited_snoc, editLine] at h
    rw [List.mem_append]
    split_ifs at h with hdel hfull
    · have hh := ih (List.dropLast_subset _ h)
      exact ⟨Or.inl hh.1, hh.2⟩
    · have hh := ih h
      exact ⟨Or.inl hh.1, hh.2⟩
    · rcases List.mem_append.mp h with hmem | hmem
      · exact ⟨Or.inl (ih hmem).1, (ih hmem).2⟩
      · exact ⟨Or.inr hmem, by rwa [List.mem_singleton.mp hmem]⟩

lemma edited_of_fits (hch : ∀ c ∈ chars, c ≠ del) (h : chars.length ≤ width) : edited del width chars = chars := by
  induction chars using List.reverseRecOn with
  | nil => rfl
  | append_singleton chars ch ih =>
    rw [List.length_append, List.length_singleton] at h
    simp only [List.mem_append, List.mem_singleton] at hch
    rw [edited_snoc, ih (fun c hc => hch c (Or.inl hc)) (by omega), editLine, if_neg (hch ch (Or.inr rfl)), if_neg (by omega)]

end WordOS.Lib.LineEditing
