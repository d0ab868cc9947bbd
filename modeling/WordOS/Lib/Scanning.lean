import WordOS.Lib.Loops
import Mathlib.Data.List.Basic

/-! Loops that move a cursor over a text which is made of items. -/

namespace WordOS.Lib.Scanning

open Loops

variable {α σ ε : Type*}

def Made (Item : List α → Prop) (text : List α) : Prop := ∃ items : List (List α), (∀ i ∈ items, Item i) ∧ text = items.flatten

variable {Item : List α → Prop} {stride : List α → ℕ} {body : σ → Except ε (Option σ)} {pos : σ → ℕ} {text item rest : List α}
  {s t : σ}

lemma Made.nil : Made Item [] := ⟨[], fun _ h => absurd h List.not_mem_nil, rfl⟩

lemma Made.cons (hitem : Item item) (hrest : Made Item rest) : Made Item (item ++ rest) := by
  obtain ⟨items, hitems, rfl⟩ := hrest
  exact ⟨item :: items, List.forall_mem_cons.mpr ⟨hitem, hitems⟩, rfl⟩

lemma Made.cases (h : Made Item text) (hne : text ≠ []) : ∃ item rest, text = item ++ rest ∧ Item item ∧ Made Item rest := by
  obtain ⟨items, hitems, rfl⟩ := h
  cases items with
  | nil => exact absurd rfl hne
  | cons item items =>
    rw [List.forall_mem_cons] at hitems
    exact ⟨item, _, rfl, hitems.1, items, hitems.2, rfl⟩

/-- The loop looks at no place behind `n`, and stops there if no pass fails; `looked` is the last place of a pass. -/
structure StopsAt (stuck : ε) (body : σ → Except ε (Option σ)) (pos : σ → ℕ) (looked : ℕ → ℕ) (n : ℕ) (s : σ) : Prop where
  looks : ∀ t, Reaches body s t → looked (pos t) ≤ n
  ends : (∃ t, loop stuck body (n + 1) s = .ok t ∧ pos t = n) ∨ ∃ t e, Reaches body s t ∧ body t = .error e

/-- The body moves the cursor by the stride of what lies ahead, and leaves the loop at the end of the text. -/
structure Strides (body : σ → Except ε (Option σ)) (pos : σ → ℕ) (stride : List α → ℕ) (text : List α) : Prop where
  moves : ∀ {s t}, pos s < text.length → body s = .ok (some t) → pos t = pos s + stride (text.drop (pos s))
  stays : ∀ {s}, pos s < text.length → body s ≠ .ok none
  leaves : ∀ {s}, pos s = text.length → body s = .ok none

lemma Strides.inside (h : Strides body pos stride text) (hitem : ∀ item rest, Item item → stride (item ++ rest) = item.length)
    (hmade : Made Item text) (hs : pos s = 0) (hreach : Reaches body s t) : pos t ≤ text.length := by
  suffices hI : ∃ read rest, text = read ++ rest ∧ pos t = read.length ∧ Made Item rest by
    obtain ⟨read, rest, htext, hpos, -⟩ := hI
    rw [htext, List.length_append]
    omega
  refine hreach.invariant (I := fun t => ∃ read rest, text = read ++ rest ∧ pos t = read.length ∧ Made Item rest) ?_ ?_
  · rintro t u ⟨read, rest, htext, hpos, hrest⟩ hu
    rcases eq_or_ne rest [] with rfl | hne
    · rw [h.leaves (by rw [hpos, htext, List.append_nil])] at hu
      cases hu
    · have hlt : pos t < text.length := by
        have hlen := List.length_pos_iff.mpr hne
        rw [htext, List.length_append]
        omega
      obtain ⟨item, rest, rfl, hi, hrest⟩ := hrest.cases hne
      refine ⟨read ++ item, rest, by rw [htext, List.append_assoc], ?_, hrest⟩
      rw [h.moves hlt hu, hpos, htext, List.drop_left, hitem _ _ hi, List.length_append]
  · exact ⟨[], text, rfl, hs, hmade⟩

lemma Strides.stopsAt {stuck : ε} {looked : ℕ → ℕ} (h : Strides body pos stride text)
    (hitem : ∀ item rest, Item item → stride (item ++ rest) = item.length) (hpos : ∀ rest, rest ≠ [] → 0 < stride rest)
    (hlook : ∀ i ≤ text.length, looked i ≤ text.length) (hmade : Made Item text) (hs : pos s = 0) :
    StopsAt stuck body pos looked text.length s := by
  have hin : ∀ t, Reaches body s t → pos t ≤ text.length := fun t => h.inside hitem hmade hs
  have hdown : ∀ t u, Reaches body s t → body t = .ok (some u) → text.length - pos u < text.length - pos t := by
    intro t u ht hu
    rcases Nat.lt_or_eq_of_le (hin t ht) with hlt | heq
    · have hmove := h.moves hlt hu
      have hle := hin u (ht.tail hu)
      have hstep := hpos (text.drop (pos t)) (by rw [← List.length_pos_iff, List.length_drop]; omega)
      omega
    · rw [h.leaves heq] at hu
      cases hu
  refine ⟨fun t ht => hlook _ (hin t ht), ?_⟩
  apply (loop_ends (v := fun t => text.length - pos t) hdown (Nat.lt_succ_of_le (Nat.sub_le _ _))).imp_left
  rintro ⟨t, ht, hr, hleave⟩
  refine ⟨t, ht, ?_⟩
  rcases Nat.lt_or_eq_of_le (hin t hr) with hlt | heq
  · exact absurd hleave (h.stays hlt)
  · exact heq

/-- A run whose cursor never leaves the text has gone over whole items. -/
lemma Strides.made (h : Strides body pos stride text) {I : σ → Prop}
    (hpass : ∀ s, I s → pos s < text.length → ∃ t, body s = .ok (some t) ∧ I t) (hpos : ∀ rest, rest ≠ [] → 0 < stride rest)
    (htake : ∀ rest, rest ≠ [] → stride rest ≤ rest.length → Item (rest.take (stride rest))) (hI : I s)
    (hin : ∀ t, Reaches body s t → pos t ≤ text.length) : Made Item (text.drop (pos s)) := by
  induction hn : text.length - pos s using Nat.strong_induction_on generalizing s with
  | _ n ih =>
    rcases Nat.lt_or_eq_of_le (hin s (.refl s)) with hlt | heq
    · obtain ⟨t, ht, hIt⟩ := hpass s hI hlt
      have hne : text.drop (pos s) ≠ [] := by
        rw [← List.length_pos_iff, List.length_drop]
        omega
      have hmove := h.moves hlt ht
      have hstep := hpos _ hne
      have hle := hin t ((Reaches.refl s).tail ht)
      have hrest := ih _ (by omega) hIt (fun u hu => hin u (hu.head ht)) rfl
      rw [hmove, ← List.drop_drop] at hrest
      have hitem := htake _ hne (by rw [List.length_drop]; omega)
      have hmade := hrest.cons hitem
      rwa [List.take_append_drop] at hmade
    · rw [heq, List.drop_length]
      exact Made.nil

end WordOS.Lib.Scanning
