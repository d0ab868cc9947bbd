import Mathlib.Order.Interval.Set.Disjoint
import Mathlib.Tactic
import Mathlib.Order.CompletePartialOrder

/-! Disjoint ranges of whole pages, each given by its base and its size. -/

namespace WordOS.Lib.Ranges

abbrev Range := ℕ × ℕ

def span (p : Range) : Set ℕ := Set.Ico p.1 (p.1 + p.2)

def Apart (p q : Range) : Prop := Disjoint (span p) (span q)

/-- The ranges consist of pages of `n` bytes, and no page is in two of them. -/
structure Tidy (n : ℕ) (l : List Range) : Prop where
  aligned : ∀ p ∈ l, n ∣ p.1 ∧ n ∣ p.2
  apart : l.Pairwise Apart

def cover (l : List Range) : Set ℕ := {x | ∃ p ∈ l, x ∈ span p}

variable {n k : ℕ} {p q p' : Range} {l l' : List Range}

lemma Apart.symm (h : Apart p q) : Apart q p := Disjoint.symm h

lemma Apart.mono (h : Apart p q) (hs : span p' ⊆ span p) : Apart p' q := Disjoint.mono_left hs h

lemma span_subset {b b' s s' : ℕ} (h : b ≤ b') (hs : b' + s' ≤ b + s) : span (b', s') ⊆ span (b, s) :=
  Set.Ico_subset_Ico h hs

lemma apart_cut (b s : ℕ) : Apart (b, k) (b + k, s) :=
  Set.Ico_disjoint_Ico_same

lemma cover_cons : cover (p :: l) = span p ∪ cover l := by
  ext x
  simp [cover]

lemma cover_append : cover (l ++ l') = cover l ∪ cover l' := by
  ext x
  simp [cover, or_and_right, exists_or]

lemma cover_perm (h : l.Perm l') : cover l = cover l' := by
  ext x
  simp [cover, h.mem_iff]

lemma cover_cut {b s : ℕ} (hk : k ≤ s) : cover ((b, k) :: (b + k, s - k) :: l) = cover ((b, s) :: l) := by
  have h : span (b, k) ∪ span (b + k, s - k) = span (b, s) := by
    have hs : b + k + (s - k) = b + s := by omega
    rw [span, span, span, hs]
    exact Set.Ico_union_Ico_eq_Ico (by omega) (by omega)
  rw [cover_cons, cover_cons, cover_cons, ← Set.union_assoc, h]

namespace Tidy

lemma perm (h : Tidy n l) (hp : l.Perm l') : Tidy n l' :=
  ⟨fun p hm => h.aligned p (hp.mem_iff.mpr hm), hp.pairwise h.apart fun hr => hr.symm⟩

lemma subperm (h : Tidy n l) (hs : l'.Subperm l) : Tidy n l' := by
  obtain ⟨m, hp, hm⟩ := hs
  have ht : Tidy n m := ⟨fun p hp => h.aligned p (hm.subset hp), h.apart.sublist hm⟩
  exact ht.perm hp

lemma shrink (h : Tidy n (p :: l)) (hn : n ∣ p'.1 ∧ n ∣ p'.2) (hs : span p' ⊆ span p) : Tidy n (p' :: l) := by
  obtain ⟨ha, hl⟩ := List.pairwise_cons.mp h.apart
  refine ⟨?_, List.pairwise_cons.mpr ⟨fun q hq => (ha q hq).mono hs, hl⟩⟩
  intro q hq
  rcases List.mem_cons.mp hq with rfl | hq
  · exact hn
  · exact h.aligned q (List.mem_cons_of_mem _ hq)

lemma cut {b s : ℕ} (h : Tidy n ((b, s) :: l)) (hn : n ∣ k) (hk : k ≤ s) : Tidy n ((b, k) :: (b + k, s - k) :: l) := by
  have hb := h.aligned (b, s) List.mem_cons_self
  have hfst : Tidy n ((b, k) :: l) := h.shrink ⟨hb.1, hn⟩ (span_subset le_rfl (by omega))
  have hsnd : Tidy n ((b + k, s - k) :: l) :=
    h.shrink ⟨(Nat.dvd_add_right hb.1).mpr hn, Nat.dvd_sub hb.2 hn⟩ (span_subset (by omega) (by omega))
  refine ⟨?_, List.pairwise_cons.mpr ⟨?_, hsnd.apart⟩⟩
  · intro q hq
    rcases List.mem_cons.mp hq with rfl | hq
    · exact ⟨hb.1, hn⟩
    · exact hsnd.aligned q hq
  · intro q hq
    rcases List.mem_cons.mp hq with rfl | hq
    · exact apart_cut b (s - k)
    · exact (List.pairwise_cons.mp hfst.apart).1 q hq

end Tidy

end WordOS.Lib.Ranges
