import Mathlib.Data.Nat.Count
import Mathlib.Tactic.SplitIfs

/-! The elements of a set of numbers in order: the one with `k` below it. -/

namespace WordOS.Lib.Ranks

variable {p q : ℕ → Prop} [DecidablePred p] [DecidablePred q] {k l f g : ℕ}

def IsNth (p : ℕ → Prop) [DecidablePred p] (k f : ℕ) : Prop := p f ∧ Nat.count p f = k

lemma IsNth.unique (hf : IsNth p k f) (hg : IsNth p k g) : f = g :=
  Nat.count_injective hf.left hg.left (hf.right.trans hg.right.symm)

lemma IsNth.rank_unique (hk : IsNth p k f) (hl : IsNth p l f) : k = l := hk.right.symm.trans hl.right

lemma isNth_zero_iff : IsNth p 0 f ↔ p f ∧ ∀ g < f, ¬ p g := and_congr_right fun _ => Nat.count_iff_forall_not

/-- The number behind an element comes next, if it is one. -/
lemma IsNth.succ_iff (h : IsNth p k f) : IsNth p (k + 1) (f + 1) ↔ p (f + 1) := by
  have hcount : Nat.count p (f + 1) = k + 1 := by rw [Nat.count_succ, if_pos h.left, h.right]
  exact and_iff_left hcount

lemma count_removed (hq : ∀ g, q g ↔ p g ∧ g ≠ f) (hf : p f) (n : ℕ) :
    Nat.count p n = Nat.count q n + if f < n then 1 else 0 := by
  induction n with
  | zero => simp
  | succ n ih =>
    rw [Nat.count_succ, Nat.count_succ, ih]
    by_cases hn : n = f
    · subst hn
      have hnot : ¬ q n := fun h => ((hq n).mp h).right rfl
      rw [if_pos hf, if_neg hnot, if_neg (Nat.lt_irrefl n), if_pos (Nat.lt_succ_self n)]
    · have hsame : q n ↔ p n := (hq n).trans (and_iff_left hn)
      simp only [hsame]
      split_ifs <;> omega

/-- Without its first element the set has the others one place earlier. -/
lemma isNth_removed (hf : IsNth p 0 f) (hq : ∀ g, q g ↔ p g ∧ g ≠ f) : IsNth q k g ↔ IsNth p (k + 1) g := by
  have hfirst := (isNth_zero_iff.mp hf).right
  have hcount := count_removed hq hf.left g
  constructor
  · rintro ⟨hg, hk⟩
    obtain ⟨hp, hne⟩ := (hq g).mp hg
    have hlt : f < g := by
      by_contra hle
      exact hfirst g (by omega) hp
    rw [if_pos hlt] at hcount
    exact ⟨hp, by omega⟩
  · rintro ⟨hp, hk⟩
    have hlt : f < g := by
      by_contra hle
      have hzero : Nat.count p g = 0 := Nat.count_of_forall_not fun i hi => hfirst i (by omega)
      omega
    rw [if_pos hlt] at hcount
    exact ⟨(hq g).mpr ⟨hp, by omega⟩, by omega⟩

end WordOS.Lib.Ranks
