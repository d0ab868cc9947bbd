import WordOS.Lib.Loops
import Mathlib.Data.Finset.Card
import Mathlib.Logic.Function.Iterate

/-! Chains of records, each of which tells where the next one is, and loops along them. -/

namespace WordOS.Lib.Chains

open Loops

variable {α σ ε : Type*}

/-- What one comes to by `k` links from `a`. -/
def follow (next : α → Option α) (k : ℕ) (a : α) : Option α := (Option.bind · next)^[k] (some a)

/-- `b` is the first record with `P` on the chain from `a`. -/
def FirstWith (next : α → Option α) (P : α → Prop) (a b : α) : Prop :=
  ∃ k, follow next k a = some b ∧ P b ∧ ∀ j < k, ∀ c, follow next j a = some c → ¬ P c

/-- The chain from `a` has its end at `b`, `k` links on. -/
def EndsAt (next : α → Option α) (k : ℕ) (a b : α) : Prop := follow next k a = some b ∧ next b = none

variable {next : α → Option α} {P : α → Prop} {a b c : α} {i j k n : ℕ}

@[simp] lemma follow_zero : follow next 0 a = some a := rfl

lemma follow_succ : follow next (k + 1) a = (next a).bind (follow next k) := by
  rw [follow, Function.iterate_succ_apply, Option.bind_some]
  cases h : next a with
  | none => exact Function.iterate_fixed rfl k
  | some b => rfl

lemma follow_succ' : follow next (k + 1) a = (follow next k a).bind next := Function.iterate_succ_apply' ..

lemma follow_add : follow next (j + k) a = (follow next j a).bind (follow next k) := by
  induction j generalizing a with
  | zero => rw [Nat.zero_add, follow_zero, Option.bind_some]
  | succ j ih =>
    rw [Nat.succ_add, follow_succ, follow_succ]
    cases next a with
    | none => rfl
    | some b => exact ih

lemma follow_of_le (h : follow next k a = some b) (hj : j ≤ k) : ∃ c, follow next j a = some c ∧ follow next (k - j) c = some b := by
  rw [← Nat.add_sub_cancel' hj, follow_add] at h
  exact Option.bind_eq_some_iff.mp h

lemma follow_invariant {I : α → Prop} (hs : ∀ a b, I a → next a = some b → I b) (h : follow next k a = some b) (ha : I a) : I b := by
  induction k generalizing a with
  | zero => exact Option.some.inj h ▸ ha
  | succ k ih =>
    rw [follow_succ] at h
    obtain ⟨c, hc, hrest⟩ := Option.bind_eq_some_iff.mp h
    exact ih hrest (hs a c ha hc)

lemma exists_endsAt {v : α → ℕ} (hs : ∀ j c d, follow next j a = some c → next c = some d → v d < v c) :
    ∃ k b, EndsAt next k a b := by
  induction hv : v a using Nat.strong_induction_on generalizing a with
  | _ n ih =>
    cases h : next a with
    | none => exact ⟨0, a, rfl, h⟩
    | some c =>
      have hlt : v c < n := hv ▸ hs 0 a c rfl h
      have hrest : ∀ j d e, follow next j c = some d → next d = some e → v e < v d := by
        intro j d e hd
        apply hs (j + 1)
        rw [follow_succ, h]
        exact hd
      obtain ⟨k, b, hk, hb⟩ := ih (v c) hlt hrest rfl
      exact ⟨k + 1, b, by rw [follow_succ, h]; exact hk, hb⟩

namespace EndsAt

lemma not_follow (h : EndsAt next k a b) (hk : k < n) : follow next n a = none := by
  obtain ⟨m, rfl⟩ := Nat.exists_eq_add_of_lt hk
  rw [Nat.add_assoc, follow_add, h.1, Option.bind_some, follow_succ, h.2, Option.bind_none]

lemma inj (h : EndsAt next k a b) (hi : follow next i a = some c) (hj : follow next j a = some c) : i = j := by
  by_contra hne
  wlog hlt : i < j generalizing i j
  · exact this hj hi (Ne.symm hne) (by omega)
  have hjk : j ≤ k := by
    by_contra hgt
    rw [h.not_follow (by omega)] at hj
    cases hj
  -- the rest of the chain from `c` would be there once more after `j` links
  obtain ⟨d, hd, hrest⟩ := follow_of_le h.1 hjk
  rw [hj, Option.some.injEq] at hd
  subst hd
  have hagain : follow next (i + (k - j)) a = some b := by rw [follow_add, hi, Option.bind_some, hrest]
  have hmore : follow next (i + (k - j) + (j - i)) a = none := by
    obtain ⟨m, hm⟩ := Nat.exists_eq_add_of_lt hlt
    rw [show j - i = m + 1 by omega, follow_add, hagain, Option.bind_some, follow_succ, h.2, Option.bind_none]
  rw [show i + (k - j) + (j - i) = k by omega, h.1] at hmore
  cases hmore

lemma lt_card (h : EndsAt next k a b) {s : Finset α} (hin : ∀ j ≤ k, ∀ c, follow next j a = some c → c ∈ s) : k < s.card := by
  by_contra hge
  have hcard : s.card < (Finset.range (k + 1)).card := by
    rw [Finset.card_range]
    omega
  have hmaps : ∀ j ∈ Finset.range (k + 1), (follow next j a).getD a ∈ s := by
    intro j hj
    have hjk : j ≤ k := Nat.lt_succ_iff.mp (Finset.mem_range.mp hj)
    obtain ⟨c, hc, -⟩ := follow_of_le h.1 hjk
    rw [hc]
    exact hin j hjk c hc
  obtain ⟨i, hi, j, hj, hne, heq⟩ := Finset.exists_ne_map_eq_of_card_lt_of_maps_to hcard hmaps
  obtain ⟨c, hc, -⟩ := follow_of_le h.1 (Nat.lt_succ_iff.mp (Finset.mem_range.mp hi))
  obtain ⟨d, hd, -⟩ := follow_of_le h.1 (Nat.lt_succ_iff.mp (Finset.mem_range.mp hj))
  rw [hc, hd] at heq
  have hcd : c = d := heq
  exact hne (h.inj hc (hcd ▸ hd))

end EndsAt

namespace FirstWith

lemma iff_of_pos (h : P a) : FirstWith next P a b ↔ b = a := by
  constructor
  · rintro ⟨k, hk, -, hbefore⟩
    cases k with
    | zero => exact (Option.some.inj hk).symm
    | succ k => exact absurd h (hbefore 0 (Nat.succ_pos k) a rfl)
  · rintro rfl
    exact ⟨0, rfl, h, fun j hj => absurd hj (Nat.not_lt_zero j)⟩

lemma iff_of_neg (h : ¬ P a) : FirstWith next P a b ↔ ∃ c, next a = some c ∧ FirstWith next P c b := by
  constructor
  · rintro ⟨k, hk, hb, hbefore⟩
    cases k with
    | zero => exact absurd ((Option.some.inj hk) ▸ hb) h
    | succ k =>
      rw [follow_succ] at hk
      obtain ⟨c, hc, hrest⟩ := Option.bind_eq_some_iff.mp hk
      refine ⟨c, hc, k, hrest, hb, fun j hj d hd => hbefore (j + 1) (by omega) d ?_⟩
      rw [follow_succ, hc]
      exact hd
  · rintro ⟨c, hc, k, hk, hb, hbefore⟩
    refine ⟨k + 1, by rw [follow_succ, hc]; exact hk, hb, fun j hj d hd => ?_⟩
    cases j with
    | zero => exact (Option.some.inj hd) ▸ h
    | succ j =>
      rw [follow_succ, hc] at hd
      exact hbefore j (by omega) d hd

lemma induct {Q : α → Prop} (h : FirstWith next P a b) (hb : Q b) (hs : ∀ c d, ¬ P c → next c = some d → Q d → Q c) : Q a := by
  obtain ⟨k, hk, -, hbefore⟩ := h
  induction k generalizing a with
  | zero => exact Option.some.inj hk ▸ hb
  | succ k ih =>
    have ha : ¬ P a := hbefore 0 (Nat.succ_pos k) a rfl
    rw [follow_succ] at hk
    obtain ⟨c, hc, hrest⟩ := Option.bind_eq_some_iff.mp hk
    refine hs a c ha hc (ih hrest fun j hj d hd => hbefore (j + 1) (Nat.succ_lt_succ hj) d ?_)
    rw [follow_succ, hc]
    exact hd

lemma unique (h : FirstWith next P a b) (h' : FirstWith next P a c) : b = c := by
  obtain ⟨i, hi, hb, hbi⟩ := h
  obtain ⟨j, hj, hc, hcj⟩ := h'
  rcases Nat.lt_trichotomy i j with hlt | rfl | hlt
  · exact absurd hb (hcj i hlt b hi)
  · exact Option.some.inj (hi.symm.trans hj)
  · exact absurd hc (hbi j hlt c hj)

end FirstWith

/-- The loop makes its test at the records of a chain, and fails at those that are not `Good`. -/
structure Walks (body : σ → Except ε (Option σ)) (place : σ → α) (next : α → Option α) (Good : α → Prop) : Prop where
  good_iff : ∀ s, Good (place s) ↔ ∃ r, body s = .ok r
  moves : ∀ {s r}, body s = .ok r → r.map place = next (place s)

/-- Such a loop returns where the chain has an end, with good records up to it. -/
lemma Walks.returns_iff {body : σ → Except ε (Option σ)} {place : σ → α} {Good : α → Prop} {stuck : ε} {s : σ}
    (h : Walks body place next Good) : (∃ n t, loop stuck body n s = .ok t) ↔
      ∃ k b, EndsAt next k (place s) b ∧ ∀ j ≤ k, ∀ c, follow next j (place s) = some c → Good c := by
  constructor
  · rintro ⟨n, t, ht⟩
    induction n generalizing s with
    | zero => cases ht
    | succ n ih =>
      cases hb : body s with
      | error e =>
        rw [loop_error hb] at ht
        cases ht
      | ok r =>
        have hgood : Good (place s) := (h.good_iff s).mpr ⟨r, hb⟩
        have hmove := h.moves hb
        cases r with
        | none =>
          refine ⟨0, place s, ⟨rfl, hmove.symm⟩, fun j hj c hc => ?_⟩
          obtain rfl := Nat.le_zero.mp hj
          exact (Option.some.inj hc) ▸ hgood
        | some u =>
          rw [loop_pass hb] at ht
          obtain ⟨k, b, ⟨hk, hend⟩, hall⟩ := ih ht
          refine ⟨k + 1, b, ⟨by rw [follow_succ, ← hmove]; exact hk, hend⟩, fun j hj c hc => ?_⟩
          cases j with
          | zero => exact (Option.some.inj hc) ▸ hgood
          | succ j =>
            rw [follow_succ, ← hmove] at hc
            exact hall j (by omega) c hc
  · rintro ⟨k, b, ⟨hk, hend⟩, hall⟩
    induction k generalizing s with
    | zero =>
      have hplace : place s = b := Option.some.inj hk
      obtain ⟨r, hr⟩ := (h.good_iff s).mp (hall 0 (le_refl 0) _ rfl)
      have hmove := h.moves hr
      rw [hplace, hend, Option.map_eq_none_iff] at hmove
      subst hmove
      exact ⟨1, s, loop_leave hr⟩
    | succ k ih =>
      obtain ⟨r, hr⟩ := (h.good_iff s).mp (hall 0 (Nat.zero_le _) _ rfl)
      have hmove := h.moves hr
      rw [follow_succ, ← hmove] at hk
      cases r with
      | none => cases hk
      | some u =>
        have hrest : ∀ j ≤ k, ∀ c, follow next j (place u) = some c → Good c := by
          intro j hj c hc
          apply hall (j + 1) (by omega) c
          rw [follow_succ, ← hmove]
          exact hc
        obtain ⟨n, t, ht⟩ := ih hrest hk
        exact ⟨n + 1, t, (loop_pass hr).trans ht⟩

end WordOS.Lib.Chains
