import Mathlib.Logic.Relation
import Mathlib.Data.Nat.Basic

/-! Loops whose body may fail: what holds at every test, and that they end. -/

namespace WordOS.Lib.Loops

variable {σ ε : Type*}

/-- `body` answers `none` where the loop is left; after `n` passes the answer is `stuck`. -/
def loop (stuck : ε) (body : σ → Except ε (Option σ)) : (n : ℕ) → σ → Except ε σ
  | 0, _ => .error stuck
  | n + 1, s =>
    match body s with
    | .error e => .error e
    | .ok none => .ok s
    | .ok (some t) => loop stuck body n t

/-- A loop over an index that counts up from `i`, with `n` passes. -/
def countUp (body : ℕ → σ → Except ε σ) : (n i : ℕ) → σ → Except ε σ
  | 0, _, s => .ok s
  | n + 1, i, s => do countUp body n (i + 1) (← body i s)

/-- The states of its tests, in order. -/
def tests (body : σ → Except ε (Option σ)) : (n : ℕ) → σ → List σ
  | 0, _ => []
  | n + 1, s =>
    match body s with
    | .ok (some t) => s :: tests body n t
    | _ => [s]

/-- The states in which the loop that starts at `s` makes its test. -/
def Reaches (body : σ → Except ε (Option σ)) : σ → σ → Prop := Relation.ReflTransGen fun s t => body s = .ok (some t)

variable {stuck : ε} {body : σ → Except ε (Option σ)} {s t u : σ} {n m : ℕ}

lemma loop_error {e : ε} (h : body s = .error e) : loop stuck body (n + 1) s = .error e := by
  simp only [loop, h]

lemma loop_leave (h : body s = .ok none) : loop stuck body (n + 1) s = .ok s := by
  simp only [loop, h]

lemma loop_pass (h : body s = .ok (some t)) : loop stuck body (n + 1) s = loop stuck body n t := by
  simp only [loop, h]

lemma tests_leave (h : body s = .ok none) : tests body (n + 1) s = [s] := by
  simp only [tests, h]

lemma tests_pass (h : body s = .ok (some t)) : tests body (n + 1) s = s :: tests body n t := by
  simp only [tests, h]

namespace Reaches

lemma refl (s : σ) : Reaches body s s := Relation.ReflTransGen.refl

lemma tail (h : Reaches body s t) (ht : body t = .ok (some u)) : Reaches body s u := Relation.ReflTransGen.tail h ht

lemma head (hs : body s = .ok (some t)) (h : Reaches body t u) : Reaches body s u := Relation.ReflTransGen.head hs h

lemma invariant {I : σ → Prop} (h : Reaches body s t) (hs : ∀ s t, I s → body s = .ok (some t) → I t) (h0 : I s) : I t := by
  induction h with
  | refl => exact h0
  | tail _ ht ih => exact hs _ _ ih ht

end Reaches

lemma loop_reaches (h : loop stuck body n s = .ok t) : Reaches body s t ∧ body t = .ok none := by
  induction n generalizing s with
  | zero => cases h
  | succ n ih =>
    rw [loop] at h
    split at h
    · cases h
    · cases h
      exact ⟨.refl _, by assumption⟩
    · next hs =>
      obtain ⟨hr, ht⟩ := ih h
      exact ⟨hr.head hs, ht⟩

lemma loop_ne_ok {e : ε} (h : Reaches body s t) (ht : body t = .error e) : loop stuck body n s ≠ .ok u := by
  induction h using Relation.ReflTransGen.head_induction_on generalizing n with
  | refl =>
    cases n with
    | zero => exact fun hu => by cases hu
    | succ n =>
      rw [loop_error ht]
      exact fun hu => by cases hu
  | head hs _ ih =>
    cases n with
    | zero => exact fun hu => by cases hu
    | succ n =>
      rw [loop_pass hs]
      exact ih

/-- A loop with an invariant and a measure that every pass lowers comes to its end. -/
lemma loop_returns {I : σ → Prop} {v : σ → ℕ}
    (hs : ∀ s, I s → body s = .ok none ∨ ∃ t, body s = .ok (some t) ∧ I t ∧ v t < v s) (h0 : I s) (hn : v s < n) :
    ∃ t, loop stuck body n s = .ok t ∧ I t ∧ body t = .ok none := by
  induction n generalizing s with
  | zero => exact absurd hn (Nat.not_lt_zero _)
  | succ n ih =>
    rcases hs s h0 with hleave | ⟨t, ht, hI, hlt⟩
    · exact ⟨s, loop_leave hleave, h0, hleave⟩
    · rw [loop_pass ht]
      exact ih hI (by omega)

lemma loop_ends {v : σ → ℕ} (hs : ∀ t u, Reaches body s t → body t = .ok (some u) → v u < v t) (hn : v s < n) :
    (∃ t, loop stuck body n s = .ok t ∧ Reaches body s t ∧ body t = .ok none) ∨
      ∃ t e, Reaches body s t ∧ body t = .error e := by
  induction n generalizing s with
  | zero => exact absurd hn (Nat.not_lt_zero _)
  | succ n ih =>
    cases hb : body s with
    | error e => exact Or.inr ⟨s, e, .refl _, hb⟩
    | ok r =>
      cases r with
      | none => exact Or.inl ⟨s, loop_leave hb, .refl _, hb⟩
      | some u =>
        have hlt := hs s u (.refl _) hb
        rw [loop_pass hb]
        apply (ih (fun t w ht hw => hs t w (ht.head hb) hw) (by omega)).imp
        · rintro ⟨t, ht, hr, hleave⟩
          exact ⟨t, ht, hr.head hb, hleave⟩
        · rintro ⟨t, e, hr, he⟩
          exact ⟨t, e, hr.head hb, he⟩

lemma countUp_ok {body : ℕ → σ → Except ε σ} {I : ℕ → σ → Prop} {i : ℕ}
    (hs : ∀ j t, i ≤ j → j < i + n → I j t → ∃ u, body j t = .ok u ∧ I (j + 1) u) (h0 : I i s) :
    ∃ t, countUp body n i s = .ok t ∧ I (i + n) t := by
  induction n generalizing i s with
  | zero => exact ⟨s, rfl, h0⟩
  | succ n ih =>
    obtain ⟨u, hu, hI⟩ := hs i s le_rfl (by omega) h0
    obtain ⟨t, ht, hend⟩ := ih (fun j t hj hlt => hs j t (by omega) (by omega)) hI
    refine ⟨t, ?_, by rwa [Nat.add_right_comm] at hend⟩
    rw [countUp, hu]
    exact ht

end WordOS.Lib.Loops
